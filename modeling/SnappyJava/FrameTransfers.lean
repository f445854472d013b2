import SnappyJava.Lib.Erasure
import SnappyJava.FrameInvariants
import SnappyJava.FramePools
import SnappyJava.FramesAhead

/-! `transferTo(WritableByteChannel)` beside `transferTo(OutputStream)`, from any
state between two reads of a good stream. The channel is shown a view of the array
that was the buffer at the start. -/

namespace SnappyJava

open Exec Memory Reading Words

/-- The channel takes a part of each write that is not empty, and never throws. -/
def WritableByteChannel.Accepting (c : WritableByteChannel) : Prop :=
  ∀ r ∈ c.responses, 0 < r.1 ∧ r.2 = false

instance (c : WritableByteChannel) : Decidable c.Accepting :=
  inferInstanceAs (Decidable (∀ r ∈ c.responses, 0 < r.1 ∧ r.2 = false))

namespace SnappyFramedInputStream

/-! ## Records that are only written -/

/-- Without the records of the buffers and of the deliveries. -/
def unrecorded (s : SnappyFramedInputStream) : SnappyFramedInputStream :=
  { s with poolEvents := [], deliveries := [] }

section
variable {platform : Platform}

/-- A run that is known. -/
theorem wp_of_run {σ α : Type} {m : EStateM Throwable σ α} {s t : σ} {a : α} (hrun : m.run s = .ok a t)
    {Q : α → σ → Prop} {E : Throwable → σ → Prop} (hQ : Q a t) : wp m Q E s := by
  unfold wp
  rw [hrun]
  exact hQ

theorem unrecorded_unrecorded (s : SnappyFramedInputStream) : s.unrecorded.unrecorded = s.unrecorded := rfl

theorem blind_onRbc {α : Type} (m : EStateM Throwable Source α) : Blind unrecorded (onRbc m) :=
  Blind.zoom m (fun _ => rfl) fun _ _ => rfl

theorem blind_access {field : SnappyFramedInputStream → Option Lease}
    (hfield : ∀ s, field s = field s.unrecorded) : Blind unrecorded (access field) := by
  refine Blind.bind_get (fun s => by rw [hfield s]) fun s => ?_
  cases field s with
  | none => exact Blind.throw unrecorded_unrecorded _
  | some l => exact Blind.bind (Blind.update fun _ => rfl) fun _ => Blind.pure unrecorded_unrecorded _

theorem blind_releaseField {field : SnappyFramedInputStream → Option Lease}
    (hfield : ∀ s, field s = field s.unrecorded) : Blind unrecorded (releaseField field) := by
  refine Blind.bind_get (fun s => by rw [hfield s]) fun s => ?_
  cases field s with
  | none => exact Blind.pure unrecorded_unrecorded _
  | some l => exact Blind.bind (Blind.update fun _ => rfl) fun _ => Blind.update fun _ => rfl

theorem blind_allocate (answer : Nat → Nat → Except Throwable Bytes) (size : Nat) :
    Blind unrecorded (allocate answer size) := by
  have hrest : ∀ n, Blind unrecorded (do
      let contents ← fromExcept (answer n size)
      record (.acquire n)
      pure ⟨n, contents⟩ : Method Lease) := fun n =>
    Blind.bind (Blind.fromExcept unrecorded_unrecorded _) fun _ =>
      Blind.bind (Blind.update fun _ => rfl) fun _ => Blind.pure unrecorded_unrecorded _
  intro s
  exact hrest s.allocations { s with allocations := s.allocations + 1 }

theorem blind_allocateBuffersBasedOnSize (size : Nat) :
    Blind unrecorded (allocateBuffersBasedOnSize platform size) := by
  refine Blind.bind (blind_releaseField fun _ => rfl) fun _ =>
    Blind.bind (blind_releaseField fun _ => rfl) fun _ =>
    Blind.bind (blind_releaseField fun _ => rfl) fun _ => ?_
  refine Blind.bind (blind_allocate _ _) fun _ => Blind.bind (Blind.update fun _ => rfl) fun _ => ?_
  refine Blind.bind (blind_allocate _ _) fun _ => Blind.bind (Blind.update fun _ => rfl) fun _ => ?_
  exact Blind.bind (blind_allocate _ _) fun _ => Blind.update fun _ => rfl

theorem blind_reallocateForBlock (uncompressedLength : Nat) :
    Blind unrecorded (reallocateForBlock platform uncompressedLength) := by
  refine Blind.bind (blind_releaseField fun _ => rfl) fun _ =>
    Blind.bind (blind_releaseField fun _ => rfl) fun _ => ?_
  refine Blind.bind (blind_allocate _ _) fun _ => Blind.bind (Blind.update fun _ => rfl) fun _ => ?_
  exact Blind.bind (blind_allocate _ _) fun _ => Blind.update fun _ => rfl

theorem blind_readBlockHeader : Blind unrecorded readBlockHeader := by
  refine Blind.bind (Blind.update fun _ => rfl) fun _ => Blind.bind (blind_onRbc _) fun p => ?_
  exact Blind.ite (Blind.pure unrecorded_unrecorded _)
    (Blind.ite (Blind.throw unrecorded_unrecorded _) (Blind.pure unrecorded_unrecorded _))

theorem blind_skipFrame (length : Nat) : Blind unrecorded (skipFrame length) :=
  Blind.bind (blind_access fun _ => rfl) fun _ => Blind.bind (blind_onRbc _) fun _ =>
    Blind.update fun _ => rfl

theorem blind_readFrame (length : Nat) : Blind unrecorded (readFrame platform length) := by
  refine Blind.bind_get (fun _ => rfl) fun _ =>
    Blind.bind (Blind.when unrecorded_unrecorded (blind_allocateBuffersBasedOnSize _)) fun _ => ?_
  refine Blind.bind (blind_access fun _ => rfl) fun _ =>
    Blind.bind (Blind.fromExcept unrecorded_unrecorded _) fun _ => Blind.bind (blind_onRbc _) fun p => ?_
  refine Blind.bind (Blind.update fun _ => rfl) fun _ =>
    Blind.ite (Blind.throw unrecorded_unrecorded _) ?_
  exact Blind.bind (blind_access fun _ => rfl) fun _ => Blind.pure unrecorded_unrecorded _

theorem blind_copyToBuffer (data : Bytes) : Blind unrecorded (copyToBuffer data) :=
  Blind.bind (blind_access fun _ => rfl) fun _ =>
    Blind.ite (Blind.throw unrecorded_unrecorded _) (Blind.update fun _ => rfl)

theorem blind_uncompressFrame (payload : Bytes) : Blind unrecorded (uncompressFrame platform payload) := by
  refine Blind.bind (blind_access fun _ => rfl) fun _ =>
    Blind.bind (Blind.fromExcept unrecorded_unrecorded _) fun _ => Blind.bind_get (fun _ => rfl) fun _ =>
    Blind.bind (Blind.when unrecorded_unrecorded (blind_reallocateForBlock _)) fun _ => ?_
  refine Blind.bind ?_ fun _ => Blind.bind (Blind.update fun _ => rfl) fun _ =>
    Blind.bind (blind_access fun _ => rfl) fun _ => Blind.bind (blind_copyToBuffer _) fun _ =>
    Blind.update fun _ => rfl
  refine Blind.bind (blind_access fun _ => rfl) fun _ => Blind.bind (blind_access fun _ => rfl) fun _ => ?_
  exact Blind.bind (Blind.update fun _ => rfl) fun _ =>
    Blind.bind (Blind.fromExcept unrecorded_unrecorded _) fun _ => Blind.pure unrecorded_unrecorded _

theorem blind_loadFrame (flag : UInt8) (compressed : Bool) (length : Nat) :
    Blind unrecorded (loadFrame platform flag compressed length) := by
  have hverify : ∀ checkSum, Blind unrecorded (verifyFrame platform checkSum) := by
    intro checkSum
    refine Blind.bind_get (fun _ => rfl) fun _ => Blind.bind ?_ fun _ => Blind.update fun _ => rfl
    refine Blind.when unrecorded_unrecorded (Blind.bind (blind_access fun _ => rfl) fun _ => ?_)
    exact Blind.when unrecorded_unrecorded (Blind.throw unrecorded_unrecorded _)
  refine Blind.bind (blind_readFrame length) fun body => Blind.bind (Blind.update fun _ => rfl) fun _ => ?_
  dsimp only
  split
  · exact Blind.bind (blind_uncompressFrame _) fun _ => hverify _
  · refine Blind.bind ?_ fun _ => hverify _
    exact Blind.bind (Blind.update fun _ => rfl) fun _ => Blind.bind (blind_access fun _ => rfl) fun _ =>
      blind_copyToBuffer _

theorem blind_ensureBuffer : Blind unrecorded (ensureBuffer platform) := by
  have hround : ∀ u, Blind unrecorded (ensureBufferRound platform u) := by
    intro u
    refine Blind.bind_get (fun _ => rfl) fun _ => Blind.ite (Blind.pure unrecorded_unrecorded _) ?_
    refine Blind.ite (Blind.pure unrecorded_unrecorded _) (Blind.bind blind_readBlockHeader fun header => ?_)
    cases header with
    | none => exact Blind.bind (Blind.update fun _ => rfl) fun _ => Blind.pure unrecorded_unrecorded _
    | some frameHeader =>
      refine Blind.bind (Blind.fromExcept unrecorded_unrecorded _) fun m => Blind.ite ?_ ?_
      · exact Blind.bind (blind_skipFrame _) fun _ => Blind.pure unrecorded_unrecorded _
      · exact Blind.bind (blind_loadFrame _ _ _) fun _ => Blind.pure unrecorded_unrecorded _
  exact Blind.bind_get (fun _ => rfl) fun _ => Blind.loop unrecorded_unrecorded hround _ _

end

/-! ## Reading on -/

section
variable {platform : Platform} {c : Capacities} {v : Bool} {frames : List Frame}
  {s t u : SnappyFramedInputStream} {id : Nat}

/-- Where `ensureBuffer` finds data. -/
def comes (platform : Platform) (s : SnappyFramedInputStream) : Option SnappyFramedInputStream :=
  match (ensureBuffer platform).run s.unrecorded with
  | .ok true t => some t.unrecorded
  | _ => none

/-- The states in which data is found if each frame is read to its end. -/
inductive Passes (platform : Platform) : SnappyFramedInputStream → SnappyFramedInputStream → Prop
  | here {s t : SnappyFramedInputStream} (h : comes platform s = some t) : Passes platform s t
  | later {s t u : SnappyFramedInputStream} (h : comes platform s = some t)
      (hrest : Passes platform { t with position := t.valid } u) : Passes platform s u

/-- What a view of the array of allocation `id` shows. -/
def shown (platform : Platform) (id : Nat) (t : SnappyFramedInputStream) : Bytes :=
  (t.viewed platform.bufferPool id).contents

/-- The bytes that are to be delivered are among it, where they are looked for. -/
def Shows (platform : Platform) (id : Nat) (t : SnappyFramedInputStream) : Prop :=
  undelivered t <+: (shown platform id t).drop t.position

/-- It does so for every frame that is still to come. -/
def ShowsAll (platform : Platform) (id : Nat) (s : SnappyFramedInputStream) : Prop :=
  ∀ t, Passes platform s t → Shows platform id t

theorem comes_congr (h : s.unrecorded = t.unrecorded) : comes platform s = comes platform t := by
  rw [comes, comes, h]

theorem comes_of_run (h : (ensureBuffer platform).run s = .ok true t) :
    comes platform s = some t.unrecorded := by
  obtain ⟨t', hrun, ht⟩ := blind_ensureBuffer.run_ok h
  rw [comes, hrun]
  exact congrArg some ht

theorem comes_eq_none (h : (ensureBuffer platform).run s = .ok false t) : comes platform s = none := by
  obtain ⟨t', hrun, -⟩ := blind_ensureBuffer.run_ok h
  rw [comes, hrun]

theorem showsAll_iff (h : comes platform s = some t) :
    ShowsAll platform id s ↔
      Shows platform id t ∧ ShowsAll platform id { t with position := t.valid } := by
  constructor
  · exact fun hall => ⟨hall t (.here h), fun u hu => hall u (.later h hu)⟩
  · rintro ⟨hhere, hlater⟩ u hu
    cases hu with
    | here hu =>
      obtain rfl := Option.some.inj (h.symm.trans hu)
      exact hhere
    | later hu hrest =>
      obtain rfl := Option.some.inj (h.symm.trans hu)
      exact hlater u hrest

theorem showsAll_of_none (h : comes platform s = none) : ShowsAll platform id s := by
  intro t ht
  cases ht with
  | here hs => rw [h] at hs; cases hs
  | later hs _ => rw [h] at hs; cases hs

theorem showsAll_congr (h : s.unrecorded = t.unrecorded) :
    ShowsAll platform id s ↔ ShowsAll platform id t := by
  cases hs : comes platform s with
  | none =>
    have ht := @comes_congr platform _ _ h
    rw [hs] at ht
    exact iff_of_true (showsAll_of_none hs) (showsAll_of_none ht.symm)
  | some u =>
    have ht := @comes_congr platform _ _ h
    rw [hs] at ht
    rw [showsAll_iff hs, showsAll_iff ht.symm]

/-- What is left of a decoded frame is found at once. -/
theorem run_ensureBuffer_of_lt (hopen : s.closed = false) (h : s.position < s.valid) :
    (ensureBuffer platform).run s = .ok true s := by
  have hwp : wp (ensureBuffer platform) (fun ready t => ready = true ∧ t = s) (fun _ _ => False) s := by
    simp only [ensureBuffer, wp_bind, wp_get, loop, ensureBufferRound, wp_ite, wp_pure,
      availableNow_eq hopen]
    rw [if_pos (by omega)]
    trivial
  obtain ⟨ready, t, hrun, rfl, rfl⟩ := exists_of_wp hwp
  exact hrun

/-- Between two reads of a good stream `ensureBuffer` finds data or the end. -/
theorem run_ensureBuffer (hpool : platform.bufferPool.Reliable) (h : Ahead platform c v frames [] s) :
    (∃ t c' fs, (ensureBuffer platform).run s = .ok true t ∧ Ahead platform c' v fs [] t ∧
      undelivered t ++ contents platform.codec fs = undelivered s ++ contents platform.codec frames ∧
      (t.position < t.valid ∨ t.position = 0) ∧ t.position < c'.buffer ∧
      t.rbc.size < s.rbc.size + (if s.position < s.valid then 1 else 0)) ∨
    (∃ t c', (ensureBuffer platform).run s = .ok false t ∧ Ahead platform c' v [] [] t ∧
      t.valid ≤ t.position ∧ undelivered s ++ contents platform.codec frames = []) := by
  by_cases hmore : s.position < s.valid
  · refine .inl ⟨s, c, frames, run_ensureBuffer_of_lt h.opened hmore, h, rfl, .inl hmore, ?_, ?_⟩
    · exact Nat.lt_of_lt_of_le hmore h.valid_le
    · rw [if_pos hmore]
      omega
  have hnil := undelivered_eq_nil (Nat.le_of_not_lt hmore)
  rw [hnil, List.nil_append, if_neg hmore]
  have hwp : wp (ensureBuffer platform)
      (fun ready t => (ready = true ∧ ∃ c' fs, Ahead platform c' v fs [] t ∧
          undelivered t ++ contents platform.codec fs = contents platform.codec frames ∧
          t.position = 0 ∧ t.rbc.size < s.rbc.size) ∨
        (ready = false ∧ ∃ c', Ahead platform c' v [] [] t ∧ t.valid ≤ t.position ∧
          contents platform.codec frames = []))
      (fun _ _ => False) s := by
    simp only [ensureBuffer, wp_bind, wp_get]
    apply wp_ensureLoop hpool h (by omega) (Nat.lt_succ_self _)
    · intro t f fs c' _ _ hcont _ _ ht hdec hlt
      refine .inl ⟨rfl, c', fs, ht, ?_, hdec.position, hlt⟩
      rw [hdec.undelivered_eq, hcont]
    · intro t m hcont ht hvalid hpos _ hm
      apply wp_ensureLoop_end ht (by omega) (by omega)
      exact fun u hu hvalid' hpos' => .inr ⟨rfl, _, hu, by omega, hcont⟩
  obtain ⟨ready, t, hrun, h⟩ := exists_of_wp hwp
  rcases h with ⟨rfl, c', fs, ht, hdata, hpos, hlt⟩ | ⟨rfl, c', ht, hdone, hdata⟩
  · exact .inl ⟨t, c', fs, hrun, ht, hdata, .inr hpos, by rw [hpos]; exact ht.room.buffer_pos, hlt⟩
  · exact .inr ⟨t, c', hrun, ht, hdone, hdata⟩

/-! ## One round -/

/-- A round shows the channel the view at the place of the data. If the view is
too short for that, the data is not in it. -/
theorem wp_transferToChannelRound {w : WritableByteChannel} {total : Nat}
    (hrun : (ensureBuffer platform).run s = .ok true t) (h : Ahead platform c v frames [] t)
    (hplace : t.position < t.valid ∨ t.position = 0) (hw : w.Accepting)
    {Q : Nat ⊕ Nat → SnappyFramedInputStream × WritableByteChannel → Prop}
    {E : Throwable → SnappyFramedInputStream × WritableByteChannel → Prop}
    (hHidden : ∀ e q, ¬ Shows platform id t → E e q)
    (hWritten : ∀ n events deliveries, n ≤ t.valid - t.position →
      t.position + n ≤ (shown platform id t).length → (t.position < t.valid → 0 < n) →
      (w.responses = [] → n = t.valid - t.position) →
      Q (.inl (total + n))
        ({ t with position := t.position + n, poolEvents := events, deliveries := deliveries },
          { w with received := w.received ++ slice (shown platform id t) t.position n
                   responses := w.responses.tail })) :
    wp (transferToChannelRound platform id total) Q E (s, w) := by
  have hlen := h.length_undelivered
  have havail := availableNow_eq h.opened
  refine wp_channelRound (wp_of_run hrun ?_)
  rw [if_pos rfl, viewFor, havail, show (t.valid : Int) - t.position = (t.valid - t.position : Nat) by omega]
  constructor
  · intro e hview
    refine hHidden e _ fun hshows => ?_
    have hle := hshows.length_le
    rw [List.length_drop, hlen] at hle
    have hfits : t.position + (t.valid - t.position) ≤ (shown platform id t).length := by omega
    exact absurd ((ByteBuffer.view_of_le hfits).symm.trans hview) (fun h => by cases h)
  intro bb hview
  obtain ⟨harray, hposition, hlimit⟩ := ByteBuffer.view_ok (Int.natCast_nonneg _) hview
  have hremaining : bb.remaining = t.valid - t.position := by
    rw [ByteBuffer.remaining, hlimit, hposition, Int.toNat_natCast, Nat.add_sub_cancel_left]
  have hroom : t.position + (t.valid - t.position) ≤ (shown platform id t).length := by
    have hle := bb.limit_le
    rwa [hlimit, Int.toNat_natCast, harray] at hle
  apply WritableByteChannel.wp_write_part
  · intro n hn hdef _
    rw [hremaining] at hdef
    have hle : n ≤ t.valid - t.position := Nat.le_trans hn (Nat.le_of_eq hremaining)
    have hwritten : (bb.take n hn).position - t.position = n := by
      show bb.position + n - t.position = n
      rw [hposition, Nat.add_sub_cancel_left]
    rw [hwritten, harray, hposition]
    refine hWritten n _ _ hle (by omega) ?_ ?_
    · intro hmore
      cases hresp : w.responses with
      | nil =>
        rw [hresp, List.head?_nil, Option.getD_none] at hdef
        omega
      | cons r rs =>
        have hr := (hw r (by rw [hresp]; exact List.mem_cons_self)).1
        rw [hresp, List.head?_cons, Option.getD_some] at hdef
        omega
    · intro hnil
      rw [hnil, List.head?_nil, Option.getD_none] at hdef
      omega
  · intro n hn _ hfails
    have hnever : (w.responses.head?.getD (bb.remaining, false)).2 = false := by
      cases hresp : w.responses with
      | nil => rfl
      | cons r rs => exact (hw r (by rw [hresp]; exact List.mem_cons_self)).2
    exact absurd (hnever.symm.trans hfails) Bool.noConfusion

/-! ## The transfer -/

theorem prefix_iff_take_drop {α : Type} {d y : List α} {n : Nat} (hn : n ≤ d.length) :
    d <+: y ↔ y.take n = d.take n ∧ d.drop n <+: y.drop n := by
  constructor
  · rintro ⟨z, rfl⟩
    rw [List.take_append_of_le_length hn, List.drop_append_of_le_length hn]
    exact ⟨rfl, List.prefix_append _ _⟩
  · rintro ⟨htake, z, hz⟩
    refine ⟨z, ?_⟩
    rw [← List.take_append_drop n d, List.append_assoc, hz, ← htake, List.take_append_drop]

/-- What is left after a part of the data has been delivered. -/
theorem undelivered_advance (s : SnappyFramedInputStream) (n : Nat) (events : List Leases.Event)
    (deliveries : List Delivery) :
    undelivered { s with
      position := s.position + n, poolEvents := events, deliveries := deliveries } =
      (undelivered s).drop n := by
  simp only [undelivered, slice, List.drop_take, List.drop_drop, Nat.sub_add_eq]

/-- After a part of the data has been shown, all of it is shown if that part was
right and the rest is. -/
theorem showsAll_advance (hrun : (ensureBuffer platform).run s = .ok true t)
    (h : Ahead platform c v frames [] t) (hplace : t.position < t.valid ∨ t.position = 0) {n : Nat}
    (hn : n ≤ t.valid - t.position) (events : List Leases.Event) (deliveries : List Delivery) :
    ShowsAll platform id s ↔
      slice (shown platform id t) t.position n = (undelivered t).take n ∧ ShowsAll platform id { t with
        position := t.position + n, poolEvents := events, deliveries := deliveries } := by
  have hlen := h.length_undelivered
  have hshows : Shows platform id t ↔ slice (shown platform id t) t.position n = (undelivered t).take n ∧
      Shows platform id { t with
        position := t.position + n, poolEvents := events, deliveries := deliveries } := by
    rw [Shows, Shows, undelivered_advance, prefix_iff_take_drop (n := n) (by omega), List.drop_drop]
    rfl
  rw [showsAll_iff (comes_of_run hrun),
    show Shows platform id t.unrecorded ↔ Shows platform id t from Iff.rfl, hshows, and_assoc]
  refine and_congr_right fun _ => ?_
  by_cases hmore : t.position + n < t.valid
  · have hlater := @showsAll_iff platform { t with
        position := t.position + n, poolEvents := events, deliveries := deliveries } _ id
      (comes_of_run (run_ensureBuffer_of_lt h.opened hmore))
    rw [hlater]
    rfl
  · have hend : t.position + n = t.valid := by omega
    have hnil : undelivered { t with
        position := t.position + n, poolEvents := events, deliveries := deliveries } = [] :=
      undelivered_eq_nil (by simp only; omega)
    rw [Shows, hnil, and_iff_right List.nil_prefix, showsAll_congr]
    simp only [unrecorded, hend]

/-- The channel gets the data, and its length is returned, exactly if the view
shows it; else it gets other bytes, or the transfer throws. -/
theorem wp_transferLoop (hpool : platform.bufferPool.Reliable) {w : WritableByteChannel} {n total : Nat}
    (h : Ahead platform c v frames [] s) (hw : w.Accepting)
    (hn : s.rbc.size + (if s.position < s.valid then 1 else 0) + w.responses.length < n) :
    wp (loop .outOfFuel (transferToChannelRound platform id) n total)
      (fun sum q => w.received <+: q.2.received ∧
        (q.2.received = w.received ++ (undelivered s ++ contents platform.codec frames) ∧
          sum = total + (undelivered s ++ contents platform.codec frames).length ↔
          ShowsAll platform id s))
      (fun _ _ => ¬ ShowsAll platform id s) (s, w) := by
  induction n generalizing c frames s w total with
  | zero => omega
  | succ n ih =>
    rw [loop, wp_bind]
    rcases run_ensureBuffer hpool h with
      ⟨t, c', fs, hrun, ht, hdata, hplace, hfit, hlt⟩ | ⟨t, c', hrun, ht, -, hdata⟩
    case inr =>
      refine wp_channelRound (wp_of_run hrun ?_)
      simp only [Bool.false_eq_true, if_false, hdata]
      refine ⟨List.prefix_rfl, iff_of_true ?_ (showsAll_of_none (comes_eq_none hrun))⟩
      simp
    apply wp_transferToChannelRound hrun ht hplace hw
    · intro e q hnot hall
      exact hnot ((showsAll_iff (comes_of_run hrun)).mp hall).1
    intro k events deliveries hk hroom hpos hnone
    have hlen := ht.length_undelivered
    have hvalid := ht.valid_le
    have hall := @showsAll_advance platform c' v fs s t id hrun ht hplace k hk events deliveries
    have hu : Ahead platform c' v fs [] { t with
        position := t.position + k, poolEvents := events, deliveries := deliveries } :=
      { ht with position_le := by simp only; omega, room := { ht.room with } }
    refine wp_mono (ih hu (fun r hr => hw r (List.mem_of_mem_tail hr)) ?_) ?_ ?_
    · simp only [List.length_tail]
      by_cases hresp : w.responses = []
      · have := hnone hresp
        rw [if_neg (by omega), hresp, List.length_nil]
        rw [hresp, List.length_nil] at hn
        omega
      · have := List.length_pos_iff.mpr hresp
        split <;> omega
    · rintro sum q ⟨ hprefix, hiff⟩
      have hslice : (slice (shown platform id t) t.position k).length = k := length_slice _ hroom
      rw [undelivered_advance] at hiff
      rw [← hdata, hall]
      dsimp only at hprefix hiff
      refine ⟨(List.prefix_append _ _).trans hprefix, ?_, ?_⟩
      · rintro ⟨hq, hsum⟩
        have htake : slice (shown platform id t) t.position k = (undelivered t).take k := by
          rw [hq] at hprefix
          have hp := (List.prefix_append_right_inj _).mp hprefix
          have := List.prefix_iff_eq_take.mp hp
          rwa [hslice, List.take_append_of_le_length (by omega)] at this
        refine ⟨htake, hiff.mp ⟨?_, ?_⟩⟩
        · rw [hq, htake, List.append_assoc, ← List.append_assoc ((undelivered t).take k),
            List.take_append_drop]
        · rw [hsum]
          simp only [List.length_append, List.length_drop]
          omega
      · rintro ⟨htake, hrest⟩
        obtain ⟨hq, hsum⟩ := hiff.mpr hrest
        refine ⟨?_, ?_⟩
        · rw [hq, htake, List.append_assoc, ← List.append_assoc ((undelivered t).take k),
            List.take_append_drop]
        · rw [hsum]
          simp only [List.length_append, List.length_drop]
          omega
    · exact fun e q hnot hs => hnot (hall.mp hs).2

end

/-! ## Between two reads -/

/-- Good frames are ahead and then the end; what is still to be delivered is the
end of `content`. -/
structure Between (platform : Platform) (c : Capacities) (v : Bool) (content : Bytes)
    (frames : List Frame) (s : SnappyFramedInputStream) : Prop
    extends Ahead platform c v frames [] s where
  rest_suffix : undelivered s ++ contents platform.codec frames <:+ content

def Midway (platform : Platform) (v : Bool) (content : Bytes) (s : SnappyFramedInputStream) : Prop :=
  ∃ c frames, Between platform c v content frames s

section
variable {platform : Platform} {c : Capacities} {v : Bool} {content : Bytes} {frames : List Frame}
  {s : SnappyFramedInputStream}

theorem Between.advanced (h : Between platform c v content frames s) {n : Nat}
    (hn : s.position + n ≤ c.buffer) (events : List Leases.Event) (deliveries : List Delivery) :
    Midway platform v content { s with
      position := s.position + n, poolEvents := events, deliveries := deliveries } := by
  refine ⟨c, frames, { h.toAhead with position_le := hn, room := { h.room with } }, ?_⟩
  rw [undelivered_advance]
  obtain ⟨z, hz⟩ := List.drop_suffix n (undelivered s)
  refine List.IsSuffix.trans ⟨z, ?_⟩ h.rest_suffix
  rw [← List.append_assoc, hz]

theorem Between.recorded (h : Between platform c v content frames s) (events : List Leases.Event)
    (deliveries : List Delivery) :
    Midway platform v content { s with poolEvents := events, deliveries := deliveries } :=
  h.advanced (n := 0) h.position_le events deliveries

theorem Midway.opened (h : Midway platform v content s) : s.closed = false := by
  obtain ⟨c, frames, ha⟩ := h
  exact ha.opened

theorem wp_ensureBuffer_midway (hpool : platform.bufferPool.Reliable) (h : Midway platform v content s)
    {Q : Bool → SnappyFramedInputStream → Prop} {E : Throwable → SnappyFramedInputStream → Prop}
    (hReady : ∀ t c fs, Between platform c v content fs t → t.position < c.buffer →
      (t.position < t.valid ∨ t.position = 0) → Q true t)
    (hEnd : ∀ t, Midway platform v content t → Q false t) : wp (ensureBuffer platform) Q E s := by
  obtain ⟨c, frames, ha⟩ := h
  rcases run_ensureBuffer hpool ha.toAhead with
    ⟨t, c', fs, hrun, ht, hdata, hplace, hfit, -⟩ | ⟨t, c', hrun, ht, hdone, -⟩
  · exact wp_of_run hrun (hReady t c' fs ⟨ht, hdata ▸ ha.rest_suffix⟩ hfit hplace)
  · refine wp_of_run hrun (hEnd t ⟨c', [], ht, ?_⟩)
    rw [undelivered_eq_nil hdone]
    exact List.nil_suffix

theorem midway_readByte (hpool : platform.bufferPool.Reliable) :
    Keeps (Midway platform v content) (readByte platform) := by
  intro s hs
  simp only [readByte, wp_bind, wp_get, wp_ite, wp_pure, hs.opened, Bool.false_eq_true, if_false]
  apply wp_ensureBuffer_midway hpool hs
  · intro t c fs ht hfit _
    obtain ⟨l, hl, -⟩ := ht.room.buffer
    simp only [if_true, advance, wp_modify]
    apply wp_access hl
    intro events
    cases l.contents[t.position]? with
    | none => exact ht.advanced hfit events _
    | some x => exact ht.advanced hfit events _
  · exact fun t ht => ht

theorem midway_takeAvailable (h : Between platform c v content frames s) (room : Nat) :
    wp (takeAvailable room) (fun _ => Midway platform v content) (fun _ => Midway platform v content) s := by
  obtain ⟨l, hl, -⟩ := h.room.buffer
  have hp := h.position_le
  have hv := h.valid_le
  have hav := availableNow_eq h.opened
  simp only [takeAvailable, wp_bind, wp_get, wp_ite, wp_throw, deliver, advance, wp_modify, wp_pure]
  apply wp_access hl
  intro events
  split
  · exact h.recorded events _
  · exact h.advanced (by omega) events _

theorem midway_read (hpool : platform.bufferPool.Reliable) (output : Bytes) (offset length : Int) :
    Keeps (Midway platform v content) (read platform output offset length) := by
  intro s hs
  simp only [read, wp_bind, wp_get, wp_ite, wp_throw, wp_pure, hs.opened, Bool.false_eq_true, if_false]
  split
  · exact hs
  split
  · exact hs
  apply wp_ensureBuffer_midway hpool hs
  · intro t c fs ht _ _
    simp only [if_true]
    split
    · exact ⟨c, fs, ht⟩
    · exact midway_takeAvailable ht _
  · exact fun t ht => ht

theorem midway_readBuffer (hpool : platform.bufferPool.Reliable) (dst : ByteBuffer) :
    Keeps (Midway platform v content) (readBuffer platform dst) := by
  intro s hs
  simp only [readBuffer, wp_bind, wp_get, wp_ite, wp_throw, wp_pure, hs.opened, Bool.false_eq_true,
    if_false]
  split
  · exact hs
  apply wp_ensureBuffer_midway hpool hs
  · intro t c fs ht _ _
    simp only [if_true]
    refine wp_mono (midway_takeAvailable ht _) (fun bytes u hu => ?_) (fun _ _ hu => hu)
    cases dst.put bytes <;> exact hu
  · exact fun t ht => ht

theorem midway_transferToStream (hpool : platform.bufferPool.Reliable) :
    Keeps (fun p : SnappyFramedInputStream × OutputStream => Midway platform v content p.1)
      (transferToStream platform) := by
  refine Keeps.bind (fun p hp => hp) fun _ => Keeps.ite (Keeps.throw _) (Keeps.loop (fun total => ?_) _ _)
  intro p hp
  simp only [transferToStreamRound, onStream, wp_bind, wp_zoom, wp_ite, wp_get, wp_throw, wp_pure]
  apply wp_ensureBuffer_midway hpool hp
  · intro t c fs ht _ _
    obtain ⟨l, hl, -⟩ := ht.room.buffer
    have hp := ht.position_le
    have hv := ht.valid_le
    have hav := availableNow_eq ht.opened
    simp only [if_true, deliver, advance, wp_modify]
    apply wp_access hl
    intro events
    split
    · exact ht.recorded events _
    · refine wp_mono (wp_true _ _) (fun _ _ _ => ?_) (fun _ _ _ => ht.recorded events _)
      exact ht.advanced (by omega) events _
  · exact fun t ht => ht

theorem midway_transferToChannelRound (hpool : platform.bufferPool.Reliable) (id total : Nat) :
    Keeps (fun p : SnappyFramedInputStream × WritableByteChannel => Midway platform v content p.1)
      (transferToChannelRound platform id total) := by
  rintro ⟨s, w⟩ hs
  refine wp_channelRound (wp_ensureBuffer_midway hpool hs ?_ ?_)
  · intro t c fs ht _ hplace
    have hp := ht.position_le
    have hv := ht.valid_le
    have hav := availableNow_eq ht.opened
    rw [if_pos rfl]
    refine ⟨fun _ _ => ⟨c, fs, ht⟩, fun bb hview => ?_⟩
    obtain ⟨-, hposition, hlimit⟩ := ByteBuffer.view_ok (by omega) hview
    apply WritableByteChannel.wp_write_part
    · intro n hn _ _
      have hend := (bb.take n hn).position_le
      have hsame : (bb.take n hn).limit = bb.limit := rfl
      have hfit : t.position + ((bb.take n hn).position - t.position) ≤ c.buffer := by omega
      exact ht.advanced hfit _ _
    · exact fun n hn _ _ => ht.recorded _ _
  · exact fun t ht => ht

theorem midway_perform (hpool : platform.bufferPool.Reliable) {call : ReadCall}
    (hcall : ∀ b, call ≠ .close b) : Keeps (Midway platform v content) (perform platform call) := by
  cases call with
  | readByte => exact Keeps.bind (midway_readByte hpool) fun _ => Keeps.pure _
  | read output offset length => exact Keeps.bind (midway_read hpool _ _ _) fun _ => Keeps.pure _
  | readBuffer dst => exact Keeps.bind (midway_readBuffer hpool _) fun _ => Keeps.pure _
  | transferToStream os =>
    intro s hs
    simp only [perform, wp_bind, wp_withLocal, wp_pure]
    refine wp_mono (midway_transferToStream hpool (s, os) hs) (fun _ _ hp => hp) (fun _ _ hp => hp)
  | transferToChannel wbc =>
    intro s hs
    obtain ⟨c, frames, ha⟩ := hs
    obtain ⟨l, hl, -⟩ := ha.room.buffer
    simp only [perform, transferToChannel, wp_bind, wp_withLocal, wp_pure, wp_get, wp_ite, wp_throw,
      ha.opened, Bool.false_eq_true, if_false, hl]
    exact wp_mono (Keeps.loop (midway_transferToChannelRound hpool l.id) _ _ (s, wbc) ⟨c, frames, ha⟩)
      (fun _ _ hp => hp) (fun _ _ hp => hp)
  | available => exact Keeps.bind Keeps.get fun _ => Keeps.pure _
  | close sourceFails => exact absurd rfl (hcall sourceFails)

end

/-! ## Both transfers -/

/-- The transfer to a stream that never fails hands it `data`. -/
def DeliversToStream (platform : Platform) (data : Bytes) (s : SnappyFramedInputStream) : Prop :=
  ∀ os : OutputStream, os.failures = [] → wp (transferToStream platform)
    (fun n p => n = data.length ∧ p.2.received = os.received ++ data) (fun _ _ => False) (s, os)

/-- So does the transfer to the channel. -/
def DeliversToChannel (platform : Platform) (data : Bytes) (wbc : WritableByteChannel)
    (s : SnappyFramedInputStream) : Prop :=
  wp (transferToChannel platform)
    (fun n p => n = data.length ∧ p.2.received = wbc.received ++ data) (fun _ _ => False) (s, wbc)

/-- Wherever reading on finds data, the array that is the buffer now still is or is
again, or happens to show the same bytes. -/
def ViewHolds (platform : Platform) (s : SnappyFramedInputStream) : Prop :=
  ∀ l, s.buffer = some l → ∀ t, Passes platform s t →
    t.buffer.map (fun b => platform.bufferPool.object b.id) = some (platform.bufferPool.object l.id) ∨
      undelivered t <+: (t.viewed platform.bufferPool l.id).contents.drop t.position

section
variable {platform : Platform} {c : Capacities} {v : Bool} {frames : List Frame}
  {s t : SnappyFramedInputStream} {id : Nat}

/-- The buffer itself shows the data. -/
theorem shows_of_buffer (h : t.buffer.map (fun b => platform.bufferPool.object b.id) =
    some (platform.bufferPool.object id)) : Shows platform id t := by
  obtain ⟨l, hl, hobject⟩ := Option.map_eq_some_iff.mp h
  rw [Shows, shown, viewed_of_buffer hl hobject, undelivered, hl]
  exact List.take_prefix _ _

theorem viewHolds_iff {l : Lease} (hl : s.buffer = some l) :
    ViewHolds platform s ↔ ShowsAll platform l.id s := by
  constructor
  · intro h t ht
    rcases h l hl t ht with hsame | hshows
    · exact shows_of_buffer hsame
    · exact hshows
  · intro h l' hl' t ht
    obtain rfl := Option.some.inj (hl.symm.trans hl')
    exact .inr (h t ht)

/-- When the data has been taken. -/
theorem Fronted.past (h : Fronted platform id [] t) :
    Follows platform id ({ t.unrecorded with position := t.valid }, .reliable) := by
  refine ⟨h.opened, h.buffer, fun heof after hafter => h.stays heof after ?_, h.direct_lt⟩
  rw [availableNow_eq (by exact h.opened), if_neg (by simp [unrecorded])] at hafter
  exact hafter

/-- Wherever frames ahead leave the array where it is, the view holds. -/
theorem viewHolds_of_keepsArray (hopen : s.closed = false)
    (hlt : s.capacities.uncompressedDirect < 2 ^ 31) (hpool : platform.bufferPool.Contract)
    (h : KeepsArray platform .reliable s) : ViewHolds platform s := by
  intro l hl t ht
  have hcomes : ∀ {u t : SnappyFramedInputStream}, Follows platform l.id (u, .reliable) →
      comes platform u = some t → ∃ t', Fronted platform l.id [] t' ∧ t = t'.unrecorded := by
    intro u t hu ht
    have hstart : Follows platform l.id (u.unrecorded, .reliable) := { hu with }
    have hwp := hstart.wp_ensureBuffer hpool
    rw [comes] at ht
    cases hrun : (ensureBuffer platform).run u.unrecorded with
    | error e t' =>
      rw [hrun] at ht
      cases ht
    | ok ready t' =>
      rw [hrun] at ht
      cases ready with
      | false => cases ht
      | true => exact ⟨t', wp_ok hwp hrun rfl, (Option.some.inj ht).symm⟩
  have hall : ∀ {u t : SnappyFramedInputStream}, Passes platform u t →
      Follows platform l.id (u, .reliable) → ∃ t', Fronted platform l.id [] t' ∧ t = t'.unrecorded := by
    intro u t ht
    induction ht with
    | here hs => exact fun hu => hcomes hu hs
    | later hs _ ih =>
      intro hu
      obtain ⟨t', hfronted, rfl⟩ := hcomes hu hs
      exact ih hfronted.past
  obtain ⟨t', hfronted, rfl⟩ := hall ht (h.follows hopen hlt hl)
  obtain ⟨b, hb, hobject⟩ := hfronted.buffer
  exact .inl (by rw [show t'.unrecorded.buffer = some b from hb, Option.map_some, hobject])

theorem Ahead.deliversToStream (hpool : platform.bufferPool.Reliable)
    (h : Ahead platform c v frames [] s) :
    DeliversToStream platform (undelivered s ++ contents platform.codec frames) s := by
  intro os hos
  apply wp_transferToStream hpool hos h
  intro t m o ht hdone hm ho
  apply wp_ensureLoop_end ht hdone (by omega)
  exact fun u _ _ _ => ⟨rfl, rfl, ho⟩

theorem Ahead.deliversToChannel_iff (hpool : platform.bufferPool.Reliable)
    (h : Ahead platform c v frames [] s) {wbc : WritableByteChannel} (hw : wbc.Accepting) {l : Lease}
    (hl : s.buffer = some l) :
    DeliversToChannel platform (undelivered s ++ contents platform.codec frames) wbc s ↔
      ShowsAll platform l.id s := by
  have hloop := @wp_transferLoop platform c v frames s l.id hpool wbc
    (s.rbc.size + wbc.responses.length + 2) 0 h hw (by split <;> omega)
  simp only [DeliversToChannel, transferToChannel, wp_bind, wp_get, wp_ite, wp_throw, h.opened,
    Bool.false_eq_true, if_false, hl]
  constructor
  · intro hdelivers
    obtain ⟨n, p, hrun, hn, hp⟩ := exists_of_wp hdelivers
    have hboth := wp_ok hloop hrun
    exact hboth.2.mp ⟨hp, by omega⟩
  · intro hall
    refine wp_mono hloop ?_ (fun e p hnot => hnot hall)
    rintro n p ⟨-, hiff⟩
    obtain ⟨hp, hn⟩ := hiff.mpr hall
    exact ⟨by omega, hp⟩

/-- From any state that reads have led to, the rest of a good stream is handed to
a stream whole, and to a channel exactly if the view holds, as it does when every
frame ahead goes into the array that is the buffer now. -/
theorem deliversToChannel_iff_viewHolds (hpool : platform.bufferPool.BuiltIn) {rbc : Source}
    (hp : rbc.Positive) (hdata : rbc.data = Frame.stream frames) (hfits : ∀ f ∈ frames, f.Fits)
    (hgood : ∀ f ∈ frames, f.Good platform)
    (hshort : ∀ f ∈ frames, (f.data platform.codec).length < 2 ^ 31) {s₀ : SnappyFramedInputStream}
    (hnew : new platform rbc v = .ok s₀) {calls : List ReadCall}
    (hcalls : ∀ call ∈ calls, ∀ b, call ≠ .close b)
    {outcomes : List (Except Throwable (Answer UInt8))}
    (hrun : (runOn Throwable.Fatal (perform platform) calls).run s₀ = .ok outcomes s)
    {wbc : WritableByteChannel} (hw : wbc.Accepting) :
    ∃ data, data <:+ contents platform.codec frames ∧ DeliversToStream platform data s ∧
      (DeliversToChannel platform data wbc s ↔ ViewHolds platform s) ∧
      (KeepsArray platform .reliable s → ViewHolds platform s) := by
  have hroomy := @Capacities.roomy_of_builtIn platform frames hpool fun f hf => ⟨hfits f hf, hshort f hf⟩
  obtain ⟨s₁, hs₁, ha₁, hdone⟩ := @new_ahead platform v rbc hpool.reliable hp frames []
    (by rw [hdata, Frame.stream, List.append_nil])
    (fun f hf => ⟨hfits f hf, hgood f hf, hshort f hf⟩) hroomy
  obtain rfl := Except.ok.inj (hs₁.symm.trans hnew)
  have hstart : Midway platform v (contents platform.codec frames) s₁ := by
    refine ⟨_, frames, ha₁, ?_⟩
    rw [undelivered_eq_nil (Nat.le_of_eq hdone)]
    exact List.suffix_rfl
  have hruns := @wp_runOn _ _ _ _ Throwable.Fatal _ (perform platform)
    (fun call => ∀ b, call ≠ .close b) (Midway platform v (contents platform.codec frames))
    (fun _ => True) (fun _ => Midway platform v (contents platform.codec frames)) ?_ calls hcalls s₁ hstart
  · obtain ⟨-, c, fs, h⟩ := wp_ok hruns hrun
    obtain ⟨l, hl, -⟩ := h.room.buffer
    refine ⟨_, h.rest_suffix, h.toAhead.deliversToStream hpool.reliable, ?_, ?_⟩
    · rw [viewHolds_iff hl]
      exact h.toAhead.deliversToChannel_iff hpool.reliable hw hl
    · obtain ⟨d, hd, hlength⟩ := h.room.uncompressedDirect
      have hlt : s.capacities.uncompressedDirect < 2 ^ 31 := direct_lt_of_room fun l' hl' => by
        obtain rfl := Option.some.inj (hd.symm.trans hl')
        exact hlength ▸ h.room.direct_lt
      exact viewHolds_of_keepsArray h.opened hlt hpool.reliable.toContract
  · intro call t hcall ht
    refine wp_mono (midway_perform hpool.reliable hcall t ht) (fun _ _ hu => ⟨trivial, hu⟩) ?_
    intro e u hu
    split
    · exact hu
    · exact ⟨trivial, hu⟩

end

theorem deliversToChannel_iff_viewHolds_samples :
    ∃ s, new literalPlatform ⟨Frame.stream Frame.samples, [3, 1]⟩ true = .ok s ∧
      ∃ data, data <:+ contents literalPlatform.codec Frame.samples ∧
        DeliversToStream literalPlatform data s ∧
        (DeliversToChannel literalPlatform data ⟨[], [(1, false), (2, false)], false, 0⟩ s ↔
          ViewHolds literalPlatform s) ∧
        (KeepsArray literalPlatform .reliable s → ViewHolds literalPlatform s) := by
  obtain ⟨s, hs, -, -⟩ := @new_ahead literalPlatform true ⟨Frame.stream Frame.samples, [3, 1]⟩
    QuiescentBufferPool.builtIn.reliable (by decide) [] (Frame.samples.flatMap Frame.encode) rfl
    (by simp) trivial
  have hrun : (runOn Throwable.Fatal (perform literalPlatform) [.available]).run s =
      .ok [.ok ⟨false, [], false, s.availableNow⟩] s := rfl
  exact ⟨s, hs, deliversToChannel_iff_viewHolds QuiescentBufferPool.builtIn (by decide) rfl
    (fun _ hf => (Frame.samples_spec hf).1) (fun _ hf => (Frame.samples_spec hf).2.1)
    (fun _ hf => (Frame.samples_spec hf).2.2) hs (by simp) hrun (by decide)⟩

/-! ## The length of the view -/

/-- The array of allocation `id` is not one of the direct buffers, and has at most `n`
bytes wherever it is. -/
structure Capped (id n : Nat) (s : SnappyFramedInputStream) : Prop where
  taken : id < s.allocations
  input : ∀ l, s.input = some l → l.id ≠ id
  uncompressedDirect : ∀ l, s.uncompressedDirect = some l → l.id ≠ id
  buffer : ∀ l, s.buffer = some l → l.id = id → l.contents.length ≤ n
  returned : ∀ l ∈ s.returned, l.id = id → l.contents.length ≤ n

section
variable {platform : Platform} {id n : Nat} {s : SnappyFramedInputStream}

/-- A pool that hands no array out twice. -/
theorem Capped.length_viewed_le (h : Capped id n s) {pool : BufferPool}
    (hpool : ∀ k, pool.object k = pool.object id → k = id) :
    (s.viewed pool id).contents.length ≤ n := by
  rw [viewed]
  cases hfind : (s.buffer.toList ++ s.returned.reverse).find? fun l =>
    pool.object l.id = pool.object id with
  | none => exact Nat.zero_le n
  | some l =>
    have hid : l.id = id := hpool _ (by simpa using List.find?_some hfind)
    rcases List.mem_append.mp (List.mem_of_find?_eq_some hfind) with hl | hl
    · exact h.buffer l (Option.mem_toList.mp hl) hid
    · exact h.returned l (List.mem_reverse.mp hl) hid

theorem Capped.gaveBack (h : Capped id n s) {x : Option Lease}
    (hx : ∀ l, x = some l → l.id = id → l.contents.length ≤ n) : Capped id n (s.gaveBack x) := by
  cases x with
  | none => exact h
  | some l =>
    refine ⟨h.taken, h.input, h.uncompressedDirect, h.buffer, fun l' hl' => ?_⟩
    rcases List.mem_append.mp hl' with hl' | hl'
    · exact h.returned l' hl'
    · obtain rfl := List.mem_singleton.mp hl'
      exact hx l' rfl

theorem wp_allocate_capped {answer : Nat → Nat → Except Throwable Bytes} {size : Nat}
    {Q : Lease → SnappyFramedInputStream → Prop} (h : Capped id n s)
    (hQ : ∀ l t, l.id ≠ id → Capped id n t → Q l t) :
    wp (allocate answer size) Q (fun _ => Capped id n) s := by
  have htaken := h.taken
  refine wp_allocate_cases (fun b _ => hQ _ _ ?_ { h with taken := by simp only; omega }) fun _ => ?_
  · exact Nat.ne_of_gt htaken
  · exact { h with taken := by simp only; omega }

theorem keeps_capped_access (field : SnappyFramedInputStream → Option Lease) :
    Keeps (Capped id n) (access field) := fun _ hs =>
  wp_access_has (fun _ _ => { hs with }) fun _ => hs

theorem keeps_capped_onRbc {α : Type} (m : EStateM Throwable Source α) :
    Keeps (Capped id n) (onRbc m) := Keeps.zoom m fun _ _ hs => { hs with }

theorem keeps_capped_basedOnSize (size : Nat) :
    Keeps (Capped id n) (allocateBuffersBasedOnSize platform size) := by
  intro s hs
  simp only [allocateBuffersBasedOnSize, wp_bind, wp_modify]
  refine wp_releaseField_gaveBack <| wp_releaseField_gaveBack <| wp_releaseField_gaveBack ?_
  have h₁ := hs.gaveBack fun l hl hid => absurd hid (hs.input l hl)
  have h₂ := h₁.gaveBack fun l hl hid => absurd hid (h₁.uncompressedDirect l hl)
  have h₃ := h₂.gaveBack h₂.buffer
  refine wp_allocate_capped h₃ fun i t hi ht => ?_
  refine wp_allocate_capped { ht with input := fun l hl => Option.some.inj hl ▸ hi } fun d u hd hu => ?_
  refine wp_allocate_capped
    { hu with uncompressedDirect := fun l hl => Option.some.inj hl ▸ hd } fun b w hb hw => ?_
  exact { hw with buffer := fun l hl hid => absurd hid (Option.some.inj hl ▸ hb) }

theorem keeps_capped_reallocateForBlock (uncompressedLength : Nat) :
    Keeps (Capped id n) (reallocateForBlock platform uncompressedLength) := by
  intro s hs
  simp only [reallocateForBlock, wp_bind, wp_modify]
  refine wp_releaseField_gaveBack <| wp_releaseField_gaveBack ?_
  have h₁ := hs.gaveBack fun l hl hid => absurd hid (hs.uncompressedDirect l hl)
  have h₂ := h₁.gaveBack h₁.buffer
  refine wp_allocate_capped h₂ fun d u hd hu => ?_
  refine wp_allocate_capped
    { hu with uncompressedDirect := fun l hl => Option.some.inj hl ▸ hd } fun b w hb hw => ?_
  exact { hw with buffer := fun l hl hid => absurd hid (Option.some.inj hl ▸ hb) }

theorem keeps_capped_skipFrame (length : Nat) : Keeps (Capped id n) (skipFrame length) := by
  intro s hs
  simp only [skipFrame, onRbc, wp_bind, wp_zoom, wp_modify]
  refine wp_access_has (fun l hl => ?_) (fun _ => hs)
  refine wp_mono (SnappyFramed.wp_skip_moves (.wrap l.contents) length s.rbc) ?_ (fun _ _ _ => { hs with })
  rintro p r ⟨hp, -⟩
  refine { hs with buffer := fun l' hl' hid => ?_ }
  obtain rfl := Option.some.inj hl'
  exact (Nat.le_of_eq hp).trans (hs.buffer l hl hid)

theorem keeps_capped_readFrame (length : Nat) : Keeps (Capped id n) (readFrame platform length) := by
  refine Keeps.bind Keeps.get fun s₀ => Keeps.bind (Keeps.when (keeps_capped_basedOnSize length)) fun _ => ?_
  intro s hs
  simp only [onRbc, wp_bind, wp_zoom, wp_modify, wp_ite, wp_throw, wp_pure]
  refine wp_access_has (fun l hl => ?_) (fun _ => hs)
  have hused : Capped id n (used s l.id) := { hs with }
  cases (ByteBuffer.wrap l.contents).setLimit length with
  | error e => exact hused
  | ok limited =>
    have hinput : ∀ (r : Source) (xs : Bytes),
        Capped id n { used s l.id with rbc := r, input := some ⟨l.id, xs⟩ } := fun r xs =>
      { hs with input := fun l' hl' => by
                  obtain rfl := Option.some.inj hl'
                  exact hs.input l hl }
    simp only [wp_fromExcept_ok]
    refine wp_mono (wp_true _ _) (fun p r _ => ?_) fun _ r _ => { hused with }
    split
    · exact hinput r _
    · exact keeps_capped_access _ _ (hinput r _)

theorem keeps_capped_copyToBuffer (data : Bytes) : Keeps (Capped id n) (copyToBuffer data) := by
  intro s hs
  simp only [copyToBuffer, wp_bind, wp_ite, wp_throw, wp_modify]
  refine wp_access_has (fun l hl => ?_) (fun _ => hs)
  split
  · exact { hs with }
  · refine { hs with buffer := fun l' hl' hid => ?_ }
    obtain rfl := Option.some.inj hl'
    rw [length_splice (by omega)]
    exact hs.buffer l hl hid

theorem keeps_capped_uncompressFrame (payload : Bytes) :
    Keeps (Capped id n) (uncompressFrame platform payload) := by
  have hdecompress : Keeps (Capped id n) (uncompress platform.codec payload) := by
    intro s hs
    simp only [uncompress, wp_bind, wp_modify, wp_pure]
    refine wp_access_has (fun i _ => wp_access_has (fun l hl => ?_) fun _ => { hs with }) (fun _ => hs)
    have hdirect : ∀ t : SnappyFramedInputStream, t.allocations = s.allocations →
        t.input = s.input → (∀ l', t.uncompressedDirect = some l' → l'.id = l.id) →
        t.buffer = s.buffer → t.returned = s.returned → Capped id n t := by
      intro t hcount hinput hd hbuffer hreturned
      refine ⟨hcount ▸ hs.taken, hinput ▸ hs.input, fun l' hl' => ?_, hbuffer ▸ hs.buffer,
        hreturned ▸ hs.returned⟩
      rw [hd l' hl']
      exact hs.uncompressedDirect l hl
    cases (Snappy.uncompress platform.codec payload l.contents).1 with
    | error e => exact hdirect _ rfl rfl (fun l' hl' => by cases hl'; rfl) rfl rfl
    | ok k => exact hdirect _ rfl rfl (fun l' hl' => by cases hl'; rfl) rfl rfl
  refine Keeps.bind (keeps_capped_access _) fun _ => Keeps.bind (Keeps.fromExcept _) fun _ =>
    Keeps.bind Keeps.get fun _ =>
    Keeps.bind (Keeps.when (keeps_capped_reallocateForBlock _)) fun _ => ?_
  refine Keeps.bind hdecompress fun _ => Keeps.bind (Keeps.update fun _ hs => { hs with }) fun _ => ?_
  exact Keeps.bind (keeps_capped_access _) fun _ => Keeps.bind (keeps_capped_copyToBuffer _) fun _ =>
    Keeps.update fun _ hs => { hs with }

theorem keeps_capped_ensureBuffer : Keeps (Capped id n) (ensureBuffer platform) := by
  have hverify : ∀ checkSum, Keeps (Capped id n) (verifyFrame platform checkSum) := by
    intro checkSum
    refine Keeps.bind Keeps.get fun _ => Keeps.bind ?_ fun _ => Keeps.update fun _ hs => { hs with }
    exact Keeps.when (Keeps.bind (keeps_capped_access _) fun _ => Keeps.when (Keeps.throw _))
  have hload : ∀ flag compressed length,
      Keeps (Capped id n) (loadFrame platform flag compressed length) := by
    intro flag compressed length
    refine Keeps.bind (keeps_capped_readFrame length) fun body =>
      Keeps.bind (Keeps.update fun _ hs => { hs with }) fun _ => ?_
    dsimp only
    split
    · exact Keeps.bind (keeps_capped_uncompressFrame _) fun _ => hverify _
    · refine Keeps.bind ?_ fun _ => hverify _
      exact Keeps.bind (Keeps.update fun _ hs => { hs with }) fun _ =>
        Keeps.bind (keeps_capped_access _) fun _ => keeps_capped_copyToBuffer _
  have hheader : Keeps (Capped id n) readBlockHeader :=
    Keeps.bind (Keeps.update fun _ hs => { hs with }) fun _ =>
      Keeps.bind (keeps_capped_onRbc _) fun _ =>
        Keeps.ite (Keeps.pure _) (Keeps.ite (Keeps.throw _) (Keeps.pure _))
  refine Keeps.bind Keeps.get fun _ => Keeps.loop (fun _ => ?_) _ _
  refine Keeps.bind Keeps.get fun _ => Keeps.ite (Keeps.pure _) (Keeps.ite (Keeps.pure _) ?_)
  refine Keeps.bind hheader fun header => ?_
  cases header with
  | none => exact Keeps.bind (Keeps.update fun _ hs => { hs with }) fun _ => Keeps.pure _
  | some frameHeader =>
    refine Keeps.bind (Keeps.fromExcept _) fun m => Keeps.ite ?_ ?_
    · exact Keeps.bind (keeps_capped_skipFrame _) fun _ => Keeps.pure _
    · exact Keeps.bind (hload _ _ _) fun _ => Keeps.pure _

theorem capped_first {i d b : Lease} (hinput : s.input = some i)
    (hdirect : s.uncompressedDirect = some d) (hbuffer : s.buffer = some b) (hreturned : s.returned = [])
    (hcount : b.id < s.allocations) (hib : i.id ≠ b.id) (hdb : d.id ≠ b.id) :
    Capped b.id b.contents.length s where
  taken := hcount
  input l hl := by
    rw [hinput] at hl
    exact Option.some.inj hl ▸ hib
  uncompressedDirect l hl := by
    rw [hdirect] at hl
    exact Option.some.inj hl ▸ hdb
  buffer l hl _ := by
    rw [hbuffer] at hl
    exact Option.some.inj hl ▸ Nat.le_refl _
  returned l hl := by
    rw [hreturned] at hl
    exact absurd hl List.not_mem_nil

/-- The first buffers: nothing has been given back. -/
theorem wp_basedOnSize_first (hinput : s.input = none) (hdirect : s.uncompressedDirect = none)
    (hbuffer : s.buffer = none) (hreturned : s.returned = []) (size : Nat) :
    wp (allocateBuffersBasedOnSize platform size)
      (fun _ t => ∃ b, t.buffer = some b ∧ Capped b.id b.contents.length t) (fun _ _ => True) s := by
  simp only [allocateBuffersBasedOnSize, wp_bind, wp_modify]
  refine wp_releaseField_gaveBack <| wp_releaseField_gaveBack <| wp_releaseField_gaveBack ?_
  have hgave : ∀ t : SnappyFramedInputStream, t.gaveBack none = t := fun _ => rfl
  rw [hinput, hgave, hdirect, hgave, hbuffer, hgave]
  refine wp_allocate_cases (fun i _ => ?_) (fun _ => trivial)
  refine wp_allocate_cases (fun d _ => ?_) (fun _ => trivial)
  refine wp_allocate_cases (fun b _ => ?_) (fun _ => trivial)
  refine ⟨_, rfl, capped_first rfl rfl rfl hreturned ?_ ?_ ?_⟩
  · simp only
    omega
  · simp only
    omega
  · simp only
    omega

theorem wp_init_capped (rbc : Source) (v : Bool) :
    wp (init platform) (fun _ t => ∃ b, t.buffer = some b ∧ Capped b.id b.contents.length t)
      (fun _ _ => True) (initial rbc v) := by
  rw [init, wp_bind]
  refine wp_mono (wp_basedOnSize_first rfl rfl rfl rfl _) (fun _ t ht => ?_) (fun _ _ _ => trivial)
  obtain ⟨b, hb, hcapped⟩ := ht
  simp only [onRbc, wp_bind, wp_zoom, wp_ite, wp_throw, wp_pure]
  refine wp_mono (wp_true _ _) (fun p r _ => ?_) (fun _ _ _ => trivial)
  split
  · trivial
  split
  · trivial
  exact ⟨b, hb, { hcapped with }⟩

end

/-- A first frame that is larger than the buffers of the constructor: the view is
of an array that has been given back, and too short. -/
theorem larger_frame_not_transferred :
    let f := Frame.ofBlock literalPlatform false (newArray 100000) (newArray 100000)
    f.Fits ∧ f.Good literalPlatform ∧ (f.data literalPlatform.codec).length < 2 ^ 31 ∧
      ∃ s, new literalPlatform ⟨Frame.stream [f], []⟩ true = .ok s ∧
        DeliversToStream literalPlatform (newArray 100000) s ∧
        ¬ DeliversToChannel literalPlatform (newArray 100000) .reliable s := by
  intro f
  have hpool := QuiescentBufferPool.builtIn.reliable
  have hdec : Frame.Decodes literalPlatform.codec false (newArray 100000) (newArray 100000) := rfl
  have hdata : f.data literalPlatform.codec = newArray 100000 := Frame.data_ofBlock hdec
  have hlen : (f.data literalPlatform.codec).length = 100000 := by rw [hdata, length_newArray]
  have hfits : f.Fits := by
    rw [Frame.Fits, Frame.length_body_ofBlock, length_newArray]
    decide
  have hgood : f.Good literalPlatform := by
    refine Frame.good_ofBlock hdec fun h => ?_
    have := congrArg List.length h
    rw [length_newArray, List.length_nil] at this
    omega
  have hshort : (f.data literalPlatform.codec).length < 2 ^ 31 := by omega
  have hall : ∀ g ∈ [f], g = f := fun g hg => List.mem_singleton.mp hg
  obtain ⟨s, hs, ha, hdone⟩ := @new_ahead literalPlatform true ⟨Frame.stream [f], []⟩ hpool (by decide)
    [f] [] (by rw [Frame.stream, List.append_nil]) (fun g hg => hall g hg ▸ ⟨hfits, hgood, hshort⟩)
    (Capacities.roomy_of_builtIn QuiescentBufferPool.builtIn fun g hg => hall g hg ▸ ⟨hfits, hshort⟩)
  have hcontents : undelivered s ++ contents literalPlatform.codec [f] = newArray 100000 := by
    rw [undelivered_eq_nil (Nat.le_of_eq hdone), contents_cons, contents_nil, hdata, List.nil_append,
      List.append_nil]
  refine ⟨hfits, hgood, hshort, s, hs, hcontents ▸ ha.deliversToStream hpool, ?_⟩
  obtain ⟨l, hl, hlength⟩ := ha.room.buffer
  have hbuffer : l.contents.length = 76496 := hlength.trans (length_newArray _)
  rw [← hcontents, ha.deliversToChannel_iff hpool (by decide) hl]
  intro hshows
  have hcapped : Capped l.id 76496 s := by
    have hinit := @wp_init_capped literalPlatform ⟨Frame.stream [f], []⟩ true
    unfold wp at hinit
    unfold new at hs
    cases hrun : (init literalPlatform).run (initial ⟨Frame.stream [f], []⟩ true) with
    | error e t => rw [hrun] at hs; cases hs
    | ok _ t =>
      rw [hrun] at hs hinit
      obtain rfl := Except.ok.inj hs
      obtain ⟨b, hb, hcapped⟩ := hinit
      obtain rfl := Option.some.inj (hb.symm.trans hl)
      exact hbuffer ▸ hcapped
  have hload : wp (ensureBuffer literalPlatform)
      (fun ready t => ready = true ∧ t.position = 0 ∧ undelivered t = newArray 100000)
      (fun _ _ => False) s := by
    simp only [ensureBuffer, wp_bind, wp_get]
    apply wp_ensureLoop hpool ha (Nat.le_of_eq hdone) (Nat.lt_succ_self _)
    · intro t g fs c' hg _ _ _ _ _ hdec _
      obtain rfl := hall g hg
      exact ⟨rfl, hdec.position, hdec.undelivered_eq.trans hdata⟩
    · intro t m hnil _ _ _ _ _
      rw [contents_cons, hdata] at hnil
      have := congrArg List.length hnil
      rw [List.length_append, length_newArray, List.length_nil] at this
      omega
  obtain ⟨ready, t, hrun, ⟨rfl, hpos, hundelivered⟩, ht⟩ := exists_of_wp
    (wp_mono (wp_and hload (keeps_capped_ensureBuffer s hcapped)) (fun _ _ h => h) fun _ _ h => h.1)
  have hprefix :
      undelivered t <+: (t.viewed QuiescentBufferPool l.id).contents.drop t.position :=
    hshows t.unrecorded (.here (comes_of_run hrun))
  have hle := hprefix.length_le
  have hview := @Capped.length_viewed_le l.id 76496 t ht QuiescentBufferPool fun _ hk => hk
  rw [hundelivered, length_newArray, List.length_drop] at hle
  omega

end SnappyFramedInputStream

end SnappyJava
