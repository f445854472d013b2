import SnappyJava.FramedReaderLeases

/-! Every buffer that a `SnappyFramedInputStream` takes from its pool goes back to it,
where any allocation may fail and the fields left behind by a failure are used again. -/

namespace SnappyJava.SnappyFramedInputStream

open Exec Memory Words Leases

/-- The buffers that have not been given back are behind the fields. -/
def Traced (s : SnappyFramedInputStream) : Prop := Accounts s.poolEvents (fieldIds s)

/-- And a closed stream has no fields left. -/
structure Tidy (s : SnappyFramedInputStream) : Prop where
  traced : Traced s
  cleared : s.closed = true → fieldIds s = []

/-- The invariant of a stream that is open. -/
def OpenTraced (s : SnappyFramedInputStream) : Prop := Traced s ∧ s.closed = false

section
variable {platform : Platform} {s t : SnappyFramedInputStream} {kept : List Nat}

theorem OpenTraced.tidy (h : OpenTraced s) : Tidy s :=
  ⟨h.1, fun hclosed => absurd (h.2.symm.trans hclosed) Bool.false_ne_true⟩

@[simp] theorem closed_gaveBack (l : Option Lease) : (s.gaveBack l).closed = s.closed := by
  cases l <;> rfl

@[simp] theorem poolEvents_gaveBack (l : Option Lease) :
    (s.gaveBack l).poolEvents = s.poolEvents ++ (idOf l).map .release := by
  cases l with
  | none => exact (List.append_nil _).symm
  | some l => rfl

theorem mem_fieldIds {id : Nat} :
    id ∈ fieldIds s ↔ id ∈ idOf s.input ∨ id ∈ idOf s.uncompressedDirect ∨ id ∈ idOf s.buffer := by
  simp only [fieldIds, List.mem_append]

@[simp] theorem mem_idOf_some {l : Lease} {id : Nat} : id ∈ idOf (some l) ↔ id = l.id :=
  List.mem_singleton

theorem accounts_gaveBack {l : Option Lease} (h : Accounts s.poolEvents (idOf l ++ kept)) :
    Accounts (s.gaveBack l).poolEvents kept := by
  rw [poolEvents_gaveBack]
  exact h.releaseAll

/-! ## The operations on the buffers -/

theorem keeps_basedOnSize_traced (size : Nat) :
    Keeps OpenTraced (allocateBuffersBasedOnSize platform size) := by
  rintro s ⟨hs, hopen⟩
  simp only [allocateBuffersBasedOnSize, wp_bind, wp_modify]
  refine wp_releaseField_gaveBack <| wp_releaseField_gaveBack <| wp_releaseField_gaveBack ?_
  have h₁ : Accounts (s.gaveBack s.input).poolEvents (idOf s.uncompressedDirect ++ idOf s.buffer) :=
    accounts_gaveBack hs
  have h₂ := accounts_gaveBack (l := (s.gaveBack s.input).uncompressedDirect)
    (by rw [uncompressedDirect_gaveBack]; exact h₁)
  have h₃ := @accounts_gaveBack _ []
    ((s.gaveBack s.input).gaveBack (s.gaveBack s.input).uncompressedDirect).buffer
    (by rw [buffer_gaveBack, buffer_gaveBack, List.append_nil]; exact h₂)
  have hclosed : (((s.gaveBack s.input).gaveBack (s.gaveBack s.input).uncompressedDirect).gaveBack
      ((s.gaveBack s.input).gaveBack (s.gaveBack s.input).uncompressedDirect).buffer).closed = false := by
    rw [closed_gaveBack, closed_gaveBack, closed_gaveBack, hopen]
  generalize ((s.gaveBack s.input).gaveBack _).gaveBack _ = t at h₃ hclosed ⊢
  refine wp_allocate_cases (fun i _ => ?_) fun _ => ⟨h₃.mono (by simp), hclosed⟩
  have h₄ := h₃.acquire t.allocations
  refine wp_allocate_cases (fun d _ => ?_) fun _ => ⟨h₄.mono ?_, hclosed⟩
  · have h₅ := h₄.acquire (t.allocations + 1)
    refine wp_allocate_cases (fun b _ => ?_) fun _ => ⟨h₅.mono ?_, hclosed⟩
    · refine ⟨(h₅.acquire (t.allocations + 1 + 1)).mono ?_, hclosed⟩
      intro id hid
      simp only [List.mem_cons, List.not_mem_nil, or_false] at hid
      simp only [mem_fieldIds, mem_idOf_some]
      tauto
    · intro id hid
      simp only [List.mem_cons, List.not_mem_nil, or_false] at hid
      simp only [mem_fieldIds, mem_idOf_some]
      tauto
  · exact fun id hid => List.mem_append_left _ hid

theorem keeps_reallocateForBlock_traced (uncompressedLength : Nat) :
    Keeps OpenTraced (reallocateForBlock platform uncompressedLength) := by
  rintro s ⟨hs, hopen⟩
  simp only [reallocateForBlock, wp_bind, wp_modify]
  refine wp_releaseField_gaveBack <| wp_releaseField_gaveBack ?_
  have h₁ : Accounts (s.gaveBack s.uncompressedDirect).poolEvents (idOf s.buffer ++ idOf s.input) := by
    refine accounts_gaveBack (hs.mono fun id hid => ?_)
    simp only [mem_fieldIds, List.mem_append] at hid ⊢
    tauto
  have h₂ := @accounts_gaveBack _ (idOf s.input) (s.gaveBack s.uncompressedDirect).buffer
    (by rw [buffer_gaveBack]; exact h₁)
  have hinput : ((s.gaveBack s.uncompressedDirect).gaveBack
      (s.gaveBack s.uncompressedDirect).buffer).input = s.input := by
    rw [input_gaveBack, input_gaveBack]
  have hclosed : ((s.gaveBack s.uncompressedDirect).gaveBack
      (s.gaveBack s.uncompressedDirect).buffer).closed = false := by
    rw [closed_gaveBack, closed_gaveBack, hopen]
  rw [← hinput] at h₂
  generalize (s.gaveBack s.uncompressedDirect).gaveBack _ = t at h₂ hclosed ⊢
  refine wp_allocate_cases (fun d _ => ?_) fun _ => ⟨h₂.mono ?_, hclosed⟩
  · have h₃ := h₂.acquire t.allocations
    refine wp_allocate_cases (fun b _ => ?_) fun _ => ⟨h₃.mono ?_, hclosed⟩
    · refine ⟨(h₃.acquire (t.allocations + 1)).mono fun id hid => ?_, hclosed⟩
      simp only [List.mem_cons] at hid
      simp only [mem_fieldIds, mem_idOf_some]
      tauto
    · intro id hid
      simp only [List.mem_cons] at hid
      simp only [mem_fieldIds, mem_idOf_some]
      tauto
  · exact fun id hid => List.mem_append_left _ hid

theorem Traced.same (h : Traced s) (hst : SameLeases s t) : Traced t := by
  rw [Traced, hst.fieldIds_eq, hst.poolEvents]
  exact h

theorem OpenTraced.used (h : OpenTraced s) (id : Nat) : OpenTraced (s.used id) :=
  ⟨Accounts.use h.1 id, h.2⟩

theorem handling_traced : Handling OpenTraced OpenTraced where
  leaves _ h := h
  same h hst := ⟨h.1.same hst, hst.closed.trans h.2⟩
  use _ h := h.used _

theorem keeps_uncompress_traced (payload : Bytes) :
    Keeps OpenTraced (uncompress platform.codec payload) := by
  refine Keeps.bind handling_traced.accessInput fun _ => ?_
  intro s h
  simp only [wp_bind, wp_modify]
  refine wp_access_has (fun l hl => ?_) (fun _ => h)
  have hdest : s.uncompressedDirect = some l := hl
  have hcalled : ∀ (xs : Bytes) (calls : List UncompressCall), OpenTraced { s.used l.id with
      uncompressedDirect := some ⟨l.id, xs⟩, uncompressCalls := calls } := fun xs calls => by
    refine ⟨?_, h.2⟩
    have hids : fieldIds { s.used l.id with
        uncompressedDirect := some ⟨l.id, xs⟩, uncompressCalls := calls } = fieldIds s := by
      simp only [fieldIds, SnappyFramedInputStream.used, hdest]
      rfl
    rw [Traced, hids]
    exact (h.used l.id).1
  cases (Snappy.uncompress platform.codec payload l.contents).1 with
  | error e => exact hcalled _ _
  | ok n => exact hcalled _ _

theorem keeps_uncompressFrame_traced (payload : Bytes) :
    Keeps OpenTraced (uncompressFrame platform payload) := by
  have h := handling_traced
  have hplace : ∀ s : SnappyFramedInputStream, OpenTraced s →
      ∀ n k, OpenTraced { s with valid := n, position := k } := fun _ hs _ _ => hs
  refine Keeps.bind h.accessInput fun _ => Keeps.bind (Keeps.fromExcept _) fun _ =>
    Keeps.bind Keeps.get fun _ => Keeps.bind (Keeps.when (keeps_reallocateForBlock_traced _)) fun _ => ?_
  refine Keeps.bind (keeps_uncompress_traced payload) fun _ =>
    Keeps.bind (Keeps.update fun s hs => hplace s hs _ s.position) fun _ => ?_
  refine Keeps.bind (h.access fun _ _ hl => .inr (.inl hl)) fun _ =>
    Keeps.bind (h.copyToBuffer _) fun _ => ?_
  exact Keeps.update fun s hs => hplace s hs s.valid _

theorem refilling_traced : Refilling platform OpenTraced OpenTraced :=
  { handling_traced with
    basedOnSize := keeps_basedOnSize_traced
    uncompressFrame := keeps_uncompressFrame_traced }

/-! ## Calls -/

theorem wp_transferToChannel_traced (h : OpenTraced s) (wbc : WritableByteChannel) :
    wp (transferToChannel platform) (fun _ p => OpenTraced p.1) (fun _ p => OpenTraced p.1) (s, wbc) := by
  simp only [transferToChannel, wp_bind, wp_get, wp_ite, wp_throw]
  split
  · exact h
  · cases s.buffer with
    | none => exact h
    | some l =>
      have hkept : Keeps (fun p : SnappyFramedInputStream × WritableByteChannel => OpenTraced p.1)
          (loop .outOfFuel (transferToChannelRound platform l.id)
            (s.rbc.size + wbc.responses.length + 2) 0) := by
        refine Keeps.loop (fun total p hp => ?_) _ _
        -- an array that is used again after it has gone back takes nothing from the pool
        refine refilling_traced.wp_transferToChannelRound hp ?_
        exact wp_mono (wp_true _ _) (fun _ _ _ _ ht => ht.used _) (fun _ _ _ => trivial)
      exact hkept _ h

theorem wp_close_tidy (h : OpenTraced s) (sourceFails : Bool) :
    wp (close sourceFails) (fun _ t => Tidy t ∧ t.closed = true)
      (fun _ t => Tidy t ∧ t.closed = true) s := by
  obtain ⟨hs, hopen⟩ := h
  have hfinally : ∀ {Q : Unit → SnappyFramedInputStream → Prop}
      {E : Throwable → SnappyFramedInputStream → Prop}, (∀ t, Tidy t ∧ t.closed = true → Q () t) → wp (do
      let s ← get
      when (s.closed = false) do
        modify fun s => { s with closed := true }
        releaseField SnappyFramedInputStream.input
        modify fun s => { s with input := none }
        releaseField SnappyFramedInputStream.uncompressedDirect
        modify fun s => { s with uncompressedDirect := none }
        releaseField SnappyFramedInputStream.buffer
        modify fun s => { s with buffer := none } : Method Unit) Q E s := by
    intro Q E hQ
    simp only [wp_bind, wp_get, wp_when, wp_modify, if_pos hopen]
    refine wp_releaseField_gaveBack <| wp_releaseField_gaveBack <| wp_releaseField_gaveBack ?_
    have hall : Accounts s.poolEvents
        (idOf s.input ++ (idOf s.uncompressedDirect ++ (idOf s.buffer ++ []))) := by
      rw [List.append_nil]
      exact hs
    have hreturned := hall.releaseAll.releaseAll.releaseAll
    refine hQ _ ⟨⟨?_, fun _ => by simp [fieldIds, idOf]⟩, by simp⟩
    simpa [Traced, fieldIds, idOf] using hreturned
  simp only [close, wp_ensuring, wp_ite, wp_throw, wp_pure]
  split
  · exact hfinally fun t ht => ht
  · exact hfinally fun t ht => ht

theorem Tidy.same (h : Tidy s) (hst : SameLeases s t) : Tidy t :=
  ⟨h.traced.same hst, fun hclosed => by
    rw [hst.fieldIds_eq]
    exact h.cleared (hst.closed.symm.trans hclosed)⟩

theorem comesToNoBuffer_of_closed (hclosed : s.closed = true) (c : ReadCall) : ComesToNoBuffer c s := by
  cases c with
  | readByte | readBuffer | transferToStream | transferToChannel => exact .inl hclosed
  | read => exact .inr (.inl hclosed)
  | available => trivial
  | close => exact hclosed

theorem Tidy.returned (h : Tidy s) (hclosed : s.closed = true) (id : Nat)
    (hid : Event.acquire id ∈ s.poolEvents) : Event.release id ∈ s.poolEvents := by
  have hout := h.traced id hid
  rw [h.cleared hclosed] at hout
  exact hout.resolve_left List.not_mem_nil

theorem wp_perform_close (h : Tidy s) (sourceFails : Bool) :
    wp (perform platform (.close sourceFails)) (fun _ t => Tidy t ∧ t.closed = true)
      (fun _ t => Tidy t ∧ t.closed = true) s := by
  cases hclosed : s.closed with
  | true =>
    refine wp_mono (wp_perform_noBuffer (comesToNoBuffer_of_closed hclosed _)) ?_ ?_
    · exact fun _ t ht => ⟨h.same ht, ht.closed.trans hclosed⟩
    · exact fun _ t ht => ⟨h.same ht, ht.closed.trans hclosed⟩
  | false =>
    simp only [perform, wp_bind, wp_pure]
    exact wp_close_tidy ⟨h.traced, hclosed⟩ sourceFails

theorem keeps_perform_tidy (c : ReadCall) : Keeps Tidy (perform platform c) := by
  intro s hs
  cases hclosed : s.closed with
  | true =>
    exact wp_mono (wp_perform_noBuffer (comesToNoBuffer_of_closed hclosed c))
      (fun _ t ht => hs.same ht) (fun _ t ht => hs.same ht)
  | false =>
    have hopen : OpenTraced s := ⟨hs.traced, hclosed⟩
    by_cases hchannel : ∃ wbc, c = .transferToChannel wbc
    · obtain ⟨wbc, rfl⟩ := hchannel
      simp only [perform, wp_bind, wp_withLocal, wp_pure]
      refine wp_mono (wp_transferToChannel_traced hopen wbc) ?_ ?_
      · exact fun _ p hp => hp.tidy
      · exact fun _ p hp => hp.tidy
    by_cases hclose : ∃ f, c = .close f
    · obtain ⟨f, rfl⟩ := hclose
      exact wp_mono (wp_perform_close hs f) (fun _ _ ht => ht.1) (fun _ _ ht => ht.1)
    · refine wp_mono (refilling_traced.perform (fun wbc hc => hchannel ⟨wbc, hc⟩)
        (fun f hc => hclose ⟨f, hc⟩) s hopen) ?_ ?_
      · exact fun _ _ ht => ht.tidy
      · exact fun _ _ ht => ht.tidy

/-! ## Runs -/

/-- Nothing has been given back. -/
def NothingReturned (s : SnappyFramedInputStream) : Prop := ∀ id, Event.release id ∉ s.poolEvents

theorem NothingReturned.acquired (h : NothingReturned s) {t : SnappyFramedInputStream} {n : Nat}
    (ht : t.poolEvents = s.poolEvents ++ [.acquire n]) : NothingReturned t := by
  intro id hid
  rw [ht] at hid
  exact h id (by simpa using hid)

/-- Where there are no buffers yet, none goes back. -/
theorem wp_basedOnSize_fresh {size : Nat} (h : NothingReturned s) (hnone : fieldIds s = []) :
    wp (allocateBuffersBasedOnSize platform size) (fun _ => NothingReturned)
      (fun _ => NothingReturned) s := by
  have hgone : ∀ l : Option Lease, idOf l = [] → l = none := fun l hl => by
    cases l with
    | none => rfl
    | some l => cases hl
  simp only [fieldIds, List.append_eq_nil_iff] at hnone
  have hgave : ∀ t : SnappyFramedInputStream, t.gaveBack none = t := fun _ => rfl
  simp only [allocateBuffersBasedOnSize, wp_bind, wp_modify]
  refine wp_releaseField_gaveBack <| wp_releaseField_gaveBack <| wp_releaseField_gaveBack ?_
  rw [hgone _ hnone.1, hgave, hgone _ hnone.2.1, hgave, hgone _ hnone.2.2, hgave]
  refine wp_allocate_cases (fun i _ => ?_) fun _ => h
  have h₁ := @NothingReturned.acquired s h { s with
    poolEvents := s.poolEvents ++ [.acquire s.allocations] } _ rfl
  refine wp_allocate_cases (fun d _ => ?_) fun _ => h₁
  have h₂ := h₁.acquired (t := { s with
    poolEvents := s.poolEvents ++ [.acquire s.allocations] ++ [.acquire (s.allocations + 1)] }) rfl
  refine wp_allocate_cases (fun b _ => ?_) fun _ => h₂
  exact h₂.acquired rfl

theorem wp_init_traced (rbc : Source) (verifyChecksums : Bool) :
    wp (init platform) (fun _ => Tidy) (fun _ s => Traced s ∧ NothingReturned s)
      (initial rbc verifyChecksums) := by
  have hstart : OpenTraced (initial rbc verifyChecksums) := ⟨Accounts.nil, rfl⟩
  have hfresh : NothingReturned (initial rbc verifyChecksums) := fun _ hid => by cases hid
  simp only [init, wp_bind]
  refine wp_mono (wp_and (keeps_basedOnSize_traced (maxBlockSize + 5) _ hstart)
    (wp_basedOnSize_fresh hfresh rfl)) ?_ (fun _ t ht => ⟨ht.1.1, ht.2⟩)
  rintro - t ⟨ht, hnone⟩
  simp only [onRbc, wp_zoom]
  refine wp_mono (wp_true _ _) (fun p r _ => ?_) (fun _ _ _ => ⟨ht.1, hnone⟩)
  simp only [wp_ite, wp_throw, wp_pure]
  split
  · exact ⟨ht.1, hnone⟩
  split
  · exact ⟨ht.1, hnone⟩
  · exact OpenTraced.tidy ht

/-- The buffers that have not been given back are never more than the three behind
the fields, and after `close` there are none, over any input, in every run of calls
and with a pool any allocation of which may fail. A constructor that throws has given
nothing back. -/
theorem openRun_returns (platform : Platform) (rbc : Source) (verifyChecksums : Bool)
    (calls : List ReadCall) :
    wp (init platform)
      (fun _ s =>
        wp (runOn Throwable.Fatal (perform platform) calls) (fun _ => Tidy) (fun _ => Tidy) s ∧
        ∀ sourceFails,
          wp (runOn Throwable.Fatal (perform platform) (calls ++ [.close sourceFails]))
            (fun _ t => ∀ id, Event.acquire id ∈ t.poolEvents → Event.release id ∈ t.poolEvents)
            (fun e _ => e.Fatal) s)
      (fun _ s => Traced s ∧ NothingReturned s) (initial rbc verifyChecksums) := by
  refine wp_mono (wp_init_traced rbc verifyChecksums) (fun _ s hs => ⟨?_, fun f => ?_⟩) (fun _ _ hs => hs)
  · exact Keeps.runOn keeps_perform_tidy calls s hs
  · refine wp_runOn_last keeps_perform_tidy (fun t ht => ?_) hs
    refine wp_mono (wp_perform_close ht f) ?_ ?_
    · exact fun _ u hu => hu.1.returned hu.2
    · exact fun _ u hu _ => hu.1.returned hu.2

end

end SnappyJava.SnappyFramedInputStream
