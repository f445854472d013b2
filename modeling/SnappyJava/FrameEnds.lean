import SnappyJava.FrameSchedules
import SnappyJava.FrameInvariants
import SnappyJava.FrameTimingRuns

/-! Once a `SnappyFramedInputStream` has reported the end, it stays there. -/

namespace SnappyJava.SnappyFramedInputStream

open Exec Memory Reading Words

section
variable {platform : Platform} {s : SnappyFramedInputStream}

/-! ## How the end is found -/

/-- A round of `ensureBuffer` finds nothing only at the end of the channel. -/
theorem wp_ensureBufferRound_false :
    wp (ensureBufferRound platform ())
      (fun r t => r = .inr false → t.eof = true ∧ t.availableNow ≤ 0) (fun _ _ => True) s := by
  simp only [ensureBufferRound, wp_bind, wp_get, wp_ite, wp_pure]
  split
  · simp
  rename_i hdone
  split
  · rename_i heof
    exact fun _ => ⟨heof, by omega⟩
  · have hplace : wp readBlockHeader (fun _ t => t.availableNow = s.availableNow)
        (fun _ t => t.availableNow = s.availableNow) s := by
      have hprogress : OfProgress fun t => t.availableNow = s.availableNow := by
        intro t u hsame ht
        rw [← ht, availableNow, availableNow, hsame.closed, hsame.valid, hsame.position]
      exact hprogress.readBlockHeader s rfl
    refine wp_mono hplace ?_ (fun _ _ _ => trivial)
    rintro header t ht
    cases header with
    | none =>
      have hat : ({ t with eof := true } : SnappyFramedInputStream).availableNow = t.availableNow := rfl
      show _ → _
      exact fun _ => ⟨rfl, by rw [hat]; omega⟩
    | some frameHeader =>
      simp only [wp_bind]
      cases getFrameMetaData frameHeader with
      | error e => trivial
      | ok frameMetaData =>
        simp only [wp_fromExcept_ok, wp_ite, wp_bind, wp_pure]
        split
        · exact wp_mono (wp_true _ _) (fun _ _ _ h => by cases h) (fun _ _ _ => trivial)
        · exact wp_mono (wp_true _ _) (fun _ _ _ h => by cases h) (fun _ _ _ => trivial)

theorem Over.of_ended (heof : s.eof = true) (hdone : s.availableNow ≤ 0) : Over s := by
  cases hclosed : s.closed with
  | true => exact .inl hclosed
  | false =>
    rw [availableNow_eq hclosed] at hdone
    exact .inr ⟨heof, by omega⟩

theorem wp_ensureBuffer_false :
    wp (ensureBuffer platform) (fun ready t => ready = false → Over t) (fun _ _ => True) s := by
  have hloop : ∀ n s, wp (loop .outOfFuel (ensureBufferRound platform) n ())
      (fun ready t => ready = false → Over t) (fun _ _ => True) s := by
    intro n
    induction n with
    | zero => exact fun _ => trivial
    | succ n ih =>
      intro s
      rw [loop, wp_bind]
      refine wp_mono wp_ensureBufferRound_false ?_ (fun _ _ _ => trivial)
      rintro (_ | ready) t ht
      · exact ih t
      · intro hready
        obtain ⟨heof, hdone⟩ := ht (by rw [hready])
        exact Over.of_ended heof hdone
  simp only [ensureBuffer, wp_bind, wp_get]
  exact hloop _ s

/-- A call that reports the end has come to it. -/
theorem wp_perform_ended (call : ReadCall) :
    wp (perform platform call) (fun a t => a.ended = true → Over t) (fun _ _ => True) s := by
  have hlength : ∀ (n : Nat) (t : SnappyFramedInputStream),
      decide ((n : Int) = -1) = true → Over t := fun n t h => by
    have := of_decide_eq_true h
    omega
  cases call with
  | readByte =>
    simp only [perform, readByte, wp_bind, wp_get, wp_ite, wp_pure]
    split
    · rename_i hclosed
      exact fun _ => .inl hclosed
    · refine wp_mono wp_ensureBuffer_false ?_ (fun _ _ _ => trivial)
      rintro (_ | _) t ht
      · exact fun _ => ht rfl
      · simp only [if_true, advance, wp_modify]
        refine wp_mono (wp_true _ _) (fun l u _ => ?_) (fun _ _ _ => trivial)
        split
        · trivial
        · rename_i x _
          have hne : (x.toNat : Int) ≠ -1 := by omega
          show (if (x.toNat : Int) = -1 then (⟨true, [], true, 0⟩ : Answer UInt8)
            else ⟨true, [toByte x.toNat], false, 0⟩).ended = true → _
          rw [if_neg hne]
          exact fun h => by cases h
  | read output offset length =>
    simp only [perform, read, wp_bind, wp_get, wp_ite, wp_throw, wp_pure]
    split
    · trivial
    split
    · trivial
    split
    · exact hlength 0 s
    refine wp_mono wp_ensureBuffer_false ?_ (fun _ _ _ => trivial)
    rintro (_ | _) t ht
    · exact fun _ => ht rfl
    · simp only [if_true]
      split
      · trivial
      · exact wp_mono (wp_true _ _) (fun bytes u _ => hlength _ u) (fun _ _ _ => trivial)
  | readBuffer dst =>
    simp only [perform, readBuffer, wp_bind, wp_get, wp_ite, wp_throw, wp_pure]
    split
    · trivial
    split
    · exact hlength 0 s
    refine wp_mono wp_ensureBuffer_false ?_ (fun _ _ _ => trivial)
    rintro (_ | _) t ht
    · exact fun _ => ht rfl
    · simp only [if_true]
      refine wp_mono (wp_true _ _) (fun bytes u _ => ?_) (fun _ _ _ => trivial)
      exact wp_mono (wp_true _ _) (fun _ v _ => hlength _ v) (fun _ _ _ => trivial)
  | available => exact fun h => by cases h
  | transferToStream os =>
    simp only [perform, wp_bind, wp_pure]
    refine wp_mono (wp_true _ _) (fun _ _ _ => ?_) (fun _ _ _ => trivial)
    exact wp_mono (wp_true _ _) (fun _ _ _ h => by cases h) (fun _ _ _ => trivial)
  | transferToChannel wbc =>
    simp only [perform, wp_bind, wp_pure]
    refine wp_mono (wp_true _ _) (fun _ _ _ => ?_) (fun _ _ _ => trivial)
    exact wp_mono (wp_true _ _) (fun _ _ _ h => by cases h) (fun _ _ _ => trivial)
  | close sourceFails =>
    simp only [perform, wp_bind, wp_pure]
    exact wp_mono (wp_true _ _) (fun _ _ _ h => by cases h) (fun _ _ _ => trivial)

/-! ## What comes behind it -/

/-- What a call does behind the end: it hands out nothing, and if it asks for a byte,
it reports the end once more or that the stream is closed. -/
def Quiet (call : ReadCall) (r : Except Throwable (Answer UInt8)) : Prop :=
  (∀ a, r = .ok a → a.given = []) ∧
    (Demanding call → r = .error .closedChannelException ∨ ∃ a, r = .ok a ∧ a.ended = true)

theorem quiet_of_given_nil {call : ReadCall} {a : Answer UInt8} (hgiven : a.given = [])
    (hended : Demanding call → a.ended = true) : Quiet call (.ok a) :=
  ⟨fun _ ha => by cases ha; exact hgiven, fun hd => .inr ⟨a, rfl, hended hd⟩⟩

theorem quiet_closed (call : ReadCall) : Quiet call (.error .closedChannelException) :=
  ⟨fun _ ha => (by cases ha), fun _ => .inl rfl⟩

theorem quiet_throw {call : ReadCall} (h : ¬ Demanding call) (e : Throwable) :
    Quiet call (.error e) :=
  ⟨fun _ ha => (by cases ha), fun hd => absurd hd h⟩

/-- Behind the end, with what has been delivered by then. -/
def OverAt (d : List Delivery) (s : SnappyFramedInputStream) : Prop := Over s ∧ s.deliveries = d

/-- Nothing more is read there. -/
theorem OverAt.wp_ensureBuffer {d : List Delivery} (h : OverAt d s) (hopen : ¬ s.closed = true)
    {Q : Bool → SnappyFramedInputStream → Prop} {E : Throwable → SnappyFramedInputStream → Prop}
    (hQ : Q false s) : wp (ensureBuffer platform) Q E s := by
  obtain ⟨heof, hdone⟩ := h.1.resolve_left hopen
  exact wp_ensureBuffer_over (by simpa using hopen) heof hdone hQ

/-- Behind the end every call is quiet and stays there. -/
theorem wp_perform_quiet {d : List Delivery} (h : OverAt d s) (call : ReadCall) :
    wp (perform platform call) (fun a t => Quiet call (.ok a) ∧ OverAt d t)
      (fun e t => ¬ e.Fatal ∧ Quiet call (.error e) ∧ OverAt d t) s := by
  cases call with
  | readByte =>
    simp only [perform, readByte, wp_bind, wp_get, wp_ite, wp_pure]
    split
    · exact ⟨quiet_of_given_nil rfl fun _ => rfl, h⟩
    rename_i hopen
    exact h.wp_ensureBuffer hopen ⟨quiet_of_given_nil rfl fun _ => rfl, h⟩
  | read output offset length =>
    simp only [perform, read, wp_bind, wp_get, wp_ite, wp_pure, wp_throw]
    split
    · rename_i hrange
      refine ⟨id, quiet_throw (fun hd => absurd hrange ?_) _, h⟩
      obtain ⟨⟨⟨hoff, hlen, hend, -⟩, hsize⟩, -⟩ := hd
      rw [wrap32_of_range (by omega) (by omega)]
      omega
    split
    · exact ⟨id, quiet_closed _, h⟩
    rename_i hopen
    split
    · rename_i hzero
      exact ⟨quiet_of_given_nil (by simp [slice]) fun hd => absurd hd.2 (by omega), h⟩
    exact h.wp_ensureBuffer hopen ⟨quiet_of_given_nil (by simp [slice]) fun _ => rfl, h⟩
  | readBuffer dst =>
    simp only [perform, readBuffer, wp_bind, wp_get, wp_ite, wp_pure, wp_throw]
    split
    · exact ⟨id, quiet_closed _, h⟩
    rename_i hopen
    split
    · rename_i hfull
      exact ⟨quiet_of_given_nil (by simp [slice]) fun hd => absurd hfull (Nat.pos_iff_ne_zero.mp hd), h⟩
    exact h.wp_ensureBuffer hopen ⟨quiet_of_given_nil (by simp [slice]) fun _ => rfl, h⟩
  | available =>
    simp only [perform, wp_bind, wp_get, wp_pure]
    exact ⟨quiet_of_given_nil rfl False.elim, h⟩
  | transferToStream os =>
    simp only [perform, transferToStream, onStream, wp_bind, wp_withLocal, wp_zoom, wp_get, wp_ite,
      wp_throw]
    split
    · exact ⟨id, quiet_closed _, h⟩
    rename_i hopen
    simp only [loop, transferToStreamRound, onStream, wp_bind, wp_zoom]
    exact h.wp_ensureBuffer hopen ⟨quiet_of_given_nil List.drop_length False.elim, h⟩
  | transferToChannel wbc =>
    simp only [perform, transferToChannel, wp_bind, wp_withLocal, wp_get, wp_ite, wp_throw]
    split
    · exact ⟨id, quiet_closed _, h⟩
    rename_i hopen
    cases s.buffer with
    | none => exact ⟨id, quiet_throw id _, h⟩
    | some l =>
      simp only [loop, transferToChannelRound, onStream, wp_bind, wp_zoom]
      exact h.wp_ensureBuffer hopen ⟨quiet_of_given_nil List.drop_length False.elim, h⟩
  | close sourceFails =>
    simp only [perform, wp_bind, wp_pure]
    have hkeeps : Keeps (fun t => t.deliveries = d) (close sourceFails) :=
      OfProgress.close (fun _ _ hsame ht => by rw [hsame.deliveries, ht]) (fun _ ht => ht) sourceFails
    refine wp_mono (wp_and (@wp_close s sourceFails) (hkeeps s h.2)) ?_ ?_
    · exact fun _ u hu => ⟨quiet_of_given_nil rfl False.elim, .inl hu.1.2.1, hu.2⟩
    · rintro e u ⟨⟨⟨-, rfl⟩, hclosed, -⟩, hd⟩
      exact ⟨id, quiet_throw id _, .inl hclosed, hd⟩

/-- Once a call has reported the end, whatever the state it began in, the bytes and
the pool, nothing is delivered any more: every later call is quiet. -/
theorem end_final (platform : Platform) (s : SnappyFramedInputStream) (call : ReadCall)
    (later : List ReadCall) :
    wp (perform platform call)
      (fun a t => a.ended = true →
        wp (runOn Throwable.Fatal (perform platform) later)
          (fun results u => List.Forall₂ Quiet later results ∧ u.deliveries = t.deliveries)
          (fun _ _ => False) t)
      (fun _ _ => True) s := by
  refine wp_mono (wp_perform_ended call) (fun a t ht hended => ?_) (fun _ _ h => h)
  refine wp_mono (wp_runOn_forall₂ (OverAt t.deliveries) Quiet
    (fun o s hs => wp_perform_quiet hs o) later ⟨ht hended, rfl⟩) ?_ (fun _ _ h => h)
  exact fun results u hu => ⟨hu.1, hu.2.2⟩

end

end SnappyJava.SnappyFramedInputStream
