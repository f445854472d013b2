import SnappyJava.FrameStream

/-! Opening a stream of frames, and draining it with `transferTo(OutputStream)`. -/

namespace SnappyJava.SnappyFramedInputStream

open Exec Memory Words

/-! ## The constructor -/

section
variable {platform : Platform} {v : Bool} {rbc : Source}

/-- The constructor looks at the first ten bytes. -/
theorem wp_init (hpool : platform.bufferPool.Reliable) (hp : rbc.Positive)
    {Q : Unit → SnappyFramedInputStream → Prop} {E : Throwable → SnappyFramedInputStream → Prop}
    (hOk : ∀ t, rbc.data.take 10 = SnappyFramed.headerBytes →
      Poised (.initial platform.bufferPool) v rbc.fragments.length (rbc.data.drop 10) t →
      t.valid = 0 → t.position = 0 → Q () t)
    (hShort : ∀ t, rbc.data.length < 10 →
      E (.eofException "encountered EOF while reading stream header") t)
    (hBad : ∀ t, 10 ≤ rbc.data.length → rbc.data.take 10 ≠ SnappyFramed.headerBytes →
      E (.ioException "invalid stream header") t) :
    wp (init platform) Q E (initial rbc v) := by
  have h10 : SnappyFramed.headerBytes.length = 10 := rfl
  have hrem : (ByteBuffer.wrap (newArray 10)).remaining = 10 := by simp
  simp only [init, onRbc, wp_bind, wp_zoom, wp_ite, wp_throw, wp_pure, h10]
  apply wp_allocateBuffersBasedOnSize hpool (by decide)
  intro t hplace hroom
  apply SnappyFramed.wp_readBytes (by rw [hrem]; decide)
  intro r hr hpr hfr
  have hrbc : t.rbc = rbc := hplace.rbc
  simp only [hrbc, hrem] at hr hpr hfr ⊢
  have hcount : SnappyFramed.readCount (ByteBuffer.wrap (newArray 10)) rbc < (10 : Nat) ↔
      rbc.data.length < 10 := by
    rw [SnappyFramed.readCount, hrem]
    split
    · rename_i hnil
      simp [hnil.1]
    · rw [List.length_take]
      omega
  simp only [hcount]
  split
  · rename_i hlt
    exact hShort _ hlt
  rename_i hge
  have hne : rbc.data ≠ [] := by
    intro h
    rw [h, List.length_nil] at hge
    omega
  have hlen : (rbc.data.take 10).length = 10 := by
    rw [List.length_take]
    omega
  have harray : (SnappyFramed.filled (ByteBuffer.wrap (newArray 10)) rbc.data).array =
      rbc.data.take 10 := by
    simp only [SnappyFramed.filled, if_neg hne, ByteBuffer.limited, ByteBuffer.store, hrem]
    exact splice_full (by simp [ByteBuffer.wrap, hlen])
  rw [harray]
  split
  · rename_i hother
    exact hBad _ (by omega) (Ne.symm hother)
  · rename_i hsame
    refine hOk _ (Eq.symm (by simpa using hsame)) ⟨hr, hpr hp, hfr, ?_, ?_, ?_, { hroom with }⟩ ?_ ?_
    · exact hplace.closed
    · exact hplace.eof
    · exact hplace.verifyChecksums
    · exact hplace.valid
    · exact hplace.position

/-- Behind the stream identifier the frames are ahead. -/
theorem new_ahead (hpool : platform.bufferPool.Reliable) (hp : rbc.Positive) {frames : List Frame}
    {rest : Bytes} (hdata : rbc.data = SnappyFramed.headerBytes ++ (frames.flatMap Frame.encode ++ rest))
    (hacc : ∀ f ∈ frames, Accepted platform f)
    (hroomy : (Capacities.initial platform.bufferPool).Roomy platform frames) :
    ∃ s, new platform rbc v = .ok s ∧
      Ahead platform (.initial platform.bufferPool) v frames rest s ∧ s.valid = s.position := by
  have h10 : SnappyFramed.headerBytes.length = 10 := rfl
  have hrun : wp (init platform) (fun _ s =>
      Ahead platform (.initial platform.bufferPool) v frames rest s ∧ s.valid = s.position)
      (fun _ _ => False) (initial rbc v) := by
    apply wp_init hpool hp
    · intro t _ ht hvalid hpos
      have htail : rbc.data.drop 10 = frames.flatMap Frame.encode ++ rest := by
        rw [hdata, ← h10, List.drop_left]
      rw [htail] at ht
      exact ⟨⟨ht.data_eq, ht.positive, hacc, hroomy, ht.opened, ht.verify, ht.room, by omega,
        by omega, by simp [ht.live]⟩, by omega⟩
    · intro _ hlt
      rw [hdata, List.length_append, h10] at hlt
      omega
    · intro _ _ hne
      exact hne (by rw [hdata, ← h10, List.take_left])
  obtain ⟨_, s, hs, h⟩ := exists_of_wp hrun
  refine ⟨s, ?_, h⟩
  rw [new, hs]

/-- Anything else in the first ten bytes is refused. -/
theorem new_error (hpool : platform.bufferPool.Reliable) (hp : rbc.Positive)
    (hne : rbc.data.take 10 ≠ SnappyFramed.headerBytes) :
    new platform rbc v = .error (if rbc.data.length < 10 then
      .eofException "encountered EOF while reading stream header"
      else .ioException "invalid stream header") := by
  have hrun : wp (init platform) (fun _ _ => False)
      (fun e _ => e = if rbc.data.length < 10 then
        .eofException "encountered EOF while reading stream header"
        else .ioException "invalid stream header") (initial rbc v) := by
    apply wp_init hpool hp
    · exact fun _ hsame _ _ _ => hne hsame
    · exact fun _ hlt => (if_pos hlt).symm
    · exact fun _ hge _ => (if_neg (by omega)).symm
  unfold wp at hrun
  unfold new
  cases hm : (init platform).run (initial rbc v) with
  | ok a s => rw [hm] at hrun; exact hrun.elim
  | error e s => rw [hm] at hrun; exact congrArg Except.error hrun

end

/-! ## `transferTo(OutputStream)` -/

section
variable {platform : Platform} {c : Capacities} {v : Bool} {frames : List Frame}
  {rest : Bytes} {s : SnappyFramedInputStream}

/-- The rest of the decoded frame is handed out whole. -/
theorem Ahead.delivered (h : Ahead platform c v frames rest s) :
    ∃ b, s.buffer = some b ∧ s.position + (s.valid - s.position) ≤ b.contents.length ∧
      slice b.contents s.position (s.valid - s.position) = undelivered s ∧
      ∀ events deliveries, Ahead platform c v frames rest
        { s with position := s.position + (s.valid - s.position), poolEvents := events
                 deliveries := deliveries } := by
  obtain ⟨b, hb, hlen⟩ := h.room.buffer
  have hp := h.position_le
  have hv := h.valid_le
  refine ⟨b, hb, by omega, by simp [undelivered, hb], fun events deliveries => ?_⟩
  exact { h with position_le := by simp only; omega, room := { h.room with } }

/-- `ensureBuffer` has what is left of the decoded frame, or goes on to the next. -/
theorem wp_ensureBuffer_ahead (hpool : platform.bufferPool.Reliable)
    (h : Ahead platform c v frames rest s) {Q : Bool → SnappyFramedInputStream → Prop}
    {E : Throwable → SnappyFramedInputStream → Prop}
    (hReady : ∀ t c' fs, Ahead platform c' v fs rest t →
      c'.after platform fs = c.after platform frames →
      undelivered t ++ contents platform.codec fs =
        undelivered s ++ contents platform.codec frames →
      t.position < c'.buffer →
      t.rbc.size < s.rbc.size + (if s.position < s.valid then 1 else 0) → Q true t)
    (hRest : ∀ t m, undelivered s ++ contents platform.codec frames = [] →
      Ahead platform (c.after platform frames) v [] rest t → t.valid ≤ t.position → t.rbc.size < m →
      wp (loop .outOfFuel (ensureBufferRound platform) m ()) Q E t) :
    wp (ensureBuffer platform) Q E s := by
  simp only [ensureBuffer, wp_bind, wp_get]
  by_cases hmore : s.position < s.valid
  · simp only [loop, ensureBufferRound, wp_bind, wp_get, wp_ite, wp_pure, availableNow_eq h.opened]
    rw [if_pos (by omega)]
    exact hReady s c frames h rfl rfl (Nat.lt_of_lt_of_le hmore h.valid_le) (by rw [if_pos hmore]; omega)
  have hnil := undelivered_eq_nil (Nat.le_of_not_lt hmore)
  rw [hnil, List.nil_append] at hReady hRest
  apply wp_ensureLoop hpool h (by omega) (Nat.lt_succ_self _)
  · intro t f fs c' _ _ hcont hc' _ ht hdec hlt
    refine hReady t c' fs ht hc' ?_ ?_ (by omega)
    · rw [hdec.undelivered_eq, hcont]
    · rw [hdec.position]
      exact ht.room.buffer_pos
  · exact fun t m hcont ht hvalid hpos _ hm => hRest t m hcont ht (by omega) hm

/-- The data of the frames ahead goes to the stream; what comes of the rest is
decided by the `ensureBuffer` that meets it. -/
theorem wp_transferToStream (hpool : platform.bufferPool.Reliable) {os : OutputStream}
    (hos : os.failures = []) (h : Ahead platform c v frames rest s)
    {Q : Nat → SnappyFramedInputStream × OutputStream → Prop}
    {E : Throwable → SnappyFramedInputStream × OutputStream → Prop}
    (hRest : ∀ t m (o : OutputStream), Ahead platform (c.after platform frames) v [] rest t →
      t.valid ≤ t.position → t.rbc.size < m →
      o.received = os.received ++ (undelivered s ++ contents platform.codec frames) →
      wp (loop .outOfFuel (ensureBufferRound platform) m ())
        (fun ready u => ready = false ∧
          Q (undelivered s ++ contents platform.codec frames).length (u, o))
        (fun e u => E e (u, o)) t) :
    wp (transferToStream platform) Q E (s, os) := by
  simp only [transferToStream, onStream, wp_bind, wp_zoom, wp_get, wp_ite, h.opened,
    Bool.false_eq_true, if_false]
  refine wp_loop
    (fun (n : Nat) (p : SnappyFramedInputStream × OutputStream) => ∃ (c' : Capacities)
      (fs : List Frame) (xs : Bytes), Ahead platform c' v fs rest p.1 ∧
      c'.after platform fs = c.after platform frames ∧ p.2.failures = [] ∧
      p.2.received = os.received ++ xs ∧ n = xs.length ∧
      xs ++ (undelivered p.1 ++ contents platform.codec fs) =
        undelivered s ++ contents platform.codec frames)
    (fun _ p => p.1.rbc.size + if p.1.position < p.1.valid then 1 else 0)
    ?_ ⟨c, frames, [], h, rfl, hos, by simp, rfl, rfl⟩ (by dsimp only; split <;> omega)
  rintro n ⟨t, o⟩ ⟨c', fs, xs, ht, hc', hof, hor, rfl, hall⟩
  dsimp only at ht hof hor hall ⊢
  simp only [transferToStreamRound, onStream, wp_bind, wp_zoom, wp_get, wp_ite]
  apply wp_ensureBuffer_ahead hpool ht
  · intro u d gs hu hd hund _ hlt
    obtain ⟨b, hb, hfit, hsl, hrest⟩ := hu.delivered
    have hav : u.availableNow.toNat = u.valid - u.position := by
      rw [availableNow_eq hu.opened]
      omega
    have hlen := hu.length_undelivered
    simp only [if_true, hav]
    apply wp_access hb
    intro events
    rw [if_neg (by omega)]
    simp only [hsl]
    apply OutputStream.wp_write
    · intro fl hfl
      simp only [deliver, advance, wp_modify, wp_pure, Sum.elim_inl]
      refine ⟨⟨d, gs, xs ++ undelivered u, hrest _ _, hd.trans hc', hfl hof, ?_, ?_, ?_⟩, ?_⟩
      · rw [hor, List.append_assoc]
      · rw [List.length_append, hlen]
      · have hdone : undelivered { u with
            position := u.position + (u.valid - u.position), poolEvents := events
            deliveries := u.deliveries ++ [⟨undelivered u, u.position, u.frames.getLast?⟩] } = [] :=
          undelivered_eq_nil (by simp only; omega)
        rw [hdone, List.nil_append, ← hall, ← hund, List.append_assoc]
      · rw [if_neg (by omega)]
        exact hlt
    · intro fl hfl
      exact absurd hof hfl
  · intro u m hnil hu hdone hm
    rw [hnil, List.append_nil] at hall
    subst hall
    rw [hc'] at hu
    refine wp_mono (hRest u m o hu hdone hm hor) ?_ (fun _ _ h => h)
    rintro ready w ⟨rfl, hq⟩
    simp only [Bool.false_eq_true, if_false, wp_pure, Sum.elim_inr]
    exact hq

/-- A frame that is refused, or whose data does not fit, ends `ensureBuffer`. -/
theorem wp_ensureLoop_stop (hpool : platform.bufferPool.Reliable) {f : Frame} {more : Bytes}
    (hf : f.Fits) (h : Ahead platform c v [] (f.encode ++ more) s) (hdone : s.valid ≤ s.position)
    (hstop : (¬ f.Good platform ∧ v = true) ∨
      (c.next platform f).buffer < (f.data platform.codec).length) {m : Nat} (hm : 0 < m)
    {Q : Bool → SnappyFramedInputStream → Prop} {E : Throwable → SnappyFramedInputStream → Prop}
    (hOver : ∀ t, (c.next platform f).buffer < (f.data platform.codec).length →
      E .indexOutOfBoundsException t)
    (hFault : ∀ t n, f.flag = SnappyFramed.compressedDataFlag →
      platform.codec.getUncompressedLength f.payload = some n → 2 ^ 31 ≤ n →
      E (.memoryFault .rawUncompress) t)
    (hBad : ∀ t m, ¬ f.Good platform → E (.ioException m) t) :
    wp (loop .outOfFuel (ensureBufferRound platform) m ()) Q E s := by
  obtain ⟨k, rfl⟩ : ∃ k, m = k + 1 := ⟨m - 1, by omega⟩
  have heof : s.eof = false := by
    cases heof : s.eof with
    | false => rfl
    | true =>
      have := congrArg List.length (h.finished heof).2
      rw [List.length_append, Frame.encode, List.length_append, Frame.length_header,
        List.length_nil] at this
      omega
  have hpoised := h.poised heof
  rw [List.flatMap_nil, List.nil_append] at hpoised
  rw [loop, wp_bind]
  apply wp_ensureBufferRound hpool hf hpoised hdone
  · intro t hgood hskip _ _ _
    rcases hstop with ⟨hbad, -⟩ | hover
    · exact absurd hgood hbad
    · rw [data_eq_nil hskip] at hover
      simp at hover
  · intro t hgood _ hfit _ _
    rcases hstop with ⟨hbad, hv⟩ | hover
    · rcases hgood with hgood | hv'
      · exact absurd hgood hbad
      · rw [hv] at hv'
        cases hv'
    · omega
  · exact hOver
  · exact hFault
  · exact hBad

end

/-! ## Draining -/

/-- Open the stream and transfer it to a stream that takes everything: how that
ended, and what had been transferred. -/
def drain (platform : Platform) (rbc : Source) (verifyChecksums : Bool) :
    Except Throwable Nat × Bytes :=
  match new platform rbc verifyChecksums with
  | .error e => (.error e, [])
  | .ok s =>
    match (transferToStream platform).run (s, .reliable) with
    | .ok n u => (.ok n, u.2.received)
    | .error e u => (.error e, u.2.received)

section
variable {platform : Platform} {v : Bool} {frames : List Frame} {rest : Bytes} {rbc : Source}

theorem drain_of_error {e : Throwable} (h : new platform rbc v = .error e) :
    drain platform rbc v = (.error e, []) := by
  rw [drain, h]

/-- The frames in front are drained; the rest decides how that ends. -/
theorem drain_frames (hpool : platform.bufferPool.Reliable) (hp : rbc.Positive)
    (hdata : rbc.data = SnappyFramed.headerBytes ++ (frames.flatMap Frame.encode ++ rest))
    (hacc : ∀ f ∈ frames, Accepted platform f)
    (hroomy : (Capacities.initial platform.bufferPool).Roomy platform frames)
    {P : Except Throwable Nat × Bytes → Prop}
    (hRest : ∀ t m, Ahead platform ((Capacities.initial platform.bufferPool).after platform frames) v
        [] rest t → t.valid ≤ t.position → t.rbc.size < m →
      wp (loop .outOfFuel (ensureBufferRound platform) m ())
        (fun ready _ => ready = false ∧ P (.ok (contents platform.codec frames).length,
          contents platform.codec frames))
        (fun e _ => P (.error e, contents platform.codec frames)) t) :
    P (drain platform rbc v) := by
  obtain ⟨s, hs, ha, hdone⟩ := @new_ahead platform v rbc hpool hp frames rest hdata hacc hroomy
  have hrun : wp (transferToStream platform) (fun n u => P (.ok n, u.2.received))
      (fun e u => P (.error e, u.2.received)) (s, .reliable) := by
    apply wp_transferToStream hpool rfl ha
    rw [undelivered_eq_nil (Nat.le_of_eq hdone), List.nil_append]
    intro t m o ht hdonet hm ho
    have ho' : o.received = contents platform.codec frames := ho
    refine wp_mono (hRest t m ht hdonet hm) ?_ ?_
    · rintro ready u ⟨hready, hq⟩
      exact ⟨hready, ho' ▸ hq⟩
    · intro e u he
      exact ho' ▸ he
  unfold wp at hrun
  rw [drain, hs]
  dsimp only
  cases hm : (transferToStream platform).run (s, .reliable) with
  | ok n u => rw [hm] at hrun; exact hrun
  | error e u => rw [hm] at hrun; exact hrun

/-- A stream of frames that are accepted and fit is drained whole. -/
theorem drain_of_roomy (hpool : platform.bufferPool.Reliable) (hp : rbc.Positive)
    (hdata : rbc.data = SnappyFramed.headerBytes ++ frames.flatMap Frame.encode)
    (hacc : ∀ f ∈ frames, Accepted platform f)
    (hroomy : (Capacities.initial platform.bufferPool).Roomy platform frames) :
    drain platform rbc v =
      (.ok (contents platform.codec frames).length, contents platform.codec frames) := by
  refine @drain_frames platform v frames [] rbc hpool hp (by rw [hdata, List.append_nil]) hacc hroomy
    (fun r => r = _) ?_
  intro t m ht hdone hm
  exact wp_ensureLoop_end ht hdone (by omega) fun _ _ _ _ => ⟨rfl, rfl⟩

/-- At a frame that is refused, or whose data does not fit, draining ends. -/
theorem drain_stop (hpool : platform.bufferPool.Reliable) (hp : rbc.Positive) {f : Frame}
    {more : List Frame}
    (hdata : rbc.data = SnappyFramed.headerBytes ++ (frames ++ f :: more).flatMap Frame.encode)
    (hacc : ∀ g ∈ frames, Accepted platform g)
    (hroomy : (Capacities.initial platform.bufferPool).Roomy platform frames) (hf : f.Fits)
    (hshort : f.flag = SnappyFramed.compressedDataFlag → ∀ n,
      platform.codec.getUncompressedLength f.payload = some n → n < 2 ^ 31)
    (hstop : (¬ f.Good platform ∧ v = true) ∨
      (((Capacities.initial platform.bufferPool).after platform frames).next platform f).buffer <
        (f.data platform.codec).length) :
    ∃ e, drain platform rbc v = (.error e, contents platform.codec frames) ∧
      ((e = .indexOutOfBoundsException ∧
        (((Capacities.initial platform.bufferPool).after platform frames).next platform f).buffer <
          (f.data platform.codec).length) ∨ (∃ m, e = .ioException m) ∧ ¬ f.Good platform) := by
  refine @drain_frames platform v frames (f.encode ++ more.flatMap Frame.encode) rbc hpool hp ?_ hacc
    hroomy (fun r => ∃ e, r = (.error e, contents platform.codec frames) ∧
      ((e = .indexOutOfBoundsException ∧
        (((Capacities.initial platform.bufferPool).after platform frames).next platform f).buffer <
          (f.data platform.codec).length) ∨ (∃ m, e = .ioException m) ∧ ¬ f.Good platform)) ?_
  · rw [hdata, List.flatMap_append, List.flatMap_cons]
  · intro t m ht hdone hm
    apply wp_ensureLoop_stop hpool hf ht hdone hstop (by omega)
    · exact fun _ hover => ⟨_, rfl, .inl ⟨rfl, hover⟩⟩
    · intro _ n hflag hn hlong
      have := hshort hflag n hn
      omega
    · exact fun _ msg hbad => ⟨_, rfl, .inr ⟨⟨msg, rfl⟩, hbad⟩⟩

end

end SnappyJava.SnappyFramedInputStream
