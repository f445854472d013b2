import SnappyJava.FramedWriterRuns

/-! A `SnappyFramedOutputStream` over a channel that fails: what every call
keeps, and what a flush that failed has left for the next one. -/

namespace SnappyJava.SnappyFramedOutputStream

open Exec Memory Words Blocks

section
variable {w : FrameWriter} {b n : Nat} {s : SnappyFramedOutputStream}

/-! ## Every call leaves the stream open -/

/-- An open stream whose buffers are still its own, and whose channel has been
closed `n` times. -/
structure Unclosed (b n : Nat) (s : SnappyFramedOutputStream) : Prop extends Open b s where
  released_eq : s.released = []
  closeCalls_eq : s.out.closeCalls = n

theorem unclosed_of_new (hpool : w.bufferPool.Contract) {out : WritableByteChannel} {blockSize : Int}
    (hnew : new w out blockSize = .ok s) : Unclosed blockSize.toNat out.closeCalls s :=
  ⟨(ready_of_new hpool hnew).toOpen, (out_of_new hnew).2, congrArg (·.closeCalls) (out_of_new hnew).1⟩

theorem Unclosed.store (h : Unclosed b n s) {xs : Bytes} (hle : xs.length ≤ s.buffer.remaining)
    (taken : Bytes) : Unclosed b n { s with buffer := s.buffer.store xs hle, taken := taken } :=
  ⟨h.toOpen.store hle taken, h.released_eq, h.closeCalls_eq⟩

/-- The only failure of a flush is that of the channel. -/
theorem wp_flushBuffer_unclosed (hc : w.codec.Bounded) (hs : Unclosed b n s)
    (hpos : 0 < s.buffer.position) {Q : Unit → SnappyFramedOutputStream → Prop}
    {E : Throwable → SnappyFramedOutputStream → Prop}
    (hQ : ∀ t, Unclosed b n t → t.buffer.remaining = b →
      s.out.fails = false → (s.out.after (w.header (pending s))).fails = false → Q () t)
    (hE : ∀ t, Unclosed b n t →
      s.out.fails = true ∨ (s.out.after (w.header (pending s))).fails = true →
      E .underlyingException t) :
    wp (flushBuffer w) Q E s := by
  have hrel := hs.released_eq
  have hcalls := hs.closeCalls_eq
  apply wp_flushBuffer hc hs.toOpen hpos rfl
  · intro t ht hp hl _ hr hf hf' hout
    have hroom : t.buffer.remaining = b := by rw [ByteBuffer.remaining, hp, hl, Nat.sub_zero]
    exact hQ t ⟨ht, hr.trans hrel, hout ▸ hcalls⟩ hroom hf hf'
  · exact fun t ht hf hout =>
      hE t ⟨ht.toOpen, ht.released_eq.trans hrel, hout ▸ hcalls⟩ (.inl hf)
  · exact fun t ht _ hf' hout =>
      hE t ⟨ht.toOpen, ht.released_eq.trans hrel, hout ▸ hcalls⟩ (.inr hf')

theorem keeps_flushBuffer (hc : w.codec.Bounded) : Keeps (Unclosed b n) (flushBuffer w) := by
  intro s hs
  by_cases hpos : 0 < s.buffer.position
  · apply wp_flushBuffer_unclosed hc hs hpos
    · exact fun _ ht _ _ _ => ht
    · exact fun _ ht _ => ht
  · simp only [flushBuffer, wp_bind, wp_get, wp_when, if_neg hpos]
    exact hs

/-- After `makeRoom` there is room, or an exception. -/
theorem wp_makeRoom_open (hc : w.codec.Bounded) (hs : Unclosed b n s) :
    wp (makeRoom w) (fun _ t => Unclosed b n t ∧ 0 < t.buffer.remaining)
      (fun _ t => Unclosed b n t) s := by
  have hle := s.buffer.position_le
  have hpos := hs.limit_pos
  simp only [makeRoom, wp_bind, wp_get, wp_when]
  split
  · rename_i hfull
    unfold ByteBuffer.remaining at hfull
    apply wp_flushBuffer_unclosed hc hs (by omega)
    · exact fun t ht hroom _ _ => ⟨ht, hroom ▸ hs.pos⟩
    · exact fun _ ht _ => ht
  · exact ⟨hs, by omega⟩

theorem keeps_makeRoom (hc : w.codec.Bounded) : Keeps (Unclosed b n) (makeRoom w) := fun _ hs =>
  wp_mono (wp_makeRoom_open hc hs) (fun _ _ h => h.1) (fun _ _ h => h)

theorem keeps_put (xs : Bytes) : Keeps (Unclosed b n) (put xs) := by
  intro s hs
  simp only [put, wp_bind, wp_get]
  by_cases hle : xs.length ≤ s.buffer.remaining
  · rw [ByteBuffer.put, dif_pos hle]
    exact hs.store hle _
  · rw [ByteBuffer.put, dif_neg hle]
    exact hs

theorem keeps_onStream {α β : Type} {m : Method α} (h : Keeps (Unclosed b n) m) :
    Keeps (fun p : SnappyFramedOutputStream × β => Unclosed b n p.1) (onStream m) := by
  intro p hp
  rw [onStream, wp_zoom]
  exact h p.1 hp

theorem keeps_putSource :
    Keeps (fun p : SnappyFramedOutputStream × ByteBuffer => Unclosed b n p.1) putSource :=
  Keeps.bind Keeps.get fun p => Keeps.bind (keeps_onStream (keeps_put p.2.content)) fun _ =>
    Keeps.update fun _ h => h

theorem keeps_fillRound (hc : w.codec.Bounded) (srcEnd : Nat) (u : Unit) :
    Keeps (fun p : SnappyFramedOutputStream × ByteBuffer => Unclosed b n p.1)
      (fillRound w srcEnd u) := by
  intro p hp
  unfold fillRound
  rw [wp_bind, wp_get]
  dsimp only
  generalize wrap32 ((p.2.position : Int) + p.1.buffer.remaining) = newLimit
  rw [wp_ite]
  dsimp only
  split
  · rw [wp_bind]
    cases p.2.setLimit newLimit with
    | error e => exact hp
    | ok limited =>
      exact Keeps.bind keeps_putSource (fun _ =>
        Keeps.bind (keeps_onStream (keeps_flushBuffer hc)) fun _ => Keeps.pure _) (p.1, limited) hp
  · exact hp

theorem keeps_writeBuffer (hc : w.codec.Bounded) :
    Keeps (fun p : SnappyFramedOutputStream × ByteBuffer => Unclosed b n p.1) (writeBuffer w) := by
  refine Keeps.bind Keeps.get fun p => Keeps.ite (Keeps.throw _) ?_
  refine Keeps.bind (keeps_onStream (keeps_makeRoom hc)) fun _ => Keeps.bind Keeps.get fun q => ?_
  refine Keeps.ite (Keeps.bind keeps_putSource fun _ => Keeps.pure _) ?_
  refine Keeps.bind (Keeps.loop (keeps_fillRound hc _) _ _) fun _ => Keeps.bind_get ?_
  intro r hr
  rw [wp_bind]
  cases r.2.setLimit ((q.2.position + q.2.remaining : Nat) : Int) with
  | error e => exact hr
  | ok reset => exact Keeps.bind keeps_putSource (fun _ => Keeps.pure _) (r.1, reset) hr

theorem keeps_transferFromBy (hc : w.codec.Bounded)
    {read : ByteBuffer → EStateM Throwable Source (Option Nat × ByteBuffer)}
    (hread : ReadsInto read) :
    Keeps (fun p : SnappyFramedOutputStream × Source => Unclosed b n p.1) (transferFromBy w read) := by
  rintro ⟨s, source⟩ hs
  dsimp only at hs
  simp only [transferFromBy, onStream, wp_bind, wp_get, wp_ite, wp_throw, hs.notClosed,
    Bool.false_eq_true, if_false, wp_zoom]
  refine wp_mono (wp_makeRoom_open hc hs) ?_ (fun _ _ h => h)
  rintro - s₁ ⟨h₁, hroom⟩
  refine wp_loop (fun (_ : Nat) p => Unclosed b n p.1 ∧ 0 < p.1.buffer.remaining) (fun _ p => p.2.size)
    ?_ ⟨h₁, hroom⟩ (Nat.lt_succ_self _)
  rintro total ⟨t, rest⟩ ⟨ht, hroom⟩
  dsimp only at ht hroom
  simp only [transferRound, wp_bind, wp_get, wp_zoom]
  apply hread t.buffer rest _ _ hroom
  · exact fun _ _ _ => ht
  · intro ys rest' hle _ hsize
    simp only [wp_bind, wp_modify, onStream, wp_zoom, wp_pure, Sum.elim_inl]
    refine wp_mono (wp_makeRoom_open hc (ht.store hle _)) ?_ (fun _ _ h => h)
    rintro - u hu
    exact ⟨hu, hsize⟩

theorem keeps_withCaller {α β : Type} {x : β} {f : α → β → WriteResult}
    {m : EStateM Throwable (SnappyFramedOutputStream × β) α}
    (h : Keeps (fun p : SnappyFramedOutputStream × β => Unclosed b n p.1) m) :
    Keeps (Unclosed b n) (withCaller x f m) := by
  intro s hs
  simp only [withCaller, wp_bind, wp_withLocal]
  exact h (s, x) hs

/-- Whatever the arguments are and however the channel fails. -/
theorem keeps_perform (hc : w.codec.Bounded) (c : WriteCall) : Keeps (Unclosed b n) (perform w c) := by
  cases c with
  | writeByte x =>
    exact Keeps.bind (Keeps.bind Keeps.get fun _ => Keeps.ite (Keeps.throw _)
      (Keeps.bind (keeps_makeRoom hc) fun _ => keeps_put _)) fun _ => Keeps.pure _
  | write input offset length =>
    refine Keeps.bind (Keeps.bind Keeps.get fun _ => Keeps.ite (Keeps.throw _)
      (Keeps.ite (Keeps.throw _) (Keeps.loop ?_ _ _))) fun _ => Keeps.pure _
    exact fun p => Keeps.ite (Keeps.bind (keeps_makeRoom hc) fun _ => Keeps.bind Keeps.get fun _ =>
      Keeps.ite (Keeps.throw _) (Keeps.bind (keeps_put _) fun _ => Keeps.pure _)) (Keeps.pure _)
  | writeBuffer src => exact keeps_withCaller (keeps_writeBuffer hc)
  | transferFromStream source =>
    exact keeps_withCaller (keeps_transferFromBy hc readsInto_readArray)
  | transferFromChannel source =>
    exact keeps_withCaller (keeps_transferFromBy hc readsInto_readChannel)
  | flush =>
    exact Keeps.bind (Keeps.bind Keeps.get fun _ => Keeps.ite (Keeps.throw _)
      (keeps_flushBuffer hc)) fun _ => Keeps.pure _

/-- In every state that any calls reach, whatever they were given and however
the channel failed. -/
theorem unclosed_of_run (hc : w.codec.Bounded) (hpool : w.bufferPool.Contract)
    {out : WritableByteChannel} {blockSize : Int} (hnew : new w out blockSize = .ok s)
    (calls : List WriteCall) :
    wp (runOn Throwable.Fatal (perform w) calls)
      (fun _ t => Unclosed blockSize.toNat out.closeCalls t)
      (fun _ t => Unclosed blockSize.toNat out.closeCalls t) s :=
  Keeps.runOn (keeps_perform hc) calls s (unclosed_of_new hpool hnew)

/-! ## What a failed flush leaves -/

/-- The frame of a shorter block is another than that of a raw one. -/
theorem encode_frame_ne {x y : Bytes} (hraw : w.chosen x = false) (hlt : y.length < x.length) :
    (w.frame y).encode ≠ (w.frame x).encode := by
  intro h
  rw [FrameWriter.encode_frame, FrameWriter.encode_frame] at h
  cases hy : w.chosen y with
  | true =>
    have hflags : SnappyFramed.compressedDataFlag ≠ SnappyFramed.uncompressedDataFlag := by decide
    have hhead := congrArg List.head? h
    simp only [FrameWriter.header, frameHeader, hraw, hy, List.cons_append, List.head?_cons,
      if_true, Bool.false_eq_true, if_false, Option.some.injEq] at hhead
    exact hflags hhead
  | false =>
    have hlen := congrArg List.length h
    simp only [List.length_append, FrameWriter.length_header, FrameWriter.payload, hraw, hy,
      Bool.false_eq_true, if_false] at hlen
    omega

/-- The stream over its channel as one that works from here on. -/
def restored (t : SnappyFramedOutputStream) : SnappyFramedOutputStream :=
  { t with out := { t.out with responses := [], closeFails := false } }

/-- The block `x` is still what a flush sends first: whatever is written before
it, the next flush or close sends a frame that decodes to `x`, and then the data
of the calls. -/
def Survives (w : FrameWriter) (x : Bytes) (t : SnappyFramedOutputStream) : Prop :=
  (w.frame x).data w.codec = x ∧
  ∀ calls : List WriteCall, (∀ c ∈ calls, c.Sized ∧ c.InRange) →
    wp (runFlush w calls)
      (fun _ u => u.out.received = t.out.received ++
        (x :: blocksOf t.blockSize calls).flatMap fun y => (w.frame y).encode)
      (fun _ _ => ¬ AllFit t.blockSize [] calls) (restored t) ∧
    wp (runClose w calls)
      (fun _ u => u.out.received = t.out.received ++
        (x :: blocksOf t.blockSize calls).flatMap fun y => (w.frame y).encode)
      (fun _ _ => ¬ AllFit t.blockSize [] calls) (restored t)

/-- The block is written in its compressed form, or the channel takes all of it
before it throws. -/
def Preserved (w : FrameWriter) (s : SnappyFramedOutputStream) : Prop :=
  w.chosen (pending s) = true ∨
    (s.out.fails = false ∧ ((s.out.after (w.header (pending s))).accepted (pending s)).length =
      (pending s).length)

/-- With the position at the end of the data, the block is sealed. -/
theorem Failed.survives (hc : w.codec.Lawful) (h : Open b s) (hpos : 0 < s.buffer.position)
    {t : SnappyFramedOutputStream} (ht : Failed b s s.buffer.position t) :
    Survives w (pending s) t := by
  have hle := h.limit_le
  have hple := s.buffer.position_le
  have hmax := h.le_max
  have hM : maxBlockSize = 65536 := rfl
  have hlen := length_pending s
  have hpending : pending t = pending s := by rw [pending, ht.array_eq, ht.position_eq, pending]
  have hsealed : Writing w b (restored t).out [pending s] [] (restored t) := by
    refine .inr ⟨{ ht.toOpen with }, ht.limit_eq.trans ht.position_eq.symm,
      hpos.trans_eq ht.position_eq.symm, rfl, [], ?_, WritableByteChannel.Sent.nil _⟩
    exact congrArg (fun x => [x]) hpending.symm
  have hreceived : ∀ {calls : List WriteCall} {out : WritableByteChannel},
      (restored t).out.Sent (([pending s] ++ blocksOf b calls).flatMap w.pieces) out →
      out.received = t.out.received ++
        (pending s :: blocksOf t.blockSize calls).flatMap fun y => (w.frame y).encode := by
    intro calls out hout
    rw [hout.received_eq, show (restored t).out.responses = [] from rfl,
      WritableByteChannel.deliver_nil_left, flatten_flatMap_pieces, ht.blockSize_eq]
    rfl
  refine ⟨w.data_frame hc (by omega), fun calls hcalls => ⟨?_, ?_⟩⟩
  · refine wp_mono (wp_runFlush hcalls hc.toBounded (fun _ hr => absurd hr List.not_mem_nil) hsealed)
      (fun _ _ hu => hreceived hu.2.2) ?_
    rw [ht.blockSize_eq]
    exact fun _ _ h => h
  · refine wp_mono (wp_runClose hcalls hc.toBounded (fun _ hr => absurd hr List.not_mem_nil) hsealed)
      (fun _ _ hu => hreceived hu.2.2) ?_
    rw [ht.blockSize_eq]
    exact fun _ _ h hall => Bool.noConfusion (h hall)

/-- With the position before the end, a flush at once loses the end of the block. -/
theorem Failed.not_survives (hc : w.codec.Bounded) {k : Nat} (hk : k < s.buffer.position)
    (hraw : w.chosen (pending s) = false) {t : SnappyFramedOutputStream} (ht : Failed b s k t) :
    ¬ Survives w (pending s) t := by
  have hlen := length_pending s
  have hopen : Open b (restored t) := { ht.toOpen with }
  have hpending : pending (restored t) = (pending s).take k := by
    have hdef : pending (restored t) = t.buffer.array.take t.buffer.position := rfl
    rw [hdef, ht.array_eq, ht.position_eq, pending, List.take_take, Nat.min_eq_left hk.le]
  have hsent : ∃ sent, sent ≠ (w.frame (pending s)).encode ∧
      wp (flush w) (fun _ u => u.out.received = t.out.received ++ sent) (fun _ _ => False)
        (restored t) := by
    have hposition : (restored t).buffer.position = k := ht.position_eq
    simp only [flush, wp_bind, wp_get, wp_ite, hopen.notClosed, Bool.false_eq_true, if_false]
    by_cases hk0 : k = 0
    · refine ⟨[], (w.encode_frame_ne_nil _).symm, ?_⟩
      simp only [flushBuffer, wp_bind, wp_get, wp_when]
      rw [if_neg (by omega)]
      exact (List.append_nil _).symm
    · refine ⟨(w.frame ((pending s).take k)).encode, encode_frame_ne hraw ?_, ?_⟩
      · rw [List.length_take]
        omega
      · apply @wp_flushBuffer_sent w b (restored t).out (restored t) hc
          (fun _ hr => absurd hr List.not_mem_nil) hopen (by omega) _ (.nil _)
        intro u _ _ _ hu
        rw [hu.received_eq, show (restored t).out.responses = [] from rfl,
          WritableByteChannel.deliver_nil_left, List.nil_append, hpending,
          FrameWriter.flatten_pieces]
        rfl
  rintro ⟨-, hall⟩
  obtain ⟨sent, hne, hwp⟩ := hsent
  obtain ⟨_, u, hrun, hu⟩ := exists_of_wp hwp
  have hflush := (hall [] (by simp)).1
  simp only [runFlush, run, runAll, wp_bind, wp_pure] at hflush
  have hclaimed := wp_ok hflush hrun
  rw [hu, List.append_cancel_left_eq] at hclaimed
  refine hne (hclaimed.trans ?_)
  simp [blocksOf, segments]

/-- The position is at the end for a compressed frame, and for a raw one behind the
bytes the channel took. -/
theorem Failed.survives_iff (hc : w.codec.Lawful) (h : Open b s) (hpos : 0 < s.buffer.position)
    {k : Nat} (hk : k ≤ s.buffer.position) {t : SnappyFramedOutputStream}
    (ht : Failed b s (if w.chosen (pending s) then (pending s).length else k) t) :
    Survives w (pending s) t ↔ w.chosen (pending s) = true ∨ k = s.buffer.position := by
  have hlen := length_pending s
  cases hch : w.chosen (pending s) with
  | true =>
    rw [hch, if_pos rfl, hlen] at ht
    exact ⟨fun _ => .inl rfl, fun _ => ht.survives hc h hpos⟩
  | false =>
    rw [hch, if_neg (by decide)] at ht
    rcases Nat.lt_or_eq_of_le hk with hlt | rfl
    · refine ⟨fun hsurvives => absurd hsurvives (ht.not_survives hc.toBounded hlt hch), ?_⟩
      rintro (hno | heq)
      · cases hno
      · omega
    · exact ⟨fun _ => .inr rfl, fun _ => ht.survives hc h hpos⟩

/-- A failed frame write keeps the pending block exactly where its compressed
form was being written, or where the channel took the whole raw payload before
it threw. -/
theorem survives_iff_preserved (hc : w.codec.Lawful) (h : Open b s)
    (hpos : 0 < s.buffer.position) :
    wp (flushBuffer w) (fun _ _ => s.out.fails = false)
      (fun e t => e = .underlyingException ∧ (Survives w (pending s) t ↔ Preserved w s)) s := by
  have hlen := length_pending s
  apply wp_flushBuffer hc.toBounded h hpos rfl
  · exact fun _ _ _ _ _ _ hf _ _ => hf
  · -- the channel throws at the header: nothing of a raw payload is taken
    intro t ht hf _
    refine ⟨rfl, (ht.survives_iff hc h hpos (Nat.zero_le _)).trans (or_congr Iff.rfl ?_)⟩
    rw [hf]
    exact ⟨fun hzero => absurd hpos (by omega), fun hno => Bool.noConfusion hno.1⟩
  · -- it throws at the payload
    intro t ht hf hf' _
    have hle := WritableByteChannel.length_accepted_le (s.out.after (w.header (pending s)))
      (pending s)
    refine ⟨rfl, (ht.survives_iff hc h hpos (by omega)).trans (or_congr Iff.rfl ?_)⟩
    rw [hlen]
    exact ⟨fun heq => ⟨hf, heq⟩, fun hp => hp.2⟩

end

/-- A channel that takes the identifier and throws at the next write. -/
def failingChannel : WritableByteChannel := ⟨[], [(10, false), (0, true)], false, 0⟩

/-- After `write([1, 2], 0, 2)`. -/
def twoPending : SnappyFramedOutputStream :=
  { out := ⟨SnappyFramed.headerBytes, [(0, true)], false, 0⟩, blockSize := 4
    headerBuffer := .wrap (newArray 8), buffer := ⟨[1, 2, 0, 0], 2, 4, by decide, by decide⟩
    directInputBuffer := .wrap (newArray 4), outputBuffer := .wrap (newArray 36)
    closed := false, taken := [1, 2], released := [] }

theorem open_twoPending : Open 4 twoPending where
  blockSize_eq := rfl
  pos := by decide
  le_max := by decide
  le_capacity := by decide
  limit_le := by decide
  limit_pos := by decide
  capacity_header := by decide
  le_direct := by decide
  le_output := by decide
  notClosed := rfl

theorem survives_iff_preserved_twoPending :
    wp (flushBuffer literalWriter) (fun _ _ => twoPending.out.fails = false)
      (fun e t => e = .underlyingException ∧
        (Survives literalWriter (pending twoPending) t ↔ Preserved literalWriter twoPending))
      twoPending :=
  survives_iff_preserved LiteralCodec.lawful open_twoPending (by decide)

/-- The channel throws at the header of a raw frame: the two bytes are lost. -/
theorem header_failure_not_survives :
    ∃ s t, new literalWriter failingChannel 4 = .ok s ∧
      (write literalWriter [1, 2] 0 2).run s = .ok () twoPending ∧
      (flushBuffer literalWriter).run twoPending = .error .underlyingException t ∧
      ¬ Survives literalWriter (pending twoPending) t := by
  have hraw : literalWriter.chosen (pending twoPending) = false := by decide
  have hflush : wp (flushBuffer literalWriter) (fun _ _ => False)
      (fun e t => e = .underlyingException ∧ ¬ Survives literalWriter (pending twoPending) t)
      twoPending := by
    apply wp_flushBuffer LiteralCodec.lawful.toBounded open_twoPending (by decide) rfl
    · exact fun _ _ _ _ _ _ hf _ _ => absurd hf (by decide)
    · intro t ht _ _
      rw [hraw, if_neg (by decide)] at ht
      exact ⟨rfl, ht.not_survives LiteralCodec.lawful.toBounded (by decide) hraw⟩
    · exact fun _ _ hf _ _ => absurd hf (by decide)
  cases hrun : (flushBuffer literalWriter).run twoPending with
  | ok a t => exact (wp_ok hflush hrun).elim
  | error e t =>
    obtain ⟨rfl, hlost⟩ := wp_error hflush hrun
    exact ⟨{ twoPending with
      out := ⟨SnappyFramed.headerBytes, [(0, true)], false, 0⟩
      buffer := ⟨newArray 4, 0, 4, by decide, by decide⟩, taken := [] }, t, rfl, rfl, rfl, hlost⟩

end SnappyJava.SnappyFramedOutputStream
