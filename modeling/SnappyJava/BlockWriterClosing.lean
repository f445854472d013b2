import SnappyJava.BlockWriterSafety

/-! What `close()` of a `SnappyOutputStream` does over a sink that may fail at
any call. The flush comes first, so a failure in it passes over the close of the
sink; what stands in the `finally` block is done in any case. -/

namespace SnappyJava.SnappyOutputStream

open Exec Memory

/-- An open stream, its buffers not yet released and its sink closed `n` times. -/
structure Unclosed (n : Nat) (s : SnappyOutputStream) : Prop where
  notClosed : s.closed = false
  inputReleases_eq : s.inputReleases = 0
  outputReleases_eq : s.outputReleases = 0
  closeCalls_eq : s.out.closeCalls = n
  length_input : s.inputBuffer.length ≤ maxBlockSize
  length_output : s.outputBuffer.length = 52 + s.inputBuffer.length + s.inputBuffer.length / 6
  inputCursor_le : s.inputCursor ≤ max 1 s.inputBuffer.length

/-! ## The calls of the sink that a flush makes -/

/-- The header is in the output buffer, once. -/
def begun (cls : StreamClass) (s : SnappyOutputStream) : SnappyOutputStream :=
  { s with
    outputCursor := if s.headerWritten then s.outputCursor else (headerBytes cls).length }

/-- The output buffer is dumped in front of a block that it has no room for. -/
def dumpsFirst (cls : StreamClass) (s : SnappyOutputStream) : Nat :=
  if 0 < s.inputCursor ∧ (begun cls s).hasSufficientOutputBufferFor s.inputCursor = false ∧
    0 < (begun cls s).outputCursor then 1 else 0

/-- It is dumped if anything is in it, and then the sink is flushed. -/
def sinkCalls (cls : StreamClass) (s : SnappyOutputStream) : Nat :=
  dumpsFirst cls s +
    ((if 0 < s.inputCursor ∨ 0 < (begun cls s).outputCursor then 1 else 0) + 1)

section
variable {codec : Codec} {cls : StreamClass} {n : Nat} {s : SnappyOutputStream}

theorem wp_dumpOutput_next {Q : Unit → SnappyOutputStream → Prop}
    {E : Throwable → SnappyOutputStream → Prop}
    (hQ : ∀ o : OutputStream, o.closeCalls = s.out.closeCalls →
      o.failures = s.out.failures.drop (if 0 < s.outputCursor then 1 else 0) →
      ¬ s.out.Fails (if 0 < s.outputCursor then 1 else 0) →
      Q () { s with out := o, outputCursor := 0 })
    (hE : ∀ o : OutputStream, o.closeCalls = s.out.closeCalls →
      s.out.Fails (if 0 < s.outputCursor then 1 else 0) →
      E .underlyingException { s with out := o }) :
    wp dumpOutput Q E s := by
  simp only [dumpOutput, wp_bind, wp_get, wp_when, onOut, wp_zoom, wp_modify]
  split
  · rename_i hpos
    rw [if_pos hpos] at hQ hE
    apply OutputStream.wp_write_next
    · exact hQ _ rfl rfl
    · exact hE _ rfl
  · rename_i h0
    rw [if_neg h0] at hQ
    have hz : s.outputCursor = 0 := by omega
    have hs : ({ s with out := s.out, outputCursor := 0 } : SnappyOutputStream) = s := by
      rw [← hz]
    have hnone := hQ s.out rfl rfl (by simp [OutputStream.Fails])
    rwa [hs] at hnone

theorem wp_beginOutput_begun (h : Unclosed n s) {Q : Unit → SnappyOutputStream → Prop}
    {E : Throwable → SnappyOutputStream → Prop}
    (hQ : ∀ a : Bytes, a.length = s.outputBuffer.length →
      Q () { begun cls s with outputBuffer := a, headerWritten := true }) :
    wp (beginOutput cls) Q E s := by
  have hlen := h.length_output
  simp only [beginOutput, wp_bind, wp_get, wp_when, wp_modify]
  cases hw : s.headerWritten with
  | true =>
    simp only [Bool.true_eq_false, if_false]
    have hsame := hQ s.outputBuffer rfl
    simp only [begun, hw, if_true] at hsame
    rwa [← hw] at hsame
  | false =>
    simp only [if_true]
    cases cls with
    | snappyOutputStream =>
      have hfit : 16 ≤ s.outputBuffer.length := by omega
      simp only [writeHeader, wp_bind, wp_get, wp_ite, wp_set, wp_pure,
        SnappyCodec.length_headerArray_currentHeader, if_pos hfit]
      have hnext := hQ (splice s.outputBuffer 0 SnappyCodec.currentHeader.headerArray)
        (length_splice (by simpa using hfit))
      simpa [begun, hw, headerBytes] using hnext
    | snappyHadoopCompatibleOutputStream =>
      simp only [writeHeader, wp_pure]
      have hnext := hQ s.outputBuffer rfl
      simpa [begun, hw, headerBytes] using hnext

/-- A block that fits by the measure of the stream is appended. Only the preamble
of the subclass can leave too little room for it. -/
theorem wp_emitBlock_next (hc : codec.Bounded) (h : Unclosed n s) {cursor : Nat}
    (hroom : s.outputCursor = 0 ∨ s.hasSufficientOutputBufferFor s.inputCursor = true)
    {Q : Unit → SnappyOutputStream → Prop} {E : Throwable → SnappyOutputStream → Prop}
    (hQ : ∀ (a : Bytes) (k : Nat) (cs : List CompressCall), a.length = s.outputBuffer.length →
      0 < k → Q () { s with
        outputBuffer := a, outputCursor := k, inputCursor := 0, compressCalls := cs })
    (hFault : ∀ (a : Bytes) (k : Nat) (cs : List CompressCall),
      a.length = s.outputBuffer.length → cls = .snappyHadoopCompatibleOutputStream →
      E (.memoryFault .rawCompress) { s with
        outputBuffer := a, outputCursor := k, compressCalls := cs }) :
    wp (emitBlock codec cls cursor) Q E s := by
  have hM : maxBlockSize = 536870912 := rfl
  have hinput := h.length_input
  have hlen := h.length_output
  have hin := h.inputCursor_le
  have hn : Snappy.maxCompressedLength s.inputCursor =
      ((32 + s.inputCursor + s.inputCursor / 6 : Nat) : Int) :=
    Snappy.maxCompressedLength_natCast (by omega)
  have hfits : s.outputCursor + (36 + s.inputCursor + s.inputCursor / 6) ≤
      s.outputBuffer.length := by
    rcases hroom with hzero | hsuff
    · omega
    · simp only [hasSufficientOutputBufferFor, hn, decide_eq_true_eq] at hsuff
      omega
  have hpre := length_preemble_le cls s.inputCursor
  have hcomp := hc.length_compress_le (pending s) (by rw [pending, List.length_take]; omega)
  rw [pending, List.length_take] at hcomp
  simp only [emitBlock, wp_bind, wp_get, wp_modify]
  apply wp_writeBlockPreemble (by omega)
  simp only [compress, wp_bind, wp_get, wp_set, wp_ite, wp_modify, wp_pure, wp_throw]
  have hl : (splice s.outputBuffer s.outputCursor (preemble cls s.inputCursor)).length =
      s.outputBuffer.length := length_splice (by omega)
  rw [hl]
  generalize codec.compress (s.inputBuffer.take s.inputCursor) = comp at hcomp
  split
  · rename_i hfit
    have hl' := @length_splice _ (splice s.outputBuffer s.outputCursor
      (preemble cls s.inputCursor)) comp _ (by rw [hl]; exact hfit)
    rw [hl] at hl'
    apply wp_storeOutput
    · rw [length_intBytes, hl']
      omega
    · refine hQ _ _ _ ?_ (by omega)
      rw [length_splice (by rw [length_intBytes, hl']; omega), hl']
  · rename_i hfit
    refine hFault _ _ _ hl ?_
    cases cls with
    | snappyHadoopCompatibleOutputStream => rfl
    | snappyOutputStream =>
      simp only [preemble, List.length_nil] at hfit
      omega

/-- What `compressInput` throws: the failure of the sink at its first call, or the
fault of the subclass. -/
theorem wp_compressInput_next (hc : codec.Bounded) (h : Unclosed n s)
    {Q : Unit → SnappyOutputStream → Prop} {E : Throwable → SnappyOutputStream → Prop}
    (hQ : ∀ t, Unclosed n t → t.inputCursor = 0 →
      (0 < t.outputCursor ↔ 0 < s.inputCursor ∨ 0 < (begun cls s).outputCursor) →
      t.out.failures = s.out.failures.drop (dumpsFirst cls s) →
      ¬ s.out.Fails (dumpsFirst cls s) → Q () t)
    (hSink : ∀ t, Unclosed n t → s.out.Fails (dumpsFirst cls s) → E .underlyingException t)
    (hFault : ∀ t, Unclosed n t → cls = .snappyHadoopCompatibleOutputStream →
      E (.memoryFault .rawCompress) t) :
    wp (compressInput codec cls) Q E s := by
  simp only [compressInput, wp_bind, wp_get, wp_when]
  apply wp_beginOutput_begun h
  intro a ha
  have hbegun : ∀ o : OutputStream, o.closeCalls = s.out.closeCalls → ∀ k : Nat,
      Unclosed n { begun cls s with
        outputBuffer := a, headerWritten := true, out := o, outputCursor := k } := fun o ho k =>
    { h with
      closeCalls_eq := ho.trans h.closeCalls_eq
      length_output := ha.trans h.length_output }
  have hsuff : ({ begun cls s with outputBuffer := a, headerWritten := true } :
      SnappyOutputStream).hasSufficientOutputBufferFor s.inputCursor =
        (begun cls s).hasSufficientOutputBufferFor s.inputCursor := by
    have hb : (begun cls s).outputBuffer.length = s.outputBuffer.length := rfl
    simp only [hasSufficientOutputBufferFor, ha, hb]
  have hno : ¬ s.out.Fails 0 := by simp [OutputStream.Fails]
  split
  · rename_i hpending
    have hpending' : 0 < s.inputCursor := hpending
    -- from here on the block is emitted, whether or not a dump came first
    have hemit : ∀ (o : OutputStream) (k : Nat), o.closeCalls = s.out.closeCalls →
        o.failures = s.out.failures.drop (dumpsFirst cls s) → ¬ s.out.Fails (dumpsFirst cls s) →
        (k = 0 ∨ k = (begun cls s).outputCursor ∧
          (begun cls s).hasSufficientOutputBufferFor s.inputCursor = true) →
        wp (emitBlock codec cls (begun cls s).outputCursor) Q E { begun cls s with
          outputBuffer := a, headerWritten := true, out := o, outputCursor := k } := by
      intro o k ho hfailures hnone hk
      have hu := hbegun o ho k
      apply wp_emitBlock_next hc hu
      · rcases hk with hzero | ⟨rfl, hyes⟩
        · exact .inl hzero
        · exact .inr (hsuff.trans hyes)
      · intro a' k' cs ha' hk'
        refine hQ _ { hu with length_output := ?_, inputCursor_le := Nat.zero_le _ } rfl
          ⟨fun _ => .inl hpending', fun _ => hk'⟩ hfailures hnone
        exact ha'.trans hu.length_output
      · intro a' k' cs ha' hcls
        exact hFault _ { hu with length_output := ha'.trans hu.length_output } hcls
    split
    · rename_i hshort
      have hshort' : (begun cls s).hasSufficientOutputBufferFor s.inputCursor = false :=
        hsuff.symm.trans hshort
      have hdumps : dumpsFirst cls s = if 0 < (begun cls s).outputCursor then 1 else 0 := by
        simp only [dumpsFirst, hpending', hshort', true_and]
      apply wp_dumpOutput_next
      · intro o ho hfailures hnone
        rw [← hdumps] at hfailures hnone
        exact hemit o 0 ho hfailures hnone (.inl rfl)
      · intro o ho hf
        rw [← hdumps] at hf
        exact hSink _ (hbegun o ho _) hf
    · rename_i hyes
      have hyes' : (begun cls s).hasSufficientOutputBufferFor s.inputCursor = true :=
        hsuff.symm.trans (Bool.eq_true_of_not_eq_false hyes)
      have hdumps : dumpsFirst cls s = 0 := by
        rw [dumpsFirst, if_neg]
        rintro ⟨-, hno', -⟩
        rw [hyes'] at hno'
        cases hno'
      rw [hdumps] at hemit
      exact hemit s.out _ rfl rfl hno (.inr ⟨rfl, hyes'⟩)
  · rename_i hnone
    have hempty : s.inputCursor = 0 := Nat.eq_zero_of_not_pos hnone
    have hdumps : dumpsFirst cls s = 0 := by
      rw [dumpsFirst, if_neg]
      rintro ⟨hpos, -, -⟩
      omega
    rw [hdumps] at hQ
    refine hQ _ (hbegun s.out rfl _) hempty ⟨.inr, fun hor => hor.resolve_left ?_⟩ rfl hno
    omega

/-- A flush returns exactly if none of its calls of the sink fails. -/
theorem wp_flush_next (hc : codec.Bounded) (h : Unclosed n s)
    {Q : Unit → SnappyOutputStream → Prop} {E : Throwable → SnappyOutputStream → Prop}
    (hQ : ∀ t, Unclosed n t → ¬ s.out.Fails (sinkCalls cls s) → Q () t)
    (hSink : ∀ t, Unclosed n t → s.out.Fails (sinkCalls cls s) → E .underlyingException t)
    (hFault : ∀ t, Unclosed n t → cls = .snappyHadoopCompatibleOutputStream →
      E (.memoryFault .rawCompress) t) :
    wp (flush codec cls) Q E s := by
  simp only [flush, wp_bind, wp_get, wp_ite, h.notClosed, Bool.false_eq_true, if_false]
  apply wp_compressInput_next hc h
  · intro t ht _ hcursor hfailures hnone
    have hdump : (if 0 < t.outputCursor then 1 else 0) =
        if 0 < s.inputCursor ∨ 0 < (begun cls s).outputCursor then 1 else 0 := by
      simp only [hcursor]
    have hcalls : sinkCalls cls s = dumpsFirst cls s + ((if 0 < t.outputCursor then 1 else 0) + 1) := by
      rw [hdump]
      rfl
    have hafter := OutputStream.fails_add hfailures ((if 0 < t.outputCursor then 1 else 0) + 1)
    rw [← hcalls] at hafter
    apply wp_dumpOutput_next
    · intro o ho hofailures honone
      have hlast := OutputStream.fails_add hofailures 1
      have ho' : Unclosed n { t with out := o, outputCursor := 0 } :=
        { ht with closeCalls_eq := ho.trans ht.closeCalls_eq }
      simp only [onOut, wp_zoom]
      apply OutputStream.wp_flush_next
      · intro hok
        refine hQ _ { ho' with } ?_
        rw [hafter, hlast]
        exact fun hor => hor.elim hnone fun hor' => hor'.elim honone hok
      · intro hf
        exact hSink _ { ho' with } (hafter.mpr (.inr (hlast.mpr (.inr hf))))
    · intro o ho hf
      refine hSink _ { ht with closeCalls_eq := ho.trans ht.closeCalls_eq } ?_
      refine hafter.mpr (.inr ?_)
      exact hf.add 1
  · intro t ht hf
    exact hSink t ht (hf.add _)
  · exact hFault

/-! ## Every call leaves the stream open -/

theorem keeps_compressInput (hc : codec.Bounded) : Keeps (Unclosed n) (compressInput codec cls) :=
  fun _ h => wp_compressInput_next hc h (fun _ ht _ _ _ _ => ht) (fun _ ht _ => ht)
    fun _ ht _ => ht

theorem keeps_flush (hc : codec.Bounded) : Keeps (Unclosed n) (flush codec cls) := fun _ h =>
  wp_flush_next hc h (fun _ ht _ => ht) (fun _ ht _ => ht) fun _ ht _ => ht

theorem keeps_copyToInput (copy : ArrayCopy) (a : Bytes) (offset : Int) (len : Nat) :
    Keeps (Unclosed n) (copyToInput copy a offset len) := by
  intro s h
  have hin := h.length_input
  simp only [copyToInput, wp_bind, wp_get, wp_ite, wp_throw, wp_set]
  split
  · exact h
  split
  · exact h
  · rename_i hsource hroom
    have hslice : (slice a offset.toNat len).length = len := length_slice a (by omega)
    have hl : (splice s.inputBuffer s.inputCursor (slice a offset.toNat len)).length =
        s.inputBuffer.length := length_splice (by rw [hslice]; omega)
    exact { h with
      length_input := hl.trans_le hin
      length_output := by rw [hl]; exact h.length_output
      inputCursor_le := by simp only [hl]; omega }

theorem keeps_bulkWrite (hc : codec.Bounded) (copy : ArrayCopy) (a : Bytes)
    (byteOffset byteLength : Int) :
    Keeps (Unclosed n) (bulkWrite codec cls copy a byteOffset byteLength) := by
  refine Keeps.bind Keeps.get fun s => Keeps.ite (Keeps.throw _) (Keeps.loop (fun cursor => ?_) _ _)
  refine Keeps.ite (Keeps.bind Keeps.get fun t => ?_) (Keeps.pure _)
  refine Keeps.bind (Keeps.when (keeps_copyToInput _ _ _ _)) fun _ => Keeps.bind Keeps.get fun u => ?_
  exact Keeps.ite (Keeps.pure _) (Keeps.bind (keeps_compressInput hc) fun _ => Keeps.pure _)

/-- Before `putByte` the cursor is inside the buffer, or at 0. -/
theorem wp_putByte_unclosed {x : UInt8} (h : Unclosed n s)
    (hcursor : s.inputCursor < s.inputBuffer.length ∨ s.inputCursor = 0) :
    wp (putByte x) (fun _ t => Unclosed n t) (fun _ t => Unclosed n t) s := by
  have hnext : Unclosed n { s with inputCursor := s.inputCursor + 1 } :=
    { h with inputCursor_le := by simp only; omega }
  simp only [putByte, wp_bind, wp_get, wp_set, wp_ite, wp_modify, wp_throw]
  split
  · have hl : (s.inputBuffer.set s.inputCursor x).length = s.inputBuffer.length :=
      List.length_set
    exact { hnext with
      length_input := hl.trans_le h.length_input
      length_output := by rw [hl]; exact h.length_output
      inputCursor_le := by rw [hl]; exact hnext.inputCursor_le }
  · exact hnext

theorem keeps_writeByte (hc : codec.Bounded) (x : Int) :
    Keeps (Unclosed n) (writeByte codec cls x) := by
  intro s h
  simp only [writeByte, wp_bind, wp_get, wp_ite, h.notClosed, Bool.false_eq_true, if_false, wp_when]
  split
  · apply wp_compressInput_next hc h
    · exact fun t ht h0 _ _ _ => wp_putByte_unclosed ht (.inr h0)
    · exact fun t ht _ => ht
    · exact fun t ht _ => ht
  · rename_i hlt
    exact wp_putByte_unclosed h (.inl (by omega))

theorem keeps_perform (hc : codec.Bounded) (c : WriteCall) :
    Keeps (Unclosed n) (perform codec cls c) := by
  cases c with
  | writeByte x => exact keeps_writeByte hc x
  | write a off len => exact keeps_bulkWrite hc _ a off len
  | rawWrite a off len => exact keeps_bulkWrite hc _ a off len
  | writeArray t d off len => exact keeps_bulkWrite hc _ d _ _
  | flush => exact keeps_flush hc

theorem unclosed_of_new {allocate : Nat → Bytes} (ha : ExactAllocator allocate) {out : OutputStream}
    {blockSize : Int} (hnew : new allocate out blockSize = .ok s) :
    Unclosed out.closeCalls s := by
  have hM : maxBlockSize = 536870912 := rfl
  simp only [new] at hnew
  by_cases hlarge : max (minBlockSize : Int) blockSize > maxBlockSize
  · rw [if_pos hlarge] at hnew
    cases hnew
  rw [if_neg hlarge] at hnew
  by_cases hneg : blockSize < 0
  · rw [if_pos (.inl hneg)] at hnew
    cases hnew
  have hlen := Snappy.maxCompressedLength_natCast (n := blockSize.toNat) (by omega)
  rw [Int.toNat_of_nonneg (by omega)] at hlen
  rw [hlen, SnappyCodec.headerSize_eq, if_neg (by omega)] at hnew
  cases hnew
  refine ⟨rfl, rfl, rfl, rfl, ?_, ?_, Nat.zero_le _⟩
  · simp only [ha blockSize.toNat]
    omega
  · simp only [ha _]
    omega

/-! ## Closing -/

/-- Of the job of `close()` all but the close of the sink: the buffers have been
released once, every write and flush is refused and changes nothing, and neither
does a further `close()`. -/
structure Settled (codec : Codec) (cls : StreamClass) (t : SnappyOutputStream) : Prop where
  closed : t.closed = true
  inputReleases_eq : t.inputReleases = 1
  outputReleases_eq : t.outputReleases = 1
  refuses : ∀ c, (perform codec cls c).run t = .error streamIsClosed t
  closesAgain : (close codec cls).run t = .ok () t

/-- The whole job, the sink having been closed `n` times before. -/
structure Finished (codec : Codec) (cls : StreamClass) (n : Nat) (t : SnappyOutputStream) : Prop
    extends Settled codec cls t where
  asked : t.out.closeCalls = n + 1

theorem perform_closed (h : s.closed = true) (c : WriteCall) :
    (perform codec cls c).run s = .error streamIsClosed s := by
  cases c <;>
    simp [perform, writeByte, write, rawWrite, writeArray, bulkWrite, flush, EStateM.run_bind, h]

theorem close_closed (h : s.closed = true) : (close codec cls).run s = .ok () s := by
  simp [close, EStateM.run_bind, h]

/-- What the `finally` block does. -/
def released (s : SnappyOutputStream) : SnappyOutputStream :=
  { s with
    closed := true, inputReleases := s.inputReleases + 1, outputReleases := s.outputReleases + 1
    inputBuffer := [], outputBuffer := [] }

theorem Unclosed.settled (h : Unclosed n s) (o : OutputStream) :
    Settled codec cls { released s with out := o } :=
  ⟨rfl, congrArg (· + 1) h.inputReleases_eq, congrArg (· + 1) h.outputReleases_eq,
    perform_closed rfl, close_closed rfl⟩

/-- Whatever fails, everything but the close of the sink is done, and that
exactly if no call of the sink in the flush fails. -/
theorem wp_close_finished (hc : codec.Bounded) (h : Unclosed n s) :
    wp (close codec cls)
      (fun _ t => Settled codec cls t ∧
        (Finished codec cls n t ↔ ¬ s.out.Fails (sinkCalls cls s)))
      (fun e t => e = .memoryFault .rawCompress ∧ cls = .snappyHadoopCompatibleOutputStream ∨
        Settled codec cls t ∧ (Finished codec cls n t ↔ ¬ s.out.Fails (sinkCalls cls s))) s := by
  simp only [close, wp_bind, wp_get, wp_ite, h.notClosed, Bool.false_eq_true, if_false, wp_ensuring,
    wp_modify]
  apply wp_flush_next hc h
  · intro t ht hok
    -- the close of the sink counts even if it throws
    have hdone : ∀ fs, Settled codec cls { released t with
          out := { t.out with closeCalls := t.out.closeCalls + 1, failures := fs } } ∧
        (Finished codec cls n { released t with
          out := { t.out with closeCalls := t.out.closeCalls + 1, failures := fs } } ↔
          ¬ s.out.Fails (sinkCalls cls s)) := fun fs =>
      ⟨ht.settled _, fun _ => hok, fun _ => ⟨ht.settled _, congrArg (· + 1) ht.closeCalls_eq⟩⟩
    simp only [onOut, wp_zoom]
    apply OutputStream.wp_close_next
    · exact fun _ => hdone _
    · exact fun _ => .inr (hdone _)
  · intro t ht hf
    refine .inr ⟨ht.settled t.out, fun hdone => ?_, fun hok => absurd hf hok⟩
    have hasked : t.out.closeCalls = n + 1 := hdone.asked
    rw [ht.closeCalls_eq] at hasked
    omega
  · exact fun t ht hcls => .inl ⟨rfl, hcls⟩

end

/-- Some calls, whatever they threw, lead from the constructor to `t`. A run stops
where native code has left its memory, and where a call does not end. -/
def Reached (codec : Codec) (cls : StreamClass) (allocate : Nat → Bytes) (out : OutputStream)
    (t : SnappyOutputStream) : Prop :=
  ∃ (blockSize : Int) (s : SnappyOutputStream) (calls : List WriteCall)
    (rs : List (Except Throwable Unit)), new allocate out blockSize = .ok s ∧
      (runOn Throwable.Fatal (perform codec cls) calls).run s = .ok rs t

theorem Reached.unclosed {codec : Codec} (hc : codec.Bounded) {cls : StreamClass}
    {allocate : Nat → Bytes} (ha : ExactAllocator allocate) {out : OutputStream}
    {t : SnappyOutputStream} (h : Reached codec cls allocate out t) :
    Unclosed out.closeCalls t := by
  obtain ⟨blockSize, s, calls, rs, hnew, hrun⟩ := h
  have hkeeps : Keeps (Unclosed out.closeCalls) (runOn Throwable.Fatal (perform codec cls) calls) :=
    Keeps.runOn (keeps_perform hc) calls
  have hreached := hkeeps s (unclosed_of_new ha hnew)
  simp only [wp, hrun] at hreached
  exact hreached

end SnappyJava.SnappyOutputStream
