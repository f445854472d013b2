import SnappyJava.Lib.Blocks
import SnappyJava.SnappyOutputStream

/-! What a `SnappyOutputStream` has written at every moment: the codec header
and the encodings of the blocks it has emitted, partly at the sink and partly
still in `outputBuffer`. Each method has one specification here; the results
about runs use these and never unfold a method. -/

namespace SnappyJava.SnappyOutputStream

open Exec Memory Blocks

/-! ## The block format -/

def headerBytes : StreamClass → Bytes
  | .snappyOutputStream => SnappyCodec.currentHeader.headerArray
  | .snappyHadoopCompatibleOutputStream => []

def preemble : StreamClass → Nat → Bytes
  | .snappyOutputStream, _ => []
  | .snappyHadoopCompatibleOutputStream, n => intBytes n

def encodeBlock (codec : Codec) (cls : StreamClass) (x : Bytes) : Bytes :=
  preemble cls x.length ++ (intBytes (codec.compress x).length ++ codec.compress x)

/-- The reference encoding of data written in segments between flushes. -/
def reference (codec : Codec) (cls : StreamClass) (b : Nat) (segments : List Bytes) : Bytes :=
  headerBytes cls ++ (segments.flatMap (blocks b)).flatMap (encodeBlock codec cls)

/-- What the stream has written so far, at the sink or in its buffer. -/
def produced (s : SnappyOutputStream) : Bytes :=
  s.out.received ++ s.outputBuffer.take s.outputCursor

/-- The bytes not yet compressed. -/
def pending (s : SnappyOutputStream) : Bytes := s.inputBuffer.take s.inputCursor

/-- The stream has written its header and `emitted`, or nothing at all. -/
def Emitted (codec : Codec) (cls : StreamClass) (emitted : List Bytes) (s : SnappyOutputStream) :
    Prop :=
  if s.headerWritten then
    produced s = headerBytes cls ++ emitted.flatMap (encodeBlock codec cls)
  else
    produced s = [] ∧ emitted = []

/-! ## Room for the native compressor -/

end SnappyJava.SnappyOutputStream

namespace SnappyJava.CompressCall

/-- The native contract: room for the longest possible result. -/
def Fits (c : CompressCall) : Prop :=
  c.outputOffset + Snappy.maxCompressedLength c.inputLength ≤ c.outputLength

/-- The free bytes of the output buffer past those that
`hasSufficientOutputBufferFor` asks for. -/
def spare (c : CompressCall) : Int :=
  c.outputLength - c.cursor - 4 - Snappy.maxCompressedLength c.inputLength

end SnappyJava.CompressCall

namespace SnappyJava.SnappyOutputStream

open Exec Memory Blocks

/-- A call has room unless the preamble of the subclass has eaten it. -/
def CallOk (cls : StreamClass) (c : CompressCall) : Prop :=
  c.Fits ↔ ¬ (cls = .snappyHadoopCompatibleOutputStream ∧ 0 < c.spare ∧ c.spare < 4)

/-! ## The shape of an open stream -/

/-- An open stream with block size `b`. Under `rel` its sink never fails. -/
structure Open (b : Nat) (rel : Prop) (cls : StreamClass) (s : SnappyOutputStream) : Prop where
  blockSize_eq : s.blockSize = b
  length_input : s.inputBuffer.length = b
  length_output : s.outputBuffer.length = 20 + (32 + b + b / 6)
  notClosed : s.closed = false
  inputCursor_le : s.inputCursor ≤ b
  outputCursor_le : s.outputCursor ≤ s.outputBuffer.length
  reliable : rel → s.out.failures = []
  calls : ∀ c ∈ s.compressCalls, CallOk cls c

section
variable {b : Nat} {rel : Prop} {cls : StreamClass} {s : SnappyOutputStream}

theorem Open.length_pending (h : Open b rel cls s) : (pending s).length = s.inputCursor := by
  have h₁ := h.length_input
  have h₂ := h.inputCursor_le
  simp only [pending, List.length_take]
  omega

/-! ## The private methods -/

/-- Stores that stay inside the buffer are one copy. -/
theorem wp_storeOutput {xs : Bytes} {offset : Nat} {Q : Unit → SnappyOutputStream → Prop}
    {E : Throwable → SnappyOutputStream → Prop} {s : SnappyOutputStream}
    (h : offset + xs.length ≤ s.outputBuffer.length)
    (hQ : Q () { s with outputBuffer := splice s.outputBuffer offset xs }) :
    wp (storeOutput offset xs) Q E s := by
  induction xs generalizing offset s with
  | nil => simpa [storeOutput] using hQ
  | cons x xs ih =>
    simp only [List.length_cons] at h
    have hlt : offset < s.outputBuffer.length := by omega
    simp only [storeOutput, wp_bind, wp_get, wp_ite, wp_set, if_pos hlt]
    apply ih
    · simp; omega
    · have hset : s.outputBuffer.set offset x = splice s.outputBuffer offset [x] := by
        rw [List.set_eq_take_append_cons_drop, if_pos hlt]
        simp [splice]
      have happ : splice (splice s.outputBuffer offset [x]) (offset + [x].length) xs =
          splice s.outputBuffer offset ([x] ++ xs) := splice_append (by omega)
      simp only [hset]
      simp only [List.length_singleton, List.singleton_append] at happ
      rw [happ]
      exact hQ

/-- Draining moves what the buffer holds to the sink; a sink that fails leaves
everything in the buffer. -/
theorem wp_dumpOutput {Q : Unit → SnappyOutputStream → Prop}
    {E : Throwable → SnappyOutputStream → Prop} (h : Open b rel cls s)
    (hQ : ∀ o : OutputStream, o.received = produced s → (rel → o.failures = []) →
      Q () { s with out := o, outputCursor := 0 })
    (hE : ∀ o : OutputStream, ¬ rel → o.received = s.out.received →
      E .underlyingException { s with out := o }) :
    wp dumpOutput Q E s := by
  simp only [dumpOutput, wp_bind, wp_get, wp_when, onOut, wp_zoom, wp_modify]
  split
  · apply OutputStream.wp_write
    · intro fs hfs
      exact hQ _ rfl fun hr => hfs (h.reliable hr)
    · intro fs hfs
      exact hE _ (fun hr => hfs (h.reliable hr)) rfl
  · rename_i h0
    have hz : s.outputCursor = 0 := by omega
    have hp : produced s = s.out.received := by simp [produced, hz]
    have hs : ({ s with out := s.out, outputCursor := 0 } : SnappyOutputStream) = s := by
      cases s; simp at hz; simp [hz]
    have := hQ s.out hp.symm h.reliable
    rwa [hs] at this

/-- The header goes to the front of an empty output buffer, once. -/
theorem wp_beginOutput {codec : Codec} {Q : Unit → SnappyOutputStream → Prop}
    {E : Throwable → SnappyOutputStream → Prop} (h : Open b rel cls s)
    {emitted : List Bytes} (he : Emitted codec cls emitted s)
    (hQ : ∀ t : SnappyOutputStream, Open b rel cls t → t.headerWritten = true →
      pending t = pending s → t.copied = s.copied → t.inputCursor = s.inputCursor →
      Emitted codec cls emitted t → Q () t) :
    wp (beginOutput cls) Q E s := by
  simp only [beginOutput, wp_bind, wp_get, wp_when, wp_modify]
  cases hw : s.headerWritten with
  | true =>
    simp only [Bool.true_eq_false, if_false]
    exact hQ s h hw rfl rfl rfl he
  | false =>
    simp only [if_true]
    simp only [Emitted, hw, Bool.false_eq_true, if_false] at he
    obtain ⟨hp, rfl⟩ := he
    have hr : s.out.received = [] := (List.append_eq_nil_iff.mp hp).1
    have hlen := h.length_output
    cases cls with
    | snappyOutputStream =>
      have hfit : 16 ≤ s.outputBuffer.length := by omega
      simp only [writeHeader, wp_bind, wp_get, wp_ite, wp_set, wp_pure,
        SnappyCodec.length_headerArray_currentHeader, if_pos hfit]
      have hspl : (splice s.outputBuffer 0 SnappyCodec.currentHeader.headerArray).length =
          s.outputBuffer.length := length_splice (by simpa using hfit)
      have htake := take_splice_zero s.outputBuffer SnappyCodec.currentHeader.headerArray
      simp only [SnappyCodec.length_headerArray_currentHeader] at htake
      apply hQ
      · exact { h with
          length_output := hspl.trans hlen
          outputCursor_le := by rw [hspl]; exact hfit }
      · rfl
      · rfl
      · rfl
      · rfl
      · simp [Emitted, produced, hr, htake, headerBytes]
    | snappyHadoopCompatibleOutputStream =>
      simp only [writeHeader, wp_pure]
      apply hQ
      · exact { h with outputCursor_le := Nat.zero_le _ }
      · rfl
      · rfl
      · rfl
      · rfl
      · simp [Emitted, produced, hr, headerBytes]

/-- The preamble is stored in front of the block and counted. -/
theorem wp_writeBlockPreemble {Q : Unit → SnappyOutputStream → Prop}
    {E : Throwable → SnappyOutputStream → Prop} {s : SnappyOutputStream}
    (h : s.outputCursor + (preemble cls s.inputCursor).length ≤ s.outputBuffer.length)
    (hQ : Q () { s with
      outputBuffer := splice s.outputBuffer s.outputCursor (preemble cls s.inputCursor)
      outputCursor := s.outputCursor + (preemble cls s.inputCursor).length }) :
    wp (writeBlockPreemble cls) Q E s := by
  cases cls with
  | snappyOutputStream => simpa [writeBlockPreemble, preemble] using hQ
  | snappyHadoopCompatibleOutputStream =>
    simp only [writeBlockPreemble, writeCurrentDataSize, writeInt, wp_bind, wp_get, wp_modify]
    exact wp_storeOutput h hQ

theorem length_preemble_le (cls : StreamClass) (n : Nat) : (preemble cls n).length ≤ 4 := by
  cases cls <;> simp [preemble]

/-- With room for the compressed block by the measure of
`hasSufficientOutputBufferFor`, the block is appended to the output, unless the
preamble of the subclass leaves too little room for it. -/
theorem wp_emitBlock {codec : Codec} (hc : codec.Bounded) (hb : b ≤ maxBlockSize)
    {Q : Unit → SnappyOutputStream → Prop} {E : Throwable → SnappyOutputStream → Prop}
    (h : Open b rel cls s) (hw : s.headerWritten = true)
    {emitted : List Bytes} (he : Emitted codec cls emitted s) {cursor : Nat}
    (hcursor :
      s.outputCursor = cursor ∧
        cursor + (36 + s.inputCursor + s.inputCursor / 6) < s.outputBuffer.length ∨
      s.outputCursor = 0 ∧
        s.outputBuffer.length ≤ cursor + (36 + s.inputCursor + s.inputCursor / 6))
    (hQ : ∀ t : SnappyOutputStream, Open b rel cls t → t.headerWritten = true →
      t.inputCursor = 0 → t.copied = s.copied →
      Emitted codec cls (emitted ++ [pending s]) t → Q () t)
    (hFault : ∀ t : SnappyOutputStream, cls = .snappyHadoopCompatibleOutputStream →
      Open b rel cls t → E (.memoryFault .rawCompress) t) :
    wp (emitBlock codec cls cursor) Q E s := by
  have hlen := h.length_output
  have hin := h.inputCursor_le
  have hmax : maxBlockSize = 536870912 := rfl
  have hpre := length_preemble_le cls s.inputCursor
  have hcomp := hc.length_compress_le (pending s) (by rw [h.length_pending]; omega)
  rw [h.length_pending] at hcomp
  have hn : Snappy.maxCompressedLength s.inputCursor =
      ((32 + s.inputCursor + s.inputCursor / 6 : Nat) : Int) :=
    Snappy.maxCompressedLength_natCast (by omega)
  simp only [emitBlock, wp_bind, wp_get, wp_modify]
  apply wp_writeBlockPreemble (by omega)
  simp only [compress, wp_bind, wp_get, wp_set, wp_ite, wp_modify, wp_pure, wp_throw]
  set pre := preemble cls s.inputCursor with hpreDef
  have hl₁ : (splice s.outputBuffer s.outputCursor pre).length = s.outputBuffer.length :=
    length_splice (by omega)
  -- the record of the call, right in either class
  have hcall : CallOk cls ⟨cursor, s.inputCursor, s.outputCursor + pre.length + 4,
      (splice s.outputBuffer s.outputCursor pre).length⟩ := by
    simp only [CallOk, CompressCall.Fits, CompressCall.spare, hn, hl₁]
    cases cls with
    | snappyOutputStream =>
      have : pre.length = 0 := by simp [hpreDef, preemble]
      simp only [reduceCtorEq, false_and, not_false_eq_true, iff_true]
      omega
    | snappyHadoopCompatibleOutputStream =>
      have : pre.length = 4 := by simp [hpreDef, preemble]
      simp only [true_and]
      omega
  have hcalls : ∀ c ∈ s.compressCalls ++ [⟨cursor, s.inputCursor,
      s.outputCursor + pre.length + 4, (splice s.outputBuffer s.outputCursor pre).length⟩],
      CallOk cls c := by
    intro c hm
    rcases List.mem_append.mp hm with hm | hm
    · exact h.calls c hm
    · rw [List.mem_singleton.mp hm]; exact hcall
  rw [show s.inputBuffer.take s.inputCursor = pending s from rfl]
  generalize hcompDef : codec.compress (pending s) = comp at hcomp
  split
  · rename_i hfit
    rw [hl₁] at hfit
    -- preamble, size and data are one copy to the end of the output so far
    have hspl : splice (splice (splice s.outputBuffer s.outputCursor pre)
        (s.outputCursor + pre.length + 4) comp) (s.outputCursor + pre.length)
          (intBytes comp.length) =
        splice s.outputBuffer s.outputCursor (pre ++ (intBytes comp.length ++ comp)) := by
      have h₁ := @splice_before _ (splice s.outputBuffer s.outputCursor pre)
        (intBytes comp.length) comp (s.outputCursor + pre.length)
        (by rw [hl₁, length_intBytes]; omega)
      rw [length_intBytes] at h₁
      rw [h₁, splice_append h.outputCursor_le]
    have hl₃ : (splice s.outputBuffer s.outputCursor
        (pre ++ (intBytes comp.length ++ comp))).length = s.outputBuffer.length :=
      length_splice (by simp only [List.length_append, length_intBytes]; omega)
    have htake := take_splice (pre ++ (intBytes comp.length ++ comp)) h.outputCursor_le
    have hlpre : (pre ++ (intBytes comp.length ++ comp)).length =
        pre.length + (4 + comp.length) := by
      simp only [List.length_append, length_intBytes]
    rw [hlpre, ← Nat.add_assoc] at htake
    apply wp_storeOutput
    · rw [length_intBytes, length_splice (by rw [hl₁]; exact hfit), hl₁]; omega
    · simp only [hspl]
      apply hQ
      · exact { h with
          length_output := hl₃.trans hlen
          inputCursor_le := Nat.zero_le _
          outputCursor_le := by simp only [hl₃]; omega
          calls := hcalls }
      · exact hw
      · rfl
      · rfl
      · simp only [Emitted, hw, if_true, produced] at he ⊢
        rw [htake, ← List.append_assoc, he]
        simp [encodeBlock, h.length_pending, hpreDef, hcompDef]
  · rename_i hfit
    have hh : cls = .snappyHadoopCompatibleOutputStream := by
      cases cls with
      | snappyHadoopCompatibleOutputStream => rfl
      | snappyOutputStream =>
        have : pre.length = 0 := by simp [hpreDef, preemble]
        simp only [hl₁] at hfit
        omega
    refine hFault _ hh { h with length_output := hl₁.trans hlen, outputCursor_le := ?_, calls := hcalls }
    simp only [hl₁]
    omega

theorem hasSufficientOutputBufferFor_iff (h : Open b rel cls s) (hb : b ≤ maxBlockSize) :
    s.hasSufficientOutputBufferFor s.inputCursor = true ↔
      s.outputCursor + (36 + s.inputCursor + s.inputCursor / 6) < s.outputBuffer.length := by
  have hin := h.inputCursor_le
  have hmax : maxBlockSize = 536870912 := rfl
  have hn : Snappy.maxCompressedLength s.inputCursor =
      ((32 + s.inputCursor + s.inputCursor / 6 : Nat) : Int) :=
    Snappy.maxCompressedLength_natCast (by omega)
  simp only [hasSufficientOutputBufferFor, hn, decide_eq_true_eq]
  omega

/-- `compressInput` emits what is pending as one block. When the sink fails,
nothing is emitted and everything is still pending. -/
theorem wp_compressInput {codec : Codec} (hc : codec.Bounded) (hb : b ≤ maxBlockSize)
    {Q : Unit → SnappyOutputStream → Prop} {E : Throwable → SnappyOutputStream → Prop}
    (h : Open b rel cls s) {emitted : List Bytes} (he : Emitted codec cls emitted s)
    (hQ : ∀ t : SnappyOutputStream, Open b rel cls t → t.headerWritten = true →
      t.inputCursor = 0 → t.copied = s.copied →
      Emitted codec cls (emitted ++ if pending s = [] then [] else [pending s]) t → Q () t)
    (hSink : ∀ t : SnappyOutputStream, ¬ rel → Open b rel cls t → pending t = pending s →
      t.copied = s.copied → Emitted codec cls emitted t → E .underlyingException t)
    (hFault : ∀ t : SnappyOutputStream, cls = .snappyHadoopCompatibleOutputStream →
      Open b rel cls t → E (.memoryFault .rawCompress) t) :
    wp (compressInput codec cls) Q E s := by
  simp only [compressInput, wp_bind, wp_get, wp_when]
  apply wp_beginOutput h he
  intro t ht hw hp hcop hin he'
  have hlp := ht.length_pending
  split
  · rename_i h0
    have hne : pending s ≠ [] := by
      intro h0'
      rw [← hp] at h0'
      rw [h0'] at hlp
      simp at hlp; omega
    have hQ' : ∀ u : SnappyOutputStream, Open b rel cls u → u.headerWritten = true →
        u.inputCursor = 0 → u.copied = t.copied →
        Emitted codec cls (emitted ++ [pending t]) u → Q () u := by
      intro u hu hw' h0' hcop' he''
      refine hQ u hu hw' h0' (hcop'.trans hcop) ?_
      rwa [if_neg hne, ← hp]
    have hiff := hasSufficientOutputBufferFor_iff ht hb
    split
    · rename_i hfull
      apply wp_dumpOutput ht
      · intro o ho hrel
        have hu : Open b rel cls { t with out := o, outputCursor := 0 } :=
          { ht with outputCursor_le := Nat.zero_le _, reliable := hrel }
        have heu : Emitted codec cls emitted { t with out := o, outputCursor := 0 } := by
          simp only [Emitted, hw, if_true] at he' ⊢
          rw [← he', ← ho]
          simp [produced]
        refine wp_emitBlock hc hb hu hw heu (.inr ⟨rfl, ?_⟩) hQ' hFault
        rw [hfull] at hiff
        simp only [Bool.false_eq_true, false_iff] at hiff
        simp only; omega
      · intro o hrel ho
        refine hSink _ hrel { ht with reliable := fun hr => absurd hr hrel } hp hcop ?_
        simp only [Emitted, hw, if_true, produced, ho] at he' ⊢
        exact he'
    · rename_i hsuff
      simp only [Bool.not_eq_false] at hsuff
      exact wp_emitBlock hc hb ht hw he' (.inl ⟨rfl, hiff.mp hsuff⟩) hQ' hFault
  · rename_i h0
    have hz : t.inputCursor = 0 := by omega
    refine hQ t ht hw hz hcop ?_
    have : pending s = [] := by
      rw [← hp]
      exact List.eq_nil_of_length_eq_zero (by omega)
    simpa [this] using he'

end

/-! ## The public methods

`done` are the blocks of the segments that a flush has completed, `current` is
the data written since. The two are what has been copied into the stream. -/

structure Writing (codec : Codec) (cls : StreamClass) (b : Nat) (rel : Prop) (done : List Bytes)
    (current : Bytes) (s : SnappyOutputStream) : Prop extends Open b rel cls s where
  cut : ∃ emitted, Cut b current emitted (pending s) ∧ Emitted codec cls (done ++ emitted) s
  copied_eq : s.copied = done.flatten ++ current
  done_le : ∀ x ∈ done, x ≠ [] ∧ x.length ≤ b

section
variable {codec : Codec} {cls : StreamClass} {b : Nat} {rel : Prop} {done : List Bytes}
  {current : Bytes} {s : SnappyOutputStream}

/-- Bytes appended to the input buffer are pending. -/
theorem pending_splice (h : Open b rel cls s) (xs : Bytes) :
    pending { s with
      inputBuffer := splice s.inputBuffer s.inputCursor xs
      inputCursor := s.inputCursor + xs.length } = pending s ++ xs := by
  have h₁ := h.inputCursor_le
  have h₂ := h.length_input
  exact take_splice xs (by omega)

theorem Writing.push (h : Writing codec cls b rel done current s) (xs : Bytes)
    (hl : s.inputCursor + xs.length ≤ b) :
    Writing codec cls b rel done (current ++ xs) { s with
      inputBuffer := splice s.inputBuffer s.inputCursor xs
      inputCursor := s.inputCursor + xs.length
      copied := s.copied ++ xs } := by
  obtain ⟨emitted, hcut, he⟩ := h.cut
  refine { h with
    length_input := ?_, inputCursor_le := hl, cut := ⟨emitted, ?_, he⟩, copied_eq := ?_ }
  · rw [length_splice (by rw [h.length_input]; exact hl), h.length_input]
  · have hp := pending_splice h.toOpen xs
    simp only [pending] at hp hcut ⊢
    rw [hp]
    exact hcut.push xs (by rw [← pending, h.length_pending]; exact hl)
  · rw [h.copied_eq, List.append_assoc]

/-- Compressing a full input buffer emits one more block of the segment. -/
theorem wp_compressInput_full (hc : codec.Bounded) (hb : b ≤ maxBlockSize)
    {Q : Unit → SnappyOutputStream → Prop} {E : Throwable → SnappyOutputStream → Prop}
    (h : Writing codec cls b rel done current s) (hb0 : 0 < b) (hfull : b ≤ s.inputCursor)
    (hQ : ∀ t : SnappyOutputStream, Writing codec cls b rel done current t →
      t.inputCursor = 0 → Q () t)
    (hSink : ∀ t : SnappyOutputStream, ¬ rel → Writing codec cls b rel done current t →
      E .underlyingException t)
    (hFault : ∀ t : SnappyOutputStream, cls = .snappyHadoopCompatibleOutputStream →
      Open b rel cls t → E (.memoryFault .rawCompress) t) :
    wp (compressInput codec cls) Q E s := by
  obtain ⟨emitted, hcut, he⟩ := h.cut
  have hlen : (pending s).length = b := by
    rw [h.length_pending]
    exact Nat.le_antisymm h.inputCursor_le hfull
  have hne : pending s ≠ [] := by
    intro h0
    rw [h0] at hlen
    simp at hlen; omega
  apply wp_compressInput hc hb h.toOpen he
  · intro t ht _ h0 hcop he'
    rw [if_neg hne, List.append_assoc] at he'
    refine hQ t { ht with
      cut := ⟨emitted ++ [pending s], ?_, he'⟩, copied_eq := hcop.trans h.copied_eq
      done_le := h.done_le } h0
    have : pending t = [] := by simp [pending, h0]
    rw [this]
    exact hcut.emit hlen
  · intro t hr ht hp hcop he'
    exact hSink t hr { ht with
      cut := ⟨emitted, by rw [hp]; exact hcut, he'⟩, copied_eq := hcop.trans h.copied_eq
      done_le := h.done_le }
  · exact hFault

/-- `write(int)` appends one byte. -/
theorem wp_writeByte (hc : codec.Bounded) (hb0 : 0 < b) (hb : b ≤ maxBlockSize)
    {Q : Unit → SnappyOutputStream → Prop} {E : Throwable → SnappyOutputStream → Prop}
    (h : Writing codec cls b rel done current s) {x : Int}
    (hQ : ∀ t : SnappyOutputStream, Writing codec cls b rel done (current ++ [toByte x]) t → Q () t)
    (hSink : ∀ t : SnappyOutputStream, ¬ rel → Writing codec cls b rel done current t →
      E .underlyingException t)
    (hFault : ∀ t : SnappyOutputStream, cls = .snappyHadoopCompatibleOutputStream →
      Open b rel cls t → E (.memoryFault .rawCompress) t) :
    wp (writeByte codec cls x) Q E s := by
  have hput : ∀ t : SnappyOutputStream, Writing codec cls b rel done current t →
      t.inputCursor < b → wp (putByte (toByte x)) Q E t := by
    intro t ht hlt
    have hlt' : t.inputCursor < t.inputBuffer.length := by rw [ht.length_input]; exact hlt
    simp only [putByte, wp_bind, wp_get, wp_set, wp_ite, wp_modify, if_pos hlt']
    have hp := ht.push [toByte x] (by simpa using hlt)
    have hset : t.inputBuffer.set t.inputCursor (toByte x) =
        splice t.inputBuffer t.inputCursor [toByte x] := by
      rw [List.set_eq_take_append_cons_drop, if_pos hlt']
      simp [splice]
    rw [hset]
    exact hQ _ hp
  have hclosed : s.closed = false := h.notClosed
  simp only [writeByte, wp_bind, wp_get, wp_ite, wp_when, hclosed, Bool.false_eq_true, if_false]
  split
  · rename_i hfull
    rw [h.length_input] at hfull
    exact wp_compressInput_full hc hb h hb0 hfull
      (fun t ht h0 => hput t ht (by omega)) hSink hFault
  · rename_i hlt
    rw [h.length_input] at hlt
    exact hput s h (by omega)

/-- A copy that stays below the block size: it fails only for its source. -/
theorem wp_copyToInput {Q : Unit → SnappyOutputStream → Prop}
    {E : Throwable → SnappyOutputStream → Prop}
    (h : Writing codec cls b rel done current s) {copy : ArrayCopy} {a : Bytes} {offset : Int}
    {len : Nat} (hlen : s.inputCursor + len ≤ b)
    (hQ : ∀ t : SnappyOutputStream,
      Writing codec cls b rel done (current ++ slice a offset.toNat len) t →
      t.inputCursor = s.inputCursor + len → Q () t)
    (hSource : offset < 0 ∨ a.length < offset.toNat + len → E copy.sourceFault s) :
    wp (copyToInput copy a offset len) Q E s := by
  have hin := h.length_input
  simp only [copyToInput, wp_bind, wp_get, wp_ite, wp_throw, wp_set]
  split
  · rename_i hbad
    exact hSource hbad
  · rename_i hok
    have hl : (slice a offset.toNat len).length = len := length_slice a (by omega)
    rw [if_neg (by omega)]
    have hp := h.push (slice a offset.toNat len) (by rw [hl]; exact hlen)
    rw [hl] at hp
    exact hQ _ hp rfl

/-- `write(byte[], int, int)` and `rawWrite` append the bytes of the range. A
range outside the source array is the source's fault; no copy leaves
`inputBuffer`. -/
theorem wp_bulkWrite (hc : codec.Bounded) (hb0 : 0 < b) (hb : b ≤ maxBlockSize)
    {Q : Unit → SnappyOutputStream → Prop} {E : Throwable → SnappyOutputStream → Prop}
    (h : Writing codec cls b rel done current s) {copy : ArrayCopy} {a : Bytes} {off len : Int}
    (hQ : ∀ t data, Writing codec cls b rel done (current ++ data) t →
      (RangeOk a off len → data = slice a off.toNat len.toNat) → Q () t)
    (hSource : ∀ t data, ¬ RangeOk a off len → Writing codec cls b rel done (current ++ data) t →
      E copy.sourceFault t)
    (hSink : ∀ t data, ¬ rel → Writing codec cls b rel done (current ++ data) t →
      (RangeOk a off len → ∃ k ≤ len.toNat, data = slice a off.toNat k) →
      E .underlyingException t)
    (hFault : ∀ t, cls = .snappyHadoopCompatibleOutputStream → Open b rel cls t →
      E (.memoryFault .rawCompress) t) :
    wp (bulkWrite codec cls copy a off len) Q E s := by
  have hclosed : s.closed = false := h.notClosed
  simp only [bulkWrite, wp_bind, wp_get, wp_ite, hclosed, Bool.false_eq_true, if_false]
  refine wp_loop
    (fun cursor t => 0 ≤ cursor ∧ (0 ≤ len → cursor ≤ len) ∧ ∃ data,
      Writing codec cls b rel done (current ++ data) t ∧
      (RangeOk a off len → data = slice a off.toNat cursor.toNat))
    (fun cursor t => 2 * (len - cursor).toNat + if t.inputCursor < b then 0 else 1)
    ?_ ⟨le_refl _, fun h => h, [], by simpa using h, by simp⟩ (by split <;> omega)
  rintro cursor t ⟨h0, hle, data, hw, hdata⟩
  have hin := hw.inputCursor_le
  have hbs := hw.blockSize_eq
  -- emptying the full buffer at the end of a round
  have hround : ∀ (u : SnappyOutputStream) (data' : Bytes) (cursor' : Int),
      0 ≤ cursor' → (0 ≤ len → cursor' ≤ len) → b ≤ u.inputCursor →
      Writing codec cls b rel done (current ++ data') u →
      (RangeOk a off len → data' = slice a off.toNat cursor'.toNat) →
      2 * (len - cursor').toNat <
        2 * (len - cursor).toNat + (if t.inputCursor < b then 0 else 1) →
      wp (compressInput codec cls) (fun _ v => (0 ≤ cursor' ∧ (0 ≤ len → cursor' ≤ len) ∧
        ∃ data, Writing codec cls b rel done (current ++ data) v ∧
          (RangeOk a off len → data = slice a off.toNat cursor'.toNat)) ∧
        2 * (len - cursor').toNat + (if v.inputCursor < b then 0 else 1) <
          2 * (len - cursor).toNat + (if t.inputCursor < b then 0 else 1)) E u := by
    intro u data' cursor' h0' hle' hfull hu hdata' hmeasure
    apply wp_compressInput_full hc hb hu hb0 hfull
    · intro v hv hz
      refine ⟨⟨h0', hle', data', hv, hdata'⟩, ?_⟩
      rw [hz, if_pos hb0]
      exact hmeasure
    · intro v hr hv
      refine hSink v data' hr hv ?_
      intro hok
      have := hle' hok.2.1
      exact ⟨cursor'.toNat, by omega, hdata' hok⟩
    · exact hFault
  simp only [writeRound, wp_ite, wp_bind, wp_get, wp_when, wp_pure, Sum.elim_inl, Sum.elim_inr]
  split
  · rename_i hlt
    split
    · rename_i hread
      have hb' : (t.blockSize : Int) = b := by rw [hbs]
      apply wp_copyToInput hw (by omega)
      · intro u hu hcur
        have hub := hu.blockSize_eq
        have hdata' : RangeOk a off len →
            data ++ slice a (Words.wrap32 (off + cursor)).toNat
              (min (len - cursor) ((t.blockSize : Int) - t.inputCursor)).toNat =
            slice a off.toNat
              (cursor + min (len - cursor) ((t.blockSize : Int) - t.inputCursor)).toNat := by
          intro hok
          have hoff := hok.1
          have hend := hok.2.2.2
          rw [Words.wrap32_of_range (by omega) (by omega), hdata hok,
            show (off + cursor).toNat = off.toNat + cursor.toNat by omega, slice_append]
          congr 1
          omega
        rw [List.append_assoc] at hu
        split
        · rename_i hpart
          -- the data ended inside the block
          refine hQ u _ hu ?_
          intro hok
          rw [hdata' hok]
          congr 1
          omega
        · rename_i hfull
          rw [hub] at hfull
          exact hround u _ _ (by omega) (by omega) (by omega) hu hdata' (by
            split <;> omega)
      · intro hbad
        refine hSource t data ?_ hw
        intro hok
        have hoff := hok.1
        have hend := hok.2.2
        rw [Words.wrap32_of_range (by omega) (by omega)] at hbad
        omega
    · rename_i hread
      have hfull : ¬ t.inputCursor < t.blockSize := by omega
      rw [if_neg hfull]
      have hz : cursor + min (len - cursor) ((t.blockSize : Int) - t.inputCursor) = cursor := by
        omega
      rw [hz]
      exact hround t data cursor h0 hle (by omega) hw hdata (by rw [if_neg (by omega)]; omega)
  · rename_i hge
    refine hQ t data hw ?_
    intro hok
    have hlen := hle hok.2.1
    rw [hdata hok, show cursor = len by omega]

/-- `flush` completes the segment and leaves nothing in the output buffer. If
the sink fails, the segment is still open or it is complete. -/
theorem wp_flush (hc : codec.Bounded) (hb0 : 0 < b) (hb : b ≤ maxBlockSize)
    {Q : Unit → SnappyOutputStream → Prop} {E : Throwable → SnappyOutputStream → Prop}
    (h : Writing codec cls b rel done current s)
    (hQ : ∀ t : SnappyOutputStream, Writing codec cls b rel (done ++ blocks b current) [] t →
      t.out.received = headerBytes cls ++
        (done ++ blocks b current).flatMap (encodeBlock codec cls) → Q () t)
    (hSink : ∀ t : SnappyOutputStream, ¬ rel → Writing codec cls b rel done current t ∨
      Writing codec cls b rel (done ++ blocks b current) [] t → E .underlyingException t)
    (hFault : ∀ t : SnappyOutputStream, cls = .snappyHadoopCompatibleOutputStream →
      Open b rel cls t → E (.memoryFault .rawCompress) t) :
    wp (flush codec cls) Q E s := by
  have hclosed : s.closed = false := h.notClosed
  obtain ⟨emitted, hcut, he⟩ := h.cut
  have hblocks : emitted ++ (if pending s = [] then [] else [pending s]) = blocks b current := by
    split
    · rename_i hp
      rw [hp] at hcut
      rw [hcut.blocks_eq hb0, List.append_nil]
    · rename_i hp
      exact (hcut.blocks_eq_append hb0 hp).symm
  simp only [flush, wp_bind, wp_get, wp_ite, hclosed, Bool.false_eq_true, if_false]
  apply wp_compressInput hc hb h.toOpen he
  · intro t ht hw h0 hcop he'
    rw [List.append_assoc, hblocks] at he'
    have hpend : pending t = [] := by simp [pending, h0]
    have hcopied : t.copied = (done ++ blocks b current).flatten ++ [] := by
      rw [hcop, h.copied_eq, List.flatten_append, flatten_blocks hb0, List.append_nil]
    have hle : ∀ x ∈ done ++ blocks b current, x ≠ [] ∧ x.length ≤ b := by
      intro x hx
      rcases List.mem_append.mp hx with hx | hx
      · exact h.done_le x hx
      · exact ⟨ne_nil_of_mem_blocks hb0 hx, length_le_of_mem_blocks hb0 hx⟩
    simp only [Emitted, hw, if_true] at he'
    apply wp_dumpOutput ht
    · intro o ho hrel
      have hout : ∀ fs, Writing codec cls b rel (done ++ blocks b current) []
          { t with out := { o with failures := fs }, outputCursor := 0 } ∨ (rel ∧ fs ≠ []) := by
        intro fs
        by_cases hfs : rel ∧ fs ≠ []
        · exact .inr hfs
        · refine .inl { ht with
            outputCursor_le := Nat.zero_le _
            reliable := fun hr => by_contra fun hne => hfs ⟨hr, hne⟩
            copied_eq := hcopied
            done_le := hle
            cut := ⟨[], ?_, ?_⟩ }
          · exact hpend ▸ Cut.nil b
          · simpa [Emitted, hw, produced, ho] using he'
      simp only [onOut, wp_zoom]
      apply OutputStream.wp_flush
      · intro fs hfs
        refine hQ _ ((hout fs).resolve_right fun hr => hr.2 (hfs (hrel hr.1))) ?_
        simp [ho, he']
      · intro fs hne
        refine hSink _ (fun hr => hne (hrel hr)) (.inr ?_)
        exact (hout fs).resolve_right fun hr => hne (hrel hr.1)
    · intro o hr ho
      refine hSink _ hr (.inr { ht with
        reliable := fun h => absurd h hr
        copied_eq := hcopied
        done_le := hle
        cut := ⟨[], ?_, ?_⟩ })
      · exact hpend ▸ Cut.nil b
      · simpa [Emitted, hw, produced, ho] using he'
  · intro t hr ht hp hcop he'
    exact hSink t hr (.inl { ht with
      cut := ⟨emitted, by rw [hp]; exact hcut, he'⟩, copied_eq := hcop.trans h.copied_eq
      done_le := h.done_le })
  · exact hFault

/-- `close` after a flush that succeeds leaves the sink with everything. -/
theorem wp_close (hc : codec.Bounded) (hb0 : 0 < b) (hb : b ≤ maxBlockSize)
    {Q : Unit → SnappyOutputStream → Prop} {E : Throwable → SnappyOutputStream → Prop}
    (h : Writing codec cls b rel done current s)
    (hQ : ∀ t : SnappyOutputStream, t.closed = true → t.out.received = headerBytes cls ++
      (done ++ blocks b current).flatMap (encodeBlock codec cls) → Q () t)
    (hSink : ∀ t : SnappyOutputStream, ¬ rel → t.closed = true → E .underlyingException t)
    (hFault : ∀ t : SnappyOutputStream, cls = .snappyHadoopCompatibleOutputStream →
      (∀ c ∈ t.compressCalls, CallOk cls c) → t.closed = true →
      E (.memoryFault .rawCompress) t) :
    wp (close codec cls) Q E s := by
  have hclosed : s.closed = false := h.notClosed
  simp only [close, wp_bind, wp_get, wp_ite, hclosed, Bool.false_eq_true, if_false, wp_ensuring,
    wp_modify]
  apply wp_flush hc hb0 hb h
  · intro t ht hrec
    simp only [onOut, wp_zoom]
    apply OutputStream.wp_close
    · intro fs _
      exact hQ _ rfl hrec
    · intro fs hne
      exact hSink _ (fun hr => hne (ht.reliable hr)) rfl
  · intro t hr _
    exact hSink _ hr rfl
  · intro t hh ht
    exact hFault _ hh ht.calls rfl

end

end SnappyJava.SnappyOutputStream
