import SnappyJava.BlockWriter
import SnappyJava.LiteralCodec

/-! Whole runs of a `SnappyOutputStream`: the calls made on it, the data they
carry, and what the sink has received when a flush or the close returns. -/

namespace SnappyJava.SnappyOutputStream

open Exec Memory Blocks

/-- The library's allocators hand out arrays of exactly the requested length. -/
def ExactAllocator (allocate : Nat → Bytes) : Prop := ∀ n, (allocate n).length = n

theorem exactAllocator_newArray : ExactAllocator newArray := length_newArray

namespace WriteCall

/-- The data of a call, or `none` where the call ends a segment. -/
def part : WriteCall → Option Bytes
  | .writeByte x => some [toByte x]
  | .write a off len => some (slice a off.toNat len.toNat)
  | .rawWrite a off len => some (slice a off.toNat len.toNat)
  | .writeArray t d off len => some (slice d (off * t.size).toNat (len * t.size).toNat)
  | .flush => none

/-- The bytes the caller passes. -/
def bytes (c : WriteCall) : Bytes := c.part.getD []

/-- The range is inside the array, and its byte offsets are below 2^31. -/
def InRange : WriteCall → Prop
  | .writeByte _ => True
  | .write a off len => RangeOk a off len
  | .rawWrite a off len => RangeOk a off len
  | .writeArray t d off len =>
    RangeOk d (off * t.size) (len * t.size) ∧ off * t.size < 2 ^ 31 ∧ len * t.size < 2 ^ 31
  | .flush => True

instance : DecidablePred InRange
  | .writeByte _ => inferInstanceAs (Decidable True)
  | .write _ _ _ => inferInstanceAs (Decidable (RangeOk _ _ _))
  | .rawWrite _ _ _ => inferInstanceAs (Decidable (RangeOk _ _ _))
  | .writeArray _ _ _ _ => inferInstanceAs (Decidable (_ ∧ _))
  | .flush => inferInstanceAs (Decidable True)

end WriteCall

/-- The data of the calls, cut where they flush. -/
def segments (calls : List WriteCall) : List Bytes := Blocks.segments (calls.map WriteCall.part)

theorem flatten_segments (calls : List WriteCall) :
    (segments calls).flatten = calls.flatMap WriteCall.bytes := by
  rw [segments, Blocks.flatten_segments, List.flatMap_map]
  rfl

section
variable {codec : Codec} {cls : StreamClass} {b : Nat} {s : SnappyOutputStream}

/-- A stream just constructed has written nothing. -/
theorem new_writing {allocate : Nat → Bytes} (ha : ExactAllocator allocate) {out : OutputStream}
    (hout : out.received = []) {rel : Prop} (hrel : rel → out.failures = []) {blockSize : Int}
    (hmin : 1024 ≤ blockSize) (hmax : blockSize ≤ maxBlockSize) (codec : Codec)
    (cls : StreamClass) :
    ∃ s, new allocate out blockSize = .ok s ∧
      Writing codec cls blockSize.toNat rel [] [] s := by
  have hM : maxBlockSize = 536870912 := rfl
  have hm : (minBlockSize : Int) = 1024 := rfl
  have hmx : max (minBlockSize : Int) blockSize = blockSize := by omega
  have hlen : Snappy.maxCompressedLength blockSize =
      ((32 + blockSize.toNat + blockSize.toNat / 6 : Nat) : Int) := by
    have h := Snappy.maxCompressedLength_natCast (n := blockSize.toNat) (by omega)
    rwa [Int.toNat_of_nonneg (by omega)] at h
  simp only [new, hmx, hlen, SnappyCodec.headerSize_eq]
  rw [if_neg (by omega), if_neg (by omega)]
  refine ⟨_, rfl, ⟨⟨rfl, ha _, ?_, rfl, Nat.zero_le _, Nat.zero_le _, hrel, by simp⟩, ?_, rfl, by simp⟩⟩
  · rw [ha]; omega
  · exact ⟨[], Cut.nil _, by simp [Emitted, produced, hout]⟩

/-- One call from a stream with a reliable sink. Only the subclass can be left
without room. -/
theorem wp_perform (hc : codec.Bounded) (hb0 : 0 < b) (hb : b ≤ maxBlockSize)
    {g : List Bytes × Bytes} (h : Writing codec cls b True g.1 g.2 s) {c : WriteCall}
    (hr : c.InRange) :
    wp (perform codec cls c)
      (fun _ t => Writing codec cls b True (advance b g c.part).1 (advance b g c.part).2 t)
      (fun e t => e = .memoryFault .rawCompress ∧ cls = .snappyHadoopCompatibleOutputStream ∧
        Open b True cls t) s := by
  have hbulk : ∀ (copy : ArrayCopy) (a : Bytes) (off len : Int), RangeOk a off len →
      wp (bulkWrite codec cls copy a off len)
        (fun _ t => Writing codec cls b True g.1 (g.2 ++ slice a off.toNat len.toNat) t)
        (fun e t => e = .memoryFault .rawCompress ∧ cls = .snappyHadoopCompatibleOutputStream ∧
          Open b True cls t) s := by
    intro copy a off len hok
    apply wp_bulkWrite hc hb0 hb h
    · intro t data ht hdata
      rwa [hdata hok] at ht
    · intro t _ hbad
      exact absurd hok hbad
    · intro t data hrel
      exact absurd trivial hrel
    · intro t hh ht
      exact ⟨rfl, hh, ht⟩
  cases c with
  | writeByte x =>
    apply wp_writeByte hc hb0 hb h
    · intro t ht
      exact ht
    · intro t hrel
      exact absurd trivial hrel
    · intro t hh ht
      exact ⟨rfl, hh, ht⟩
  | write a off len => exact hbulk _ _ _ _ hr
  | rawWrite a off len => exact hbulk _ _ _ _ hr
  | writeArray t d off len =>
    obtain ⟨hok, hoff, hlen⟩ := hr
    have h₁ := hok.1
    have h₂ := hok.2.1
    simp only [perform, writeArray, rawWrite]
    rw [Words.wrap32_of_range (by omega) hoff, Words.wrap32_of_range (by omega) hlen]
    exact hbulk _ _ _ _ hok
  | flush =>
    apply wp_flush hc hb0 hb h
    · intro t ht _
      exact ht
    · intro t hrel
      exact absurd trivial hrel
    · intro t hh ht
      exact ⟨rfl, hh, ht⟩

theorem wp_run (hc : codec.Bounded) (hb0 : 0 < b) (hb : b ≤ maxBlockSize)
    {g : List Bytes × Bytes} (h : Writing codec cls b True g.1 g.2 s) {calls : List WriteCall}
    (hr : ∀ c ∈ calls, c.InRange) :
    wp (run codec cls calls)
      (fun _ t => Writing codec cls b True ((calls.map WriteCall.part).foldl (advance b) g).1
        ((calls.map WriteCall.part).foldl (advance b) g).2 t)
      (fun e t => e = .memoryFault .rawCompress ∧ cls = .snappyHadoopCompatibleOutputStream ∧
        Open b True cls t) s := by
  rw [List.foldl_map]
  exact wp_runAll (fun (g : List Bytes × Bytes) t => Writing codec cls b True g.1 g.2 t)
    (fun g c => advance b g c.part) (fun _ _ _ hc' ht => wp_perform hc hb0 hb ht hc') hr h

/-! ## The encoding at the sink -/

/-- `run`, then `flush`. -/
def runFlush (codec : Codec) (cls : StreamClass) (calls : List WriteCall) : Method Unit := do
  let _ ← run codec cls calls
  flush codec cls

/-- `run`, then `close`. -/
def runClose (codec : Codec) (cls : StreamClass) (calls : List WriteCall) : Method Unit := do
  let _ ← run codec cls calls
  close codec cls

theorem advance_reference (codec : Codec) (cls : StreamClass) (b : Nat) (calls : List WriteCall) :
    headerBytes cls ++ (((calls.map WriteCall.part).foldl (advance b) ([], [])).1 ++
        blocks b ((calls.map WriteCall.part).foldl (advance b) ([], [])).2).flatMap
          (encodeBlock codec cls) =
      reference codec cls b (segments calls) := by
  rw [advance_nil_blocks, reference, segments, List.nil_append]

theorem wp_runFlush (hc : codec.Bounded) (hb0 : 0 < b) (hb : b ≤ maxBlockSize)
    (h : Writing codec cls b True [] [] s) {calls : List WriteCall} (hr : ∀ c ∈ calls, c.InRange) :
    wp (runFlush codec cls calls)
      (fun _ t => t.out.received = reference codec cls b (segments calls))
      (fun e _ => e = .memoryFault .rawCompress ∧ cls = .snappyHadoopCompatibleOutputStream) s := by
  simp only [runFlush, wp_bind]
  refine wp_mono (wp_run hc hb0 hb (g := ([], [])) h hr) ?_ (fun e t h => ⟨h.1, h.2.1⟩)
  intro _ t ht
  apply wp_flush hc hb0 hb ht
  · intro u _ hrec
    rw [hrec, advance_reference]
  · intro u hrel
    exact absurd trivial hrel
  · intro u hh _
    exact ⟨rfl, hh⟩

theorem wp_runClose (hc : codec.Bounded) (hb0 : 0 < b) (hb : b ≤ maxBlockSize)
    (h : Writing codec cls b True [] [] s) {calls : List WriteCall} (hr : ∀ c ∈ calls, c.InRange) :
    wp (runClose codec cls calls)
      (fun _ t => t.out.received = reference codec cls b (segments calls))
      (fun e _ => e = .memoryFault .rawCompress ∧ cls = .snappyHadoopCompatibleOutputStream) s := by
  simp only [runClose, wp_bind]
  refine wp_mono (wp_run hc hb0 hb (g := ([], [])) h hr) ?_ (fun e t h => ⟨h.1, h.2.1⟩)
  intro _ t ht
  apply wp_close hc hb0 hb ht
  · intro u _ hrec
    rw [hrec, advance_reference]
  · intro u hrel
    exact absurd trivial hrel
  · intro u hh _ _
    exact ⟨rfl, hh⟩

end

/-- Batching does not change the format: what the sink holds when `close`
returns is the reference encoding of the segments between the flushes, whatever
calls carried the data. In the base class `close` returns; in the subclass it
does unless a compressed block does not fit its buffer. -/
theorem close_reference {codec : Codec} (hc : codec.Bounded) (cls : StreamClass)
    {allocate : Nat → Bytes} (ha : ExactAllocator allocate) {blockSize : Int}
    (hmin : 1024 ≤ blockSize) (hmax : blockSize ≤ 512 * 1024 * 1024) {calls : List WriteCall}
    (hr : ∀ c ∈ calls, c.InRange) :
    ∃ s, new allocate OutputStream.reliable blockSize = .ok s ∧
      wp (runClose codec cls calls)
        (fun _ t => t.out.received = reference codec cls blockSize.toNat (segments calls))
        (fun e _ => e = .memoryFault .rawCompress ∧ cls = .snappyHadoopCompatibleOutputStream)
        s := by
  have hM : maxBlockSize = 536870912 := rfl
  obtain ⟨s, hs, hw⟩ := @new_writing _ ha OutputStream.reliable rfl True (fun _ => rfl) _ hmin
    (by omega) codec cls
  exact ⟨s, hs, wp_runClose hc (by omega) (by omega) hw hr⟩

theorem close_reference_two_segments :
    ∃ s, new newArray .reliable 1024 = .ok s ∧
      wp (runClose literalCodec .snappyOutputStream
          [.write [1, 2, 3, 4] 1 2, .flush, .rawWrite [5, 6] 0 2, .writeByte 7])
        (fun _ t => t.out.received = reference literalCodec .snappyOutputStream 1024
          (segments [.write [1, 2, 3, 4] 1 2, .flush, .rawWrite [5, 6] 0 2, .writeByte 7]))
        (fun e _ => e = .memoryFault .rawCompress ∧
          StreamClass.snappyOutputStream = .snappyHadoopCompatibleOutputStream) s :=
  close_reference LiteralCodec.lawful.toBounded .snappyOutputStream exactAllocator_newArray
    (by decide) (by decide) (by decide)

end SnappyJava.SnappyOutputStream
