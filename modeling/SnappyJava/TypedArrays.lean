import SnappyJava.LiteralCodec

/-! The methods of `Snappy` and `BitShuffle` that take or return arrays of
elements wider than a byte: the byte size they compute for the native code, and
the arrays they allocate for it to write to. -/

namespace SnappyJava

open Exec Memory Words

/-! ## Arrays -/

/-- A Java array of elements of `size` bytes, as the native code sees it. -/
structure PrimitiveArray (size : Nat) where
  length : Nat
  memory : Bytes
  length_lt : length < 2 ^ 31
  length_memory : memory.length = size * length

/-- The element types of the arrays `Snappy` compresses. -/
inductive PrimitiveType
  | char | double | float | int | long | short
  deriving DecidableEq, Repr

def PrimitiveType.size : PrimitiveType → Nat
  | char => 2 | double => 8 | float => 4 | int => 4 | long => 8 | short => 2

/-- What has been handed to the native code: the byte size of each array, and
each call of the decompressor. -/
structure NativeRecord where
  byteSizes : List Int
  uncompressCalls : List UncompressCall

namespace NativeRecord

def empty : NativeRecord := ⟨[], []⟩

end NativeRecord

abbrev ArrayMethod := EStateM Throwable NativeRecord

/-- The native bitshuffle library: what it makes of so many bytes that are whole
elements of the given size. -/
structure BitShuffleLibrary where
  bitshuffle : Nat → Bytes → Bytes
  bitunshuffle : Nat → Bytes → Bytes
  length_bitshuffle : ∀ typeSize x, (bitshuffle typeSize x).length = x.length
  length_bitunshuffle : ∀ typeSize x, (bitunshuffle typeSize x).length = x.length

/-- What the library does to fewer than eight elements. -/
def identityLibrary : BitShuffleLibrary :=
  ⟨fun _ x => x, fun _ x => x, fun _ _ => rfl, fun _ _ => rfl⟩

/-! ## Compression -/

namespace Snappy

/-- `rawCompress(Object data, int byteSize)`. -/
def rawCompress (codec : Codec) (data : Bytes) (byteSize : Int) : ArrayMethod Bytes := do
  modify fun t => { t with byteSizes := t.byteSizes ++ [byteSize] }
  let bufSize := maxCompressedLength byteSize
  if bufSize < 0 then
    throw .negativeArraySizeException
  else
    let compressed := codec.compress (data.take byteSize.toNat)
    if bufSize < compressed.length then
      throw (.memoryFault .rawCompress)
    else
      pure compressed

/-- What the methods `compress` on typed arrays have in common. -/
def compressArray (codec : Codec) {size : Nat} (input : PrimitiveArray size) : ArrayMethod Bytes := do
  let byteSize := wrap32 (input.length * size)
  if byteSize < input.length then
    throw (.snappyError .tooLargeInput ("input array size is too large: " ++ toString input.length))
  else
    rawCompress codec input.memory byteSize

def compressCharArray (codec : Codec) (input : PrimitiveArray 2) : ArrayMethod Bytes :=
  compressArray codec input

def compressDoubleArray (codec : Codec) (input : PrimitiveArray 8) : ArrayMethod Bytes :=
  compressArray codec input

def compressFloatArray (codec : Codec) (input : PrimitiveArray 4) : ArrayMethod Bytes :=
  compressArray codec input

def compressIntArray (codec : Codec) (input : PrimitiveArray 4) : ArrayMethod Bytes :=
  compressArray codec input

def compressLongArray (codec : Codec) (input : PrimitiveArray 8) : ArrayMethod Bytes :=
  compressArray codec input

def compressShortArray (codec : Codec) (input : PrimitiveArray 2) : ArrayMethod Bytes :=
  compressArray codec input

end Snappy

namespace BitShuffle

/-- What the methods `shuffle` on typed arrays have in common. The native code
takes as many whole elements as `length / typeSize`. -/
def shuffleArray (library : BitShuffleLibrary) {size : Nat} (input : PrimitiveArray size) :
    ArrayMethod Bytes := do
  let byteSize := wrap32 (input.length * size)
  if byteSize < input.length then
    throw (.snappyError .tooLargeInput ("input array size is too large: " ++ toString input.length))
  else
    let output := newArray byteSize.toNat
    modify fun t => { t with byteSizes := t.byteSizes ++ [byteSize] }
    pure (splice output 0
      (library.bitshuffle size (input.memory.take (byteSize.toNat / size * size))))

def shuffleShortArray (library : BitShuffleLibrary) (input : PrimitiveArray 2) : ArrayMethod Bytes :=
  shuffleArray library input

def shuffleIntArray (library : BitShuffleLibrary) (input : PrimitiveArray 4) : ArrayMethod Bytes :=
  shuffleArray library input

def shuffleLongArray (library : BitShuffleLibrary) (input : PrimitiveArray 8) : ArrayMethod Bytes :=
  shuffleArray library input

def shuffleFloatArray (library : BitShuffleLibrary) (input : PrimitiveArray 4) : ArrayMethod Bytes :=
  shuffleArray library input

def shuffleDoubleArray (library : BitShuffleLibrary) (input : PrimitiveArray 8) : ArrayMethod Bytes :=
  shuffleArray library input

end BitShuffle

/-- The methods with a guard against arrays that are too large. -/
inductive GuardedMethod
  | compress (t : PrimitiveType)
  | shuffle (t : ElementType)
  deriving DecidableEq, Repr

namespace GuardedMethod

def size : GuardedMethod → Nat
  | compress t => t.size
  | shuffle t => t.size.toNat

def call (codec : Codec) (library : BitShuffleLibrary) :
    (m : GuardedMethod) → PrimitiveArray m.size → ArrayMethod Bytes
  | compress .char, input => Snappy.compressCharArray codec input
  | compress .double, input => Snappy.compressDoubleArray codec input
  | compress .float, input => Snappy.compressFloatArray codec input
  | compress .int, input => Snappy.compressIntArray codec input
  | compress .long, input => Snappy.compressLongArray codec input
  | compress .short, input => Snappy.compressShortArray codec input
  | shuffle .short, input => BitShuffle.shuffleShortArray library input
  | shuffle .int, input => BitShuffle.shuffleIntArray library input
  | shuffle .long, input => BitShuffle.shuffleLongArray library input
  | shuffle .float, input => BitShuffle.shuffleFloatArray library input
  | shuffle .double, input => BitShuffle.shuffleDoubleArray library input

/-- The method ends with `TOO_LARGE_INPUT` before anything is handed on. -/
structure Refuses (method : ArrayMethod Bytes) : Prop where
  run : ∃ message, wp method (fun _ _ => False)
    (fun e t => e = .snappyError .tooLargeInput message ∧ t.byteSizes = []) .empty

/-- However the method ends, it hands on this byte size and no other. -/
structure Passes (method : ArrayMethod Bytes) (byteSize : Int) : Prop where
  run : wp method (fun _ t => t.byteSizes = [byteSize]) (fun _ t => t.byteSizes = [byteSize]) .empty

/-- An array whose byte size is no `int` is refused, and of every other array the
true byte size is handed on. -/
def Exact (codec : Codec) (library : BitShuffleLibrary) (m : GuardedMethod)
    (input : PrimitiveArray m.size) : Prop :=
  if 2 ^ 31 - 1 < m.size * input.length then Refuses (m.call codec library input)
  else Passes (m.call codec library input) (m.size * input.length : Nat)

theorem Exact.refuses {codec : Codec} {library : BitShuffleLibrary} {m : GuardedMethod}
    {input : PrimitiveArray m.size} (h : m.Exact codec library input)
    (hlarge : 2 ^ 31 - 1 < m.size * input.length) : Refuses (m.call codec library input) := by
  rwa [Exact, if_pos hlarge] at h

theorem Passes.not_refuses {method : ArrayMethod Bytes} {byteSize : Int}
    (h : Passes method byteSize) : ¬ Refuses method := by
  rintro ⟨message, hfail⟩
  refine not_wp_false (wp_mono (wp_and hfail h.run) (fun _ _ h => h.1) ?_)
  rintro e t ⟨⟨-, hnil⟩, hone⟩
  rw [hnil] at hone
  cases hone

/-- The byte size has wrapped around `k` times and come out no smaller than the
number of elements. -/
def Missed (size length : Nat) : Prop :=
  ∃ k, 1 ≤ k ∧ k * 2 ^ 32 ≤ (size - 1) * length ∧ size * length < k * 2 ^ 32 + 2 ^ 31

theorem size_cases (m : GuardedMethod) : m.size = 2 ∨ m.size = 4 ∨ m.size = 8 := by
  cases m with
  | compress t => cases t <;> decide
  | shuffle t => cases t <;> decide

/-- Two-byte elements are never missed; the lengths of the others that are. -/
theorem missed_iff {size length : Nat} (hsize : size = 2 ∨ size = 4 ∨ size = 8)
    (hlength : length < 2 ^ 31) : Missed size length ↔
      (size = 4 ∧ 1431655766 ≤ length ∧ length ≤ 1610612735) ∨
      (size = 8 ∧ (613566757 ≤ length ∧ length ≤ 805306367 ∨
        1227133514 ≤ length ∧ length ≤ 1342177279 ∨
        1840700270 ≤ length ∧ length ≤ 1879048191)) := by
  constructor
  · rintro ⟨k, hk, hle, hlt⟩
    rcases hsize with rfl | rfl | rfl <;> omega
  · rintro (⟨rfl, h⟩ | ⟨rfl, h | h | h⟩)
    · exact ⟨1, by omega⟩
    · exact ⟨1, by omega⟩
    · exact ⟨2, by omega⟩
    · exact ⟨3, by omega⟩

/-- The guard compares the wrapped byte size with the number of elements. -/
theorem wrap32_lt_iff {size length : Nat} (hsize : size = 2 ∨ size = 4 ∨ size = 8)
    (hlength : length < 2 ^ 31) (hlarge : 2 ^ 31 - 1 < size * length) :
    wrap32 (length * size) < length ↔ ¬ Missed size length := by
  rw [missed_iff hsize hlength, wrap32_eq]
  rcases hsize with rfl | rfl | rfl <;> omega

/-- The method refuses the array exactly where the guard says so, and hands on the
wrapped byte size elsewhere. -/
structure Guards {size : Nat} (method : ArrayMethod Bytes) (input : PrimitiveArray size) : Prop where
  refuse : wrap32 (input.length * size) < input.length → Refuses method
  pass : ¬ wrap32 (input.length * size) < input.length →
    Passes method (wrap32 (input.length * size))

theorem passes_rawCompress (codec : Codec) (data : Bytes) (byteSize : Int) :
    Passes (Snappy.rawCompress codec data byteSize) byteSize := by
  refine ⟨?_⟩
  simp only [Snappy.rawCompress, wp_bind, wp_modify, wp_ite, wp_throw, wp_pure]
  split
  · rfl
  · split <;> rfl

section
variable {size : Nat}

theorem guards_compressArray (codec : Codec) (input : PrimitiveArray size) :
    Guards (Snappy.compressArray codec input) input where
  refuse h := by
    simp only [Snappy.compressArray, if_pos h]
    exact ⟨_, rfl, rfl⟩
  pass h := by
    simp only [Snappy.compressArray, if_neg h]
    exact passes_rawCompress codec _ _

theorem guards_shuffleArray (library : BitShuffleLibrary) (input : PrimitiveArray size) :
    Guards (BitShuffle.shuffleArray library input) input where
  refuse h := by
    simp only [BitShuffle.shuffleArray, if_pos h]
    exact ⟨_, rfl, rfl⟩
  pass h := by
    refine ⟨?_⟩
    simp only [BitShuffle.shuffleArray, if_neg h, wp_bind, wp_modify, wp_pure]
    rfl

end

theorem guards_call (codec : Codec) (library : BitShuffleLibrary) (m : GuardedMethod)
    (input : PrimitiveArray m.size) : Guards (m.call codec library input) input := by
  cases m with
  | compress t =>
    cases t with
    | char | short => exact @guards_compressArray 2 codec input
    | float | int => exact @guards_compressArray 4 codec input
    | double | long => exact @guards_compressArray 8 codec input
  | shuffle t =>
    cases t with
    | short => exact @guards_shuffleArray 2 library input
    | float | int => exact @guards_shuffleArray 4 library input
    | double | long => exact @guards_shuffleArray 8 library input

/-- The guard is exact just in case it does not miss the array. -/
theorem exact_iff_not_missed (codec : Codec) (library : BitShuffleLibrary) (m : GuardedMethod)
    (input : PrimitiveArray m.size) : m.Exact codec library input ↔ ¬ Missed m.size input.length := by
  have hcall := guards_call codec library m input
  have hlength := input.length_lt
  rw [Exact]
  split
  · rename_i hlarge
    have hiff := wrap32_lt_iff m.size_cases hlength hlarge
    constructor
    · intro hrefuse hmissed
      exact (hcall.pass (fun h => hiff.mp h hmissed)).not_refuses hrefuse
    · exact fun hmissed => hcall.refuse (hiff.mpr hmissed)
  · rename_i hsmall
    have hmul : (input.length : Int) * m.size = ((m.size * input.length : Nat) : Int) := by
      push_cast
      exact Int.mul_comm _ _
    have hwrap : wrap32 (input.length * m.size) = ((m.size * input.length : Nat) : Int) := by
      rw [hmul, wrap32_of_range (by omega) (by omega)]
    have hle : input.length ≤ m.size * input.length :=
      Nat.le_mul_of_pos_left _ (by have := m.size_cases; omega)
    refine iff_of_true ?_ ?_
    · have hpass := hcall.pass (by rw [hwrap]; omega)
      rwa [hwrap] at hpass
    · rintro ⟨k, hk, hmissed, -⟩
      have : (m.size - 1) * input.length ≤ m.size * input.length :=
        Nat.mul_le_mul_right _ (Nat.sub_le _ _)
      omega

/-- An `int[]` whose byte size wraps around to just above its length. -/
def missedArray : PrimitiveArray 4 :=
  ⟨1431655766, newArray (4 * 1431655766), by decide, length_newArray _⟩

theorem passes_missed (codec : Codec) {input : PrimitiveArray 4} (h : input.length = 1431655766) :
    Passes (Snappy.compressIntArray codec input) 1431655768 := by
  have hwrap : wrap32 ((input.length : Int) * (4 : Nat)) = 1431655768 := by
    rw [h]
    decide
  have hpass := (guards_compressArray codec input).pass (by rw [hwrap, h]; omega)
  rwa [hwrap] at hpass

/-- Its byte size is 5726623064, and `compress(int[])` hands on 1431655768. -/
theorem missedArray_passed :
    2 ^ 31 - 1 < 4 * missedArray.length ∧
      Passes (Snappy.compressIntArray literalCodec missedArray) 1431655768 ∧
      ¬ (GuardedMethod.compress .int).Exact literalCodec identityLibrary missedArray := by
  have hlarge : 2 ^ 31 - 1 < 4 * missedArray.length := by decide
  have hpass := @passes_missed literalCodec missedArray rfl
  exact ⟨hlarge, hpass, fun hexact => hpass.not_refuses (hexact.refuses hlarge)⟩

end GuardedMethod

/-! ## Decompression -/

namespace Snappy

/-- What the methods on `input[offset, offset + length)` that return a typed array
have in common: the array they return, as the native code leaves it. -/
def uncompressArray (codec : Codec) (size : Nat) (input : Bytes) (offset length : Nat) :
    ArrayMethod Bytes := do
  let src := slice input offset length
  let uncompressedLength ← fromExcept (uncompressedLength codec src)
  let resultLength := uncompressedLength.tdiv size
  if resultLength < 0 then
    throw .negativeArraySizeException
  else
    let result := newArray (size * resultLength.toNat)
    let r := uncompress codec src result
    let call : UncompressCall := ⟨(codec.getUncompressedLength src).getD 0, result.length⟩
    modify fun t => { t with uncompressCalls := t.uncompressCalls ++ [call] }
    let _ ← fromExcept r.1
    pure r.2

def uncompressCharArray (codec : Codec) (input : Bytes) (offset length : Nat) : ArrayMethod Bytes :=
  uncompressArray codec 2 input offset length

def uncompressDoubleArray (codec : Codec) (input : Bytes) (offset length : Nat) :
    ArrayMethod Bytes := uncompressArray codec 8 input offset length

def uncompressFloatArray (codec : Codec) (input : Bytes) (offset length : Nat) : ArrayMethod Bytes :=
  uncompressArray codec 4 input offset length

def uncompressIntArray (codec : Codec) (input : Bytes) (offset length : Nat) : ArrayMethod Bytes :=
  uncompressArray codec 4 input offset length

def uncompressLongArray (codec : Codec) (input : Bytes) (offset length : Nat) : ArrayMethod Bytes :=
  uncompressArray codec 8 input offset length

def uncompressShortArray (codec : Codec) (input : Bytes) (offset length : Nat) : ArrayMethod Bytes :=
  uncompressArray codec 2 input offset length

end Snappy

namespace PrimitiveType

/-- The method that returns an array of the type. -/
def uncompress (codec : Codec) : PrimitiveType → Bytes → Nat → Nat → ArrayMethod Bytes
  | char => Snappy.uncompressCharArray codec
  | double => Snappy.uncompressDoubleArray codec
  | float => Snappy.uncompressFloatArray codec
  | int => Snappy.uncompressIntArray codec
  | long => Snappy.uncompressLongArray codec
  | short => Snappy.uncompressShortArray codec

/-- No call of the native decompressor lacks room for what the block declares, and
an array that is returned has all of the data at its front. -/
def Contained (codec : Codec) (t : PrimitiveType) (input : Bytes) (offset length : Nat) : Prop :=
  wp (t.uncompress codec input offset length)
    (fun result u => (∀ c ∈ u.uncompressCalls, c.Fits) ∧
      ∃ data, codec.rawUncompress (slice input offset length) = .ok data ∧
        result.take data.length = data)
    (fun _ u => ∀ c ∈ u.uncompressCalls, c.Fits) .empty

/-- The declared length is a whole number of elements and below 2^31, or it is so
far from 0 as a signed number that the array has a negative size. -/
def Fitting (size declared : Nat) : Prop :=
  (declared < 2 ^ 31 ∧ size ∣ declared) ∨ (2 ^ 31 ≤ declared ∧ declared ≤ 2 ^ 32 - size)

instance (size declared : Nat) : Decidable (Fitting size declared) :=
  inferInstanceAs (Decidable (_ ∨ _))

theorem size_cases (t : PrimitiveType) : t.size = 2 ∨ t.size = 4 ∨ t.size = 8 := by
  cases t <;> decide

section
variable {codec : Codec} {size declared : Nat}

theorem tdiv_of_signed (h : declared < 2 ^ 31) :
    (wrap32 declared).tdiv size = (declared / size : Nat) := by
  rw [wrap32_of_range (by omega) (by omega)]
  exact Int.natCast_tdiv_eq_ediv.trans (Int.natCast_ediv _ _).symm

/-- Java divides towards zero. -/
theorem tdiv_of_unsigned (h : 2 ^ 31 ≤ declared) (hd : declared < 2 ^ 32) :
    (wrap32 declared).tdiv size = -((2 ^ 32 - declared) / size : Nat) := by
  have hwrap : wrap32 declared = -((2 ^ 32 - declared : Nat) : Int) := by
    rw [wrap32_eq]
    omega
  rw [hwrap, Int.neg_tdiv]
  exact congrArg _ (Int.natCast_tdiv_eq_ediv.trans (Int.natCast_ediv _ _).symm)

theorem tdiv_neg_iff (hsize : size = 2 ∨ size = 4 ∨ size = 8) (hd : declared < 2 ^ 32) :
    (wrap32 declared).tdiv size < 0 ↔ 2 ^ 31 ≤ declared ∧ declared ≤ 2 ^ 32 - size := by
  by_cases h : declared < 2 ^ 31
  · rw [tdiv_of_signed h]
    exact iff_of_false (not_lt.mpr (Int.natCast_nonneg _)) (by omega)
  · rw [tdiv_of_unsigned (by omega) hd]
    rcases hsize with rfl | rfl | rfl <;> omega

/-- The array is large enough just where nothing has been cut off. -/
theorem fits_iff (hsize : size = 2 ∨ size = 4 ∨ size = 8) (hd : declared < 2 ^ 32)
    (hnonneg : ¬ (wrap32 declared).tdiv size < 0) :
    declared ≤ size * ((wrap32 declared).tdiv size).toNat ↔ declared < 2 ^ 31 ∧ size ∣ declared := by
  by_cases h : declared < 2 ^ 31
  · rw [tdiv_of_signed h, Int.toNat_natCast]
    rcases hsize with rfl | rfl | rfl <;> omega
  · have hzero : ((wrap32 declared).tdiv size).toNat = 0 := by
      rw [tdiv_of_unsigned (by omega) hd]
      rcases hsize with rfl | rfl | rfl <;> omega
    rw [hzero]
    omega

/-- One call of the native decompressor. -/
theorem wp_uncompress_iff {src : Bytes} (hd : codec.getUncompressedLength src = some declared)
    (dest : Bytes) :
    wp (fromExcept (Snappy.uncompress codec src dest).1)
      (fun _ u => (∀ c ∈ u.uncompressCalls, c.Fits) ∧ ∃ data, codec.rawUncompress src = .ok data ∧
        (Snappy.uncompress codec src dest).2.take data.length = data)
      (fun _ u => ∀ c ∈ u.uncompressCalls, c.Fits)
      (⟨[], [⟨declared, dest.length⟩]⟩ : NativeRecord) ↔ declared ≤ dest.length := by
  have hone : (∀ c ∈ [UncompressCall.mk declared dest.length], c.Fits) ↔ declared ≤ dest.length := by
    simp [UncompressCall.Fits]
  by_cases hroom : declared ≤ dest.length
  · cases hx : codec.rawUncompress src with
    | ok data =>
      have hlen := codec.length_rawUncompress _ _ hx
      have hun : Snappy.uncompress codec src dest = (.ok (wrap32 declared), splice dest 0 data) := by
        simp only [Snappy.uncompress, hd, hx, Option.getD_some]
        rw [if_neg (by omega)]
      rw [hun]
      exact iff_of_true ⟨hone.mpr hroom, data, rfl, take_splice_zero dest data⟩ hroom
    | error written =>
      have hun : (Snappy.uncompress codec src dest).1 = .error (throw_error .failedToUncompress) := by
        simp only [Snappy.uncompress, hd, hx, Option.getD_some]
        rw [if_neg (by omega)]
      rw [hun]
      exact iff_of_true (hone.mpr hroom) hroom
  · have hun : (Snappy.uncompress codec src dest).1 = .error (.memoryFault .rawUncompress) := by
      simp only [Snappy.uncompress, hd, Option.getD_some]
      rw [if_pos (by omega)]
    rw [hun]
    exact iff_of_false (fun h => hroom (hone.mp h)) hroom

end

/-- The data stays inside the array just in case the block is malformed or its
declared length is fitting. -/
theorem contained_iff_fitting (codec : Codec) (t : PrimitiveType) (input : Bytes)
    (offset length : Nat) : Contained codec t input offset length ↔
      ∀ declared, codec.getUncompressedLength (slice input offset length) = some declared →
        Fitting t.size declared := by
  have hsize := t.size_cases
  have hcall : t.uncompress codec input offset length =
      Snappy.uncompressArray codec t.size input offset length := by
    cases t <;> rfl
  rw [Contained, hcall]
  cases hd : codec.getUncompressedLength (slice input offset length) with
  | none =>
    refine iff_of_true ?_ (by simp)
    simp only [Snappy.uncompressArray, Snappy.uncompressedLength, hd, wp_bind, wp_fromExcept_error]
    simp [NativeRecord.empty]
  | some declared =>
    have hlt := codec.getUncompressedLength_lt _ _ hd
    have hfits := @fits_iff t.size declared hsize hlt
    simp only [Option.some.injEq, forall_eq', Fitting]
    simp only [Snappy.uncompressArray, Snappy.uncompressedLength, hd, wp_bind, wp_fromExcept_ok,
      wp_ite, wp_throw, wp_modify, wp_pure, Option.getD_some, length_newArray]
    rw [← tdiv_neg_iff hsize hlt]
    split
    · rename_i hneg
      exact iff_of_true (by simp [NativeRecord.empty]) (.inr hneg)
    · rename_i hnonneg
      rw [or_iff_left hnonneg, ← hfits hnonneg]
      have hcall := @wp_uncompress_iff codec declared _ hd
        (newArray (t.size * ((wrap32 declared).tdiv t.size).toNat))
      rwa [length_newArray] at hcall

/-- A block of five bytes. -/
def fiveBytes : Bytes := literalCodec.compress [1, 2, 3, 4, 5]

/-- An `int[]` of one element is allocated for five bytes. -/
theorem fiveBytes_overflow :
    wp (Snappy.uncompressIntArray literalCodec fiveBytes 0 fiveBytes.length) (fun _ _ => False)
      (fun e u => e = .memoryFault .rawUncompress ∧ u.uncompressCalls = [⟨5, 4⟩]) .empty ∧
    ¬ Contained literalCodec .int fiveBytes 0 fiveBytes.length := by
  have hfault : wp (Snappy.uncompressIntArray literalCodec fiveBytes 0 fiveBytes.length)
      (fun _ _ => False)
      (fun e u => e = .memoryFault .rawUncompress ∧ u.uncompressCalls = [⟨5, 4⟩]) .empty := by
    decide +kernel
  refine ⟨hfault, fun h => not_wp_false (wp_mono (wp_and hfault h) (fun _ _ h => h.1) ?_)⟩
  rintro e u ⟨⟨-, hcalls⟩, hfits⟩
  rw [hcalls] at hfits
  exact absurd (hfits _ (List.mem_singleton_self _)) (by decide)

end PrimitiveType

end SnappyJava
