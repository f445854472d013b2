import SnappyJava.ByteArrays
import SnappyJava.BitShuffle

/-! Typed arrays through `Snappy` and `BitShuffle` and back: what returns of an
array after `compress`, after `shuffle`, and after both. -/

namespace SnappyJava

open Exec Memory Words Snappy

/-! ## The methods -/

namespace BitShuffle

/-- What the methods that return a typed array have in common. The native code
takes as many whole elements as `length / typeSize`. -/
def unshuffleArray (library : BitShuffleLibrary) (size : Nat) (input : Bytes) : Bytes :=
  let output := newArray (size * (input.length / size))
  splice output 0 (library.bitunshuffle size (input.take (input.length / size * size)))

def unshuffleShortArray (library : BitShuffleLibrary) (input : Bytes) : Bytes :=
  unshuffleArray library 2 input

def unshuffleIntArray (library : BitShuffleLibrary) (input : Bytes) : Bytes :=
  unshuffleArray library 4 input

def unshuffleLongArray (library : BitShuffleLibrary) (input : Bytes) : Bytes :=
  unshuffleArray library 8 input

def unshuffleFloatArray (library : BitShuffleLibrary) (input : Bytes) : Bytes :=
  unshuffleArray library 4 input

def unshuffleDoubleArray (library : BitShuffleLibrary) (input : Bytes) : Bytes :=
  unshuffleArray library 8 input

end BitShuffle

/-- The method that compresses an array of the type. -/
def PrimitiveType.compress (codec : Codec) :
    (t : PrimitiveType) → PrimitiveArray t.size → ArrayMethod Bytes
  | char, input => compressCharArray codec input
  | double, input => compressDoubleArray codec input
  | float, input => compressFloatArray codec input
  | int, input => compressIntArray codec input
  | long, input => compressLongArray codec input
  | short, input => compressShortArray codec input

namespace ElementType

/-- The method that shuffles an array of the type. -/
def shuffle (library : BitShuffleLibrary) :
    (t : ElementType) → PrimitiveArray t.size.toNat → ArrayMethod Bytes
  | short, input => BitShuffle.shuffleShortArray library input
  | int, input => BitShuffle.shuffleIntArray library input
  | long, input => BitShuffle.shuffleLongArray library input
  | float, input => BitShuffle.shuffleFloatArray library input
  | double, input => BitShuffle.shuffleDoubleArray library input

/-- The method that returns an array of the type. -/
def unshuffle (library : BitShuffleLibrary) : ElementType → Bytes → Bytes
  | short => BitShuffle.unshuffleShortArray library
  | int => BitShuffle.unshuffleIntArray library
  | long => BitShuffle.unshuffleLongArray library
  | float => BitShuffle.unshuffleFloatArray library
  | double => BitShuffle.unshuffleDoubleArray library

theorem size_cases (t : ElementType) :
    t.size.toNat = 2 ∨ t.size.toNat = 4 ∨ t.size.toNat = 8 := by
  cases t <;> decide

end ElementType

/-! ## Byte sizes -/

namespace PrimitiveArray

variable {size : Nat} (input : PrimitiveArray size)

/-- `input.length * size`, as the methods compute it. -/
def byteSize : Int := wrap32 (input.length * size)

theorem byteSize_of_lt {input : PrimitiveArray size} (h : size * input.length < 2 ^ 31) :
    input.byteSize = (size * input.length : Nat) := by
  have hmul : (input.length : Int) * size = ((size * input.length : Nat) : Int) := by
    push_cast
    exact Int.mul_comm _ _
  rw [byteSize, hmul, wrap32_of_range (by omega) (by omega)]

/-- An array that passes the guard of the methods: as many whole elements of it as
are handed on, and whether these are all. -/
theorem byteSize_of_passed (hsize : size = 2 ∨ size = 4 ∨ size = 8)
    (h : ¬ input.byteSize < input.length) :
    ∃ n : Nat, input.byteSize = n ∧ n < 2 ^ 31 ∧ size ∣ n ∧ n ≤ input.memory.length ∧
      (n = input.memory.length ↔ size * input.length < 2 ^ 31) := by
  have hlength := input.length_lt
  rw [input.length_memory]
  rw [byteSize, wrap32_eq] at h ⊢
  refine ⟨((input.length * size + 2 ^ 31) % 2 ^ 32 - 2 ^ 31 : Int).toNat, ?_⟩
  rcases hsize with rfl | rfl | rfl <;> omega

/-- Refused are only arrays whose byte size is no `int`. -/
theorem byteSize_of_refused (hsize : size = 2 ∨ size = 4 ∨ size = 8)
    (h : input.byteSize < input.length) : 2 ^ 31 ≤ size * input.length := by
  by_contra hlt
  rw [byteSize_of_lt (by omega)] at h
  rcases hsize with rfl | rfl | rfl <;> omega

end PrimitiveArray

/-! ## Shuffling and back -/

-- Neither is to be evaluated in search of the branch a method takes.
attribute [local irreducible] wrap32 maxCompressedLength

namespace BitShuffle

variable {library : BitShuffleLibrary} {size : Nat}

/-- Whole elements that have been shuffled are unshuffled. -/
theorem unshuffleArray_bitshuffle (hlib : library.Lawful) {x : Bytes} (h : size ∣ x.length) :
    unshuffleArray library size (library.bitshuffle size x) = x := by
  have hlen := library.length_bitshuffle size x
  have hwhole : x.length / size * size = x.length := Nat.div_mul_cancel h
  rw [unshuffleArray, hlen, hwhole, ← hlen, List.take_length, hlib size x h]
  refine splice_full (Nat.le_of_eq ?_)
  rw [length_newArray, hlen, Nat.mul_div_cancel' h]

/-- What is shuffled of an array that is not refused is whole elements from its
front. -/
theorem wp_shuffleArray {input : PrimitiveArray size} {Q : Bytes → NativeRecord → Prop}
    {E : Throwable → NativeRecord → Prop} {t : NativeRecord}
    (hsize : size = 2 ∨ size = 4 ∨ size = 8)
    (hthrow : 2 ^ 31 ≤ size * input.length → ∀ message, E (.snappyError .tooLargeInput message) t)
    (hreturn : ∀ n t, n < 2 ^ 31 → size ∣ n → n ≤ input.memory.length →
      (n = input.memory.length ↔ size * input.length < 2 ^ 31) →
      Q (library.bitshuffle size (input.memory.take n)) t) :
    wp (shuffleArray library input) Q E t := by
  by_cases h : input.byteSize < input.length
  · simp only [shuffleArray, PrimitiveArray.byteSize] at h ⊢
    rw [if_pos h]
    exact hthrow (input.byteSize_of_refused hsize h) _
  · obtain ⟨n, hn, hlt, hdvd, hle, hall⟩ := input.byteSize_of_passed hsize h
    have hwhole : n / size * size = n := Nat.div_mul_cancel hdvd
    have hfull : (newArray n).length ≤ (library.bitshuffle size (input.memory.take n)).length := by
      rw [library.length_bitshuffle, length_newArray, List.length_take_of_le hle]
    simp only [PrimitiveArray.byteSize] at h hn
    simp only [shuffleArray]
    rw [if_neg h, hn]
    simp only [wp_bind, wp_modify, wp_pure, Int.toNat_natCast, hwhole, splice_full hfull]
    exact hreturn n _ hlt hdvd hle hall

end BitShuffle

namespace ElementType

variable {library : BitShuffleLibrary}

theorem shuffle_eq (library : BitShuffleLibrary) (t : ElementType)
    (input : PrimitiveArray t.size.toNat) :
    t.shuffle library input = BitShuffle.shuffleArray library input := by
  cases t <;> rfl

theorem unshuffle_eq (library : BitShuffleLibrary) (t : ElementType) :
    t.unshuffle library = BitShuffle.unshuffleArray library t.size.toNat := by
  cases t <;> rfl

/-- Of an array that is shuffled and unshuffled a front part comes back, and all of
it just in case its byte size is an `int`; nothing else is refused. -/
theorem unshuffle_shuffle (hlib : library.Lawful) (t : ElementType)
    (input : PrimitiveArray t.size.toNat) (u : NativeRecord) :
    wp (t.shuffle library input)
      (fun shuffled _ => t.unshuffle library shuffled <+: input.memory ∧
        (t.unshuffle library shuffled = input.memory ↔ t.size.toNat * input.length < 2 ^ 31))
      (fun e _ => (∃ message, e = .snappyError .tooLargeInput message) ∧
        2 ^ 31 ≤ t.size.toNat * input.length) u := by
  rw [shuffle_eq, unshuffle_eq]
  refine BitShuffle.wp_shuffleArray t.size_cases (fun h message => ⟨⟨message, rfl⟩, h⟩) ?_
  intro n _ _ hdvd hle hall
  have hlen : (input.memory.take n).length = n := List.length_take_of_le hle
  rw [BitShuffle.unshuffleArray_bitshuffle hlib (by rwa [hlen])]
  refine ⟨List.take_prefix _ _, Iff.trans ?_ hall⟩
  rw [List.take_eq_self_iff]
  omega

/-- A `short[]` of two elements. -/
def shorts : PrimitiveArray 2 := ⟨2, [1, 2, 3, 4], by decide, rfl⟩

theorem unshuffle_shuffle_shorts :
    wp (ElementType.short.shuffle identityLibrary shorts)
      (fun shuffled _ => ElementType.short.unshuffle identityLibrary shuffled = shorts.memory)
      (fun _ _ => False) .empty :=
  wp_mono (unshuffle_shuffle BitShuffle.identityLibrary_lawful .short shorts .empty)
    (fun _ _ h => h.2.mpr (by decide)) (fun _ _ h => absurd h.2 (by decide))

/-- The array that is shuffled, compressed, uncompressed and unshuffled comes back,
unless the bound on the compressed size is no `int`. -/
theorem shuffled_round_trip {codec : Codec} (hcodec : codec.Lawful) (hlib : library.Lawful)
    (t : ElementType) (input : PrimitiveArray t.size.toNat)
    (h : t.size.toNat * input.length < 2 ^ 31) (u : NativeRecord) :
    wp (do
        let shuffled ← t.shuffle library input
        let compressed ← compressByteArray codec shuffled
        let uncompressed ← fromExcept (uncompressByteArray codec compressed)
        pure (t.unshuffle library uncompressed))
      (fun result _ => result = input.memory ∧
        32 + input.memory.length + input.memory.length / 6 < 2 ^ 31)
      (fun e _ => e = .negativeArraySizeException ∧
        ¬ 32 + input.memory.length + input.memory.length / 6 < 2 ^ 31) u := by
  rw [shuffle_eq, unshuffle_eq, wp_bind]
  refine BitShuffle.wp_shuffleArray t.size_cases (fun hlarge => absurd h (by omega)) ?_
  intro n v hlt hdvd hle hall
  have hn : n = input.memory.length := hall.mpr h
  have hlen := library.length_bitshuffle t.size.toNat (input.memory.take n)
  rw [List.length_take_of_le hle] at hlen
  have hwhole : input.memory.take n = input.memory := List.take_of_length_le (by omega)
  rw [hwhole] at hlen ⊢
  rw [wp_bind, compressByteArray, hlen]
  by_cases hbound : 32 + input.memory.length + input.memory.length / 6 < 2 ^ 31
  · refine wp_rawCompress_of_lt hcodec (by omega) (by omega) fun v => ?_
    have hkept : (library.bitshuffle t.size.toNat input.memory).take n =
        library.bitshuffle t.size.toNat input.memory := List.take_of_length_le (by omega)
    rw [← hn, hkept, uncompressByteArray_compress hcodec (by omega)]
    simp only [wp_bind, wp_fromExcept_ok, wp_pure]
    exact ⟨BitShuffle.unshuffleArray_bitshuffle hlib (by rwa [← hn]), by rwa [hn]⟩
  · exact wp_rawCompress_neg (by omega) (by omega) fun v => ⟨rfl, hbound⟩

theorem shuffled_round_trip_shorts :
    wp (do
        let shuffled ← ElementType.short.shuffle identityLibrary shorts
        let compressed ← compressByteArray literalCodec shuffled
        let uncompressed ← fromExcept (uncompressByteArray literalCodec compressed)
        pure (ElementType.short.unshuffle identityLibrary uncompressed))
      (fun result _ => result = shorts.memory) (fun _ _ => False) .empty :=
  wp_mono (shuffled_round_trip LiteralCodec.lawful BitShuffle.identityLibrary_lawful .short shorts
      (by decide) .empty)
    (fun _ _ h => h.1) (fun _ _ h => absurd h.2 (by decide))

end ElementType

/-! ## Compressing and back -/

namespace PrimitiveType

variable {codec : Codec}

theorem compress_eq (codec : Codec) (t : PrimitiveType) (input : PrimitiveArray t.size) :
    t.compress codec input = compressArray codec input := by
  cases t <;> rfl

theorem uncompress_eq (codec : Codec) (t : PrimitiveType) :
    t.uncompress codec = uncompressArray codec t.size := by
  cases t <;> rfl

/-- A compressed array anywhere in the input: its data comes back where it is a
whole number of elements, and does not fit the array that is made for it elsewhere. -/
theorem wp_uncompressArray {size : Nat} (hsize : size = 2 ∨ size = 4 ∨ size = 8) {input data : Bytes}
    {off len : Nat} (hdata : codec.rawUncompress (slice input off len) = .ok data)
    (hlt : data.length < 2 ^ 31) (u : NativeRecord) :
    wp (uncompressArray codec size input off len)
      (fun result _ => result = data ∧ size ∣ data.length)
      (fun e _ => e = .memoryFault .rawUncompress ∧ ¬ size ∣ data.length) u := by
  have hdeclared := codec.length_rawUncompress _ _ hdata
  have hlength : uncompressedLength codec (slice input off len) = .ok data.length :=
    uncompressedLength_of_lt hdeclared hlt
  have hdiv : ((data.length : Int)).tdiv size = (data.length / size : Nat) :=
    Int.natCast_tdiv_eq_ediv.trans (Int.natCast_ediv _ _).symm
  simp only [uncompressArray, hlength, wp_bind, wp_fromExcept_ok, hdiv, wp_ite, wp_throw, wp_modify,
    wp_pure, Int.toNat_natCast]
  rw [if_neg (not_lt.mpr (Int.natCast_nonneg _))]
  by_cases hdvd : size ∣ data.length
  · have hroom : size * (data.length / size) = data.length := Nat.mul_div_cancel' hdvd
    rw [hroom, uncompress_of_ok hdata (Nat.le_of_eq (length_newArray _).symm) hlt]
    exact ⟨splice_full (Nat.le_of_eq (length_newArray _)), hdvd⟩
  · have hshort : size * (data.length / size) < data.length := by
      rcases hsize with rfl | rfl | rfl <;> omega
    have hfault : (Snappy.uncompress codec (slice input off len)
        (newArray (size * (data.length / size)))).1 = .error (.memoryFault .rawUncompress) := by
      simp only [Snappy.uncompress, hdeclared, Option.getD_some, length_newArray]
      rw [if_pos hshort]
    rw [hfault]
    exact ⟨rfl, hdvd⟩

/-- An array compressed and then read, from between any other bytes, as an array of
any type: the same bytes come back, unless they are no whole number of elements of
that type or the bound on the compressed size is no `int`. -/
theorem typed_round_trip (hcodec : codec.Lawful) (t t' : PrimitiveType)
    (input : PrimitiveArray t.size) (h : t.size * input.length < 2 ^ 31) (before after : Bytes)
    (u : NativeRecord) :
    wp (do
        let compressed ← t.compress codec input
        t'.uncompress codec (before ++ compressed ++ after) before.length compressed.length)
      (fun result _ => result = input.memory ∧ t'.size ∣ t.size * input.length ∧
        32 + t.size * input.length + t.size * input.length / 6 < 2 ^ 31)
      (fun e _ =>
        (e = .negativeArraySizeException ∧
          ¬ 32 + t.size * input.length + t.size * input.length / 6 < 2 ^ 31) ∨
        (e = .memoryFault .rawUncompress ∧ ¬ t'.size ∣ t.size * input.length ∧
          32 + t.size * input.length + t.size * input.length / 6 < 2 ^ 31)) u := by
  have hlen := input.length_memory
  have hsize := PrimitiveArray.byteSize_of_lt h
  have hle : input.length ≤ t.size * input.length :=
    Nat.le_mul_of_pos_left _ (by have := t.size_cases; omega)
  rw [compress_eq, uncompress_eq, wp_bind]
  simp only [PrimitiveArray.byteSize] at hsize
  simp only [compressArray, hsize]
  rw [if_neg (by omega)]
  by_cases hbound : 32 + t.size * input.length + t.size * input.length / 6 < 2 ^ 31
  · refine wp_rawCompress_of_lt hcodec (by omega) hbound fun v => ?_
    have hwhole : input.memory.take (t.size * input.length) = input.memory :=
      List.take_of_length_le (by omega)
    rw [hwhole]
    have hthere : slice (before ++ codec.compress input.memory ++ after) before.length
        (codec.compress input.memory).length = codec.compress input.memory := by
      rw [slice, List.append_assoc, List.drop_left, List.take_left]
    have hback := hcodec.rawUncompress_compress input.memory (by omega)
    refine wp_mono (wp_uncompressArray t'.size_cases (by rw [hthere]; exact hback) (by omega) v) ?_ ?_
    · rintro result _ ⟨rfl, hdvd⟩
      exact ⟨rfl, by rwa [← hlen], hbound⟩
    · rintro e _ ⟨rfl, hdvd⟩
      exact .inr ⟨rfl, by rwa [← hlen], hbound⟩
  · exact wp_rawCompress_neg h hbound fun v => .inl ⟨rfl, hbound⟩

/-- Two `short`s are half of a `long`. -/
theorem typed_round_trip_shorts :
    wp (do
        let compressed ← PrimitiveType.short.compress literalCodec ElementType.shorts
        PrimitiveType.long.uncompress literalCodec ([7] ++ compressed ++ [8]) 1 compressed.length)
      (fun _ _ => False) (fun e _ => e = .memoryFault .rawUncompress) .empty :=
  wp_mono (typed_round_trip LiteralCodec.lawful .short .long ElementType.shorts (by decide) [7] [8]
      .empty)
    (fun _ _ h => absurd h.2.1 (by decide))
    (fun _ _ h => h.elim (fun h => absurd h.2 (by decide)) (fun h => h.1))

end PrimitiveType

end SnappyJava
