import SnappyJava.TypedArrays

/-! `Snappy` on byte arrays: whole arrays, and ranges of arrays whose offsets go
to the native code unchecked. -/

namespace SnappyJava

open Exec Memory Words

/-- Native code that touches the `len` bytes of `a` from `off` on stays in `a`. -/
def Inside (a : Bytes) (off len : Int) : Prop :=
  len = 0 ∨ (0 ≤ off ∧ 0 ≤ len ∧ off + len ≤ a.length)

instance (a : Bytes) (off len : Int) : Decidable (Inside a off len) :=
  inferInstanceAs (Decidable (_ ∨ _))

/-- What the native compressor does with the room behind the compressed bytes, which
it takes for its own up to the bound: how many bytes from the first on it touches,
and what it leaves behind the compressed bytes, given what was there. -/
structure Scratch (codec : Codec) where
  touched : Bytes → Nat
  left : Bytes → Bytes → Bytes
  length_compress_le : ∀ x, (codec.compress x).length ≤ touched x
  touched_le : ∀ x, x.length < 2 ^ 31 → touched x ≤ 32 + x.length + x.length / 6
  length_left : ∀ x behind, (left x behind).length = behind.length

namespace Snappy

/-! ## Ranges -/

/-- `rawCompress(Object, int, int, byte[], int)`: the result and the output array
after the call. The native code is not told where the output array ends. -/
def rawCompressRange (codec : Codec) (scratch : Scratch codec) (input : Bytes)
    (inputOffset inputLength : Int) (output : Bytes) (outputOffset : Int) :
    Except Throwable Int × Bytes :=
  if ¬ Inside input inputOffset inputLength then
    (.error (.memoryFault .rawCompress), output)
  else
    let src := slice input inputOffset.toNat inputLength.toNat
    if ¬ Inside output outputOffset (scratch.touched src) then
      (.error (.memoryFault .rawCompress), output)
    else
      let compressed := codec.compress src
      let behind := slice output (outputOffset.toNat + compressed.length)
        (scratch.touched src - compressed.length)
      (.ok (wrap32 compressed.length),
        splice output outputOffset.toNat (compressed ++ scratch.left src behind))

/-- `compress(byte[], int, int, byte[], int)`. -/
def compressRange (codec : Codec) (scratch : Scratch codec) (input : Bytes)
    (inputOffset inputLength : Int) (output : Bytes) (outputOffset : Int) :
    Except Throwable Int × Bytes :=
  rawCompressRange codec scratch input inputOffset inputLength output outputOffset

/-- What the native decompressor writes: the data of a good block, and of a bad one
what it has come to, no more than the block declares. -/
def written (codec : Codec) (src : Bytes) : Bytes :=
  match codec.rawUncompress src with
  | .ok data => data
  | .error data => data.take ((codec.getUncompressedLength src).getD 0)

/-- `rawUncompress(byte[], int, int, Object, int)`. -/
def rawUncompressRange (codec : Codec) (input : Bytes) (inputOffset inputLength : Int)
    (output : Bytes) (outputOffset : Int) : Except Throwable Int × Bytes :=
  if ¬ Inside input inputOffset inputLength then
    (.error (.memoryFault .rawUncompress), output)
  else
    let src := slice input inputOffset.toNat inputLength.toNat
    if ¬ Inside output outputOffset (written codec src).length then
      (.error (.memoryFault .rawUncompress), output)
    else
      let result : Except Throwable Int :=
        match codec.rawUncompress src with
        | .ok _ => .ok (wrap32 ((codec.getUncompressedLength src).getD 0 : Nat))
        | .error _ => .error (throw_error .failedToUncompress)
      (result, splice output outputOffset.toNat (written codec src))

/-- `uncompress(byte[], int, int, byte[], int)`. -/
def uncompressRange (codec : Codec) (input : Bytes) (inputOffset inputLength : Int) (output : Bytes)
    (outputOffset : Int) : Except Throwable Int × Bytes :=
  rawUncompressRange codec input inputOffset inputLength output outputOffset

/-! ## Whole arrays -/

/-- `compress(byte[])`. -/
def compressByteArray (codec : Codec) (input : Bytes) : ArrayMethod Bytes :=
  rawCompress codec input input.length

/-- `uncompress(byte[])`. -/
def uncompressByteArray (codec : Codec) (input : Bytes) : Except Throwable Bytes :=
  match uncompressedLength codec input with
  | .error e => .error e
  | .ok length =>
    if length < 0 then
      .error .negativeArraySizeException
    else
      match uncompressRange codec input 0 input.length (newArray length.toNat) 0 with
      | (.ok _, result) => .ok result
      | (.error e, _) => .error e

section
variable {codec : Codec} {input output : Bytes} {inputOffset inputLength outputOffset : Int}

theorem inside_natCast_iff {a : Bytes} {off len : Nat} (hoff : off ≤ a.length) :
    Inside a off len ↔ off + len ≤ a.length := by
  rw [Inside]
  omega

/-- What native code writes inside an array leaves it the array it is. -/
theorem length_splice_of_inside {a src : Bytes} {off : Int} (h : Inside a off src.length) :
    (splice a off.toNat src).length = a.length := by
  rcases h with hnil | ⟨hoff, -, hle⟩
  · rw [List.length_eq_zero_iff.mp (Int.natCast_eq_zero.mp hnil), splice_nil]
  · exact length_splice (by omega)

theorem length_written_le (codec : Codec) (src : Bytes) :
    (written codec src).length ≤ (codec.getUncompressedLength src).getD 0 := by
  cases hraw : codec.rawUncompress src with
  | ok data =>
    rw [codec.length_rawUncompress _ _ hraw, Option.getD_some, written, hraw]
  | error data =>
    rw [written, hraw]
    exact List.length_take_le _ _

/-- Of a block, anywhere in an array, that has room for what is written: the result,
and nothing else in the output array changes. -/
theorem rawUncompressRange_eq {off len outOff : Nat} (hin : off + len ≤ input.length)
    (hout : outOff + (written codec (slice input off len)).length ≤ output.length) :
    ∃ output', rawUncompressRange codec input off len output outOff =
      (match codec.rawUncompress (slice input off len) with
        | .ok _ => .ok (wrap32 ((codec.getUncompressedLength (slice input off len)).getD 0 : Nat))
        | .error _ => .error (throw_error .failedToUncompress), output') ∧
      Placed (written codec (slice input off len)) outOff
        (written codec (slice input off len)).length output output' := by
  have hread : Inside input off len := (inside_natCast_iff (by omega)).mpr hin
  have hwrite := (inside_natCast_iff (show outOff ≤ output.length by omega)).mpr hout
  refine ⟨_, ?_, placed_splice hout⟩
  rw [rawUncompressRange, if_neg (not_not_intro hread)]
  simp only [Int.toNat_natCast]
  rw [if_neg (not_not_intro hwrite)]

/-- What is written of a block, anywhere in an array, leaves the memory. -/
theorem rawUncompressRange_fault {off len outOff : Nat} (hin : off + len ≤ input.length)
    (hoff : outOff ≤ output.length)
    (hroom : output.length < outOff + (written codec (slice input off len)).length) :
    rawUncompressRange codec input off len output outOff =
      (.error (.memoryFault .rawUncompress), output) := by
  have hread : Inside input off len := (inside_natCast_iff (by omega)).mpr hin
  have hwrite := mt (inside_natCast_iff hoff).mp (Nat.not_le.mpr hroom)
  rw [rawUncompressRange, if_neg (not_not_intro hread)]
  simp only [Int.toNat_natCast]
  rw [if_pos hwrite]

/-- A good block anywhere in an array is uncompressed to a place in another. -/
theorem rawUncompressRange_ok {data : Bytes} {off len outOff : Nat} (hin : off + len ≤ input.length)
    (hdata : codec.rawUncompress (slice input off len) = .ok data) (hlen : data.length < 2 ^ 31)
    (hout : outOff + data.length ≤ output.length) :
    ∃ output', rawUncompressRange codec input off len output outOff = (.ok data.length, output') ∧
      Placed data outOff data.length output output' := by
  have hwritten : written codec (slice input off len) = data := by rw [written, hdata]
  have hcall := @rawUncompressRange_eq codec input output off len outOff hin (by rwa [hwritten])
  rw [hwritten, hdata, codec.length_rawUncompress _ _ hdata] at hcall
  simp only [Option.getD_some, wrap32_of_range (show -(2 ^ 31) ≤ (data.length : Int) by omega)
    (show (data.length : Int) < 2 ^ 31 by omega)] at hcall
  exact hcall

/-- On any bytes `uncompress(byte[])` stays in its memory: it returns the data of a
good block below 2^31 bytes, and otherwise throws one of three exceptions. -/
theorem uncompressByteArray_eq (codec : Codec) (input : Bytes) :
    uncompressByteArray codec input =
      match codec.getUncompressedLength input with
      | none => .error (throw_error .parsingError)
      | some declared =>
        if 2 ^ 31 ≤ declared then .error .negativeArraySizeException
        else
          match codec.rawUncompress input with
          | .ok data => .ok data
          | .error _ => .error (throw_error .failedToUncompress) := by
  cases hd : codec.getUncompressedLength input with
  | none => simp only [uncompressByteArray, uncompressedLength, hd]
  | some declared =>
    have hlt := codec.getUncompressedLength_lt _ _ hd
    simp only [uncompressByteArray, uncompressedLength, hd]
    by_cases hlarge : 2 ^ 31 ≤ declared
    · rw [if_pos hlarge, if_pos (by rw [wrap32_eq]; omega)]
    · have hwrap : wrap32 (declared : Int) = declared := wrap32_of_range (by omega) (by omega)
      have hwhole : slice input 0 input.length = input := by rw [slice_zero, List.take_length]
      have hroom := length_written_le codec input
      rw [hd, Option.getD_some] at hroom
      obtain ⟨output, hcall, hplaced⟩ := @rawUncompressRange_eq codec input (newArray declared) 0
        input.length 0 (by omega) (by rw [hwhole, length_newArray]; omega)
      simp only [hwhole, Int.ofNat_zero] at hcall hplaced
      rw [if_neg hlarge, hwrap, if_neg (by omega), uncompressRange, Int.toNat_natCast, hcall]
      cases hx : codec.rawUncompress input with
      | error written => rfl
      | ok data =>
        have hlen := codec.length_rawUncompress _ _ hx
        obtain rfl : declared = data.length := Option.some.inj (hd.symm.trans hlen)
        have hdata : written codec input = data := by rw [written, hx]
        have hthere := hplaced.slice_eq
        rw [hdata, slice_zero] at hthere
        have hall : output.take data.length = output :=
          List.take_of_length_le (by rw [hplaced.length_eq, length_newArray])
        exact congrArg Except.ok (hall.symm.trans hthere)

/-! ## Round trips -/

theorem maxCompressedLength_of_lt {n : Nat} (h : 32 + n + n / 6 < 2 ^ 31) :
    maxCompressedLength n = (32 + n + n / 6 : Nat) := by
  have hn : (n : Int) % 2 ^ 64 = n := Int.emod_eq_of_lt (by omega) (by omega)
  simp only [maxCompressedLength, hn]
  rw [wrap32_of_range (by omega) (by omega)]
  omega

/-- For large arrays the bound is no `int`. -/
theorem maxCompressedLength_neg {n : Nat} (h : n < 2 ^ 31) (hlarge : ¬ 32 + n + n / 6 < 2 ^ 31) :
    maxCompressedLength n < 0 := by
  have hn : (n : Int) % 2 ^ 64 = n := Int.emod_eq_of_lt (by omega) (by omega)
  simp only [maxCompressedLength, hn, wrap32_eq]
  omega

section
variable {n : Nat} {t : NativeRecord} {Q : Bytes → NativeRecord → Prop}
  {E : Throwable → NativeRecord → Prop}

/-- The buffer for the compressed bytes has room for them. -/
theorem wp_rawCompress_of_lt (hcodec : codec.Lawful) (hn : n ≤ input.length)
    (hlt : 32 + n + n / 6 < 2 ^ 31) (hQ : ∀ t, Q (codec.compress (input.take n)) t) :
    wp (rawCompress codec input n) Q E t := by
  have hlen : (input.take n).length = n := List.length_take_of_le hn
  have hbound := hcodec.length_compress_le (input.take n) (by omega)
  rw [hlen] at hbound
  have hmax := maxCompressedLength_of_lt hlt
  simp only [rawCompress, wp_bind, wp_modify, wp_ite, wp_throw, wp_pure, Int.toNat_natCast, hmax]
  rw [if_neg (by omega), if_neg (by omega)]
  exact hQ _

/-- The buffer for the compressed bytes would have a negative size. -/
theorem wp_rawCompress_neg (h : n < 2 ^ 31) (hlarge : ¬ 32 + n + n / 6 < 2 ^ 31)
    (hE : ∀ t, E .negativeArraySizeException t) : wp (rawCompress codec input n) Q E t := by
  have hneg := maxCompressedLength_neg h hlarge
  simp only [rawCompress, wp_bind, wp_modify, wp_throw, hneg, if_true]
  exact hE _

end

theorem uncompressByteArray_compress (hcodec : codec.Lawful) (h : input.length < 2 ^ 31) :
    uncompressByteArray codec (codec.compress input) = .ok input := by
  rw [uncompressByteArray_eq, hcodec.getUncompressedLength_compress h]
  simp only [hcodec.rawUncompress_compress input h]
  rw [if_neg (by omega)]

attribute [local irreducible] maxCompressedLength

/-- `compress(byte[])` throws just in case the bound on the compressed size
overflows; else what it returns is uncompressed to the input. -/
theorem compressByteArray_round_trip (hcodec : codec.Lawful) (h : input.length < 2 ^ 31)
    (t : NativeRecord) :
    wp (compressByteArray codec input)
      (fun compressed _ => 32 + input.length + input.length / 6 < 2 ^ 31 ∧
        uncompressByteArray codec compressed = .ok input)
      (fun e _ => e = .negativeArraySizeException ∧
        ¬ 32 + input.length + input.length / 6 < 2 ^ 31) t := by
  rw [compressByteArray]
  by_cases hlt : 32 + input.length + input.length / 6 < 2 ^ 31
  · refine wp_rawCompress_of_lt hcodec (Nat.le_refl _) hlt fun _ => ⟨hlt, ?_⟩
    rw [List.take_length]
    exact uncompressByteArray_compress hcodec h
  · exact wp_rawCompress_neg h hlt fun _ => ⟨rfl, hlt⟩

theorem compressByteArray_round_trip_fourBytes :
    wp (compressByteArray literalCodec [1, 2, 3, 4])
      (fun compressed _ => 32 + 4 + 4 / 6 < 2 ^ 31 ∧
        uncompressByteArray literalCodec compressed = .ok [1, 2, 3, 4])
      (fun e _ => e = .negativeArraySizeException ∧ ¬ 32 + 4 + 4 / 6 < 2 ^ 31) ⟨[], []⟩ :=
  compressByteArray_round_trip LiteralCodec.lawful (by decide) ⟨[], []⟩

/-- A range is compressed to a place in another array, and nothing outside the room
for the bound changes. -/
theorem rawCompressRange_ok {scratch : Scratch codec} {off len outOff : Nat}
    (hin : off + len ≤ input.length) (hlen : len < 2 ^ 31)
    (hout : outOff + (32 + len + len / 6) ≤ output.length) (hsize : output.length < 2 ^ 31) :
    ∃ output', rawCompressRange codec scratch input off len output outOff =
      (.ok (codec.compress (slice input off len)).length, output') ∧
      Placed (codec.compress (slice input off len)) outOff (32 + len + len / 6) output output' := by
  have hslice : (slice input off len).length = len := length_slice _ hin
  have htouched := scratch.touched_le (slice input off len) (by omega)
  have hle := scratch.length_compress_le (slice input off len)
  rw [hslice] at htouched
  have hread : Inside input off len := (inside_natCast_iff (by omega)).mpr hin
  have hwrite : Inside output outOff (scratch.touched (slice input off len)) :=
    (inside_natCast_iff (by omega)).mpr (by omega)
  have hleft := scratch.length_left (slice input off len)
    (slice output (outOff + (codec.compress (slice input off len)).length)
      (scratch.touched (slice input off len) - (codec.compress (slice input off len)).length))
  rw [length_slice _ (by omega)] at hleft
  refine ⟨_, ?_, (placed_splice_append (by rw [hleft]; omega)).mono (by rw [hleft]; omega)⟩
  rw [rawCompressRange, if_neg (not_not_intro hread)]
  simp only [Int.toNat_natCast]
  rw [if_neg (not_not_intro hwrite), wrap32_of_range (by omega) (by omega)]

/-- A range compressed to any place with room for the bound, and uncompressed from
there to any place of a third array with room for its data: the range arrives. Of the
second array nothing changes outside the room for the bound, and of the third nothing
around the data. -/
theorem range_round_trip (hcodec : codec.Lawful) (scratch : Scratch codec) {result : Bytes}
    {off len outOff resOff : Nat} (hin : off + len ≤ input.length) (hlen : len < 2 ^ 31)
    (hout : outOff + (32 + len + len / 6) ≤ output.length) (hsize : output.length < 2 ^ 31)
    (hres : resOff + len ≤ result.length) :
    ∃ (compressed output' result' : Bytes), compressed = codec.compress (slice input off len) ∧
      compressRange codec scratch input off len output outOff = (.ok compressed.length, output') ∧
      0 < compressed.length ∧ compressed.length ≤ 32 + len + len / 6 ∧
      Placed compressed outOff (32 + len + len / 6) output output' ∧
      uncompressRange codec output' outOff compressed.length result resOff = (.ok len, result') ∧
      Placed (slice input off len) resOff len result result' := by
  have hslice : (slice input off len).length = len := length_slice _ hin
  have hbound := hcodec.length_compress_le (slice input off len) (by omega)
  have hpos := List.length_pos_iff.mpr (hcodec.compress_ne_nil (slice input off len) (by omega))
  have hback := hcodec.rawUncompress_compress (slice input off len) (by omega)
  rw [hslice] at hbound
  obtain ⟨output', hcompress, hplaced⟩ := @rawCompressRange_ok codec input output scratch off len
    outOff hin hlen hout hsize
  obtain ⟨result', huncompress, hplaced'⟩ := @rawUncompressRange_ok codec output' result
    (slice input off len) outOff (codec.compress (slice input off len)).length resOff
    (by rw [hplaced.length_eq]; omega) (by rw [hplaced.slice_eq]; exact hback) (by omega) (by omega)
  rw [hslice] at huncompress hplaced'
  exact ⟨_, output', result', rfl, hcompress, hpos, hbound, hplaced, huncompress, hplaced'⟩

end

/-- A compressor that clears all the room it has. -/
def clearing : Scratch literalCodec where
  touched x := max (literalCodec.compress x).length (32 + x.length + x.length / 6)
  left _ behind := newArray behind.length
  length_compress_le _ := Nat.le_max_left _ _
  touched_le x h := Nat.max_le.mpr ⟨LiteralCodec.lawful.length_compress_le x h, Nat.le_refl _⟩
  length_left _ behind := length_newArray behind.length

/-- The middle two of four bytes go through an array of ones to the end of another. -/
theorem range_round_trip_middle :
    ∃ (compressed output' result' : Bytes),
      compressed = literalCodec.compress (slice [1, 2, 3, 4] 1 2) ∧
      compressRange literalCodec clearing [1, 2, 3, 4] 1 2 (List.replicate 40 1) 3 =
        (.ok compressed.length, output') ∧
      0 < compressed.length ∧ compressed.length ≤ 32 + 2 + 2 / 6 ∧
      Placed compressed 3 (32 + 2 + 2 / 6) (List.replicate 40 1) output' ∧
      uncompressRange literalCodec output' 3 compressed.length [9, 9, 9] 1 = (.ok 2, result') ∧
      Placed (slice [1, 2, 3, 4] 1 2) 1 2 [9, 9, 9] result' :=
  @range_round_trip literalCodec [1, 2, 3, 4] (List.replicate 40 1) LiteralCodec.lawful clearing
    [9, 9, 9] 1 2 3 1 (by decide) (by decide) (by decide) (by decide) (by decide)

end Snappy

end SnappyJava
