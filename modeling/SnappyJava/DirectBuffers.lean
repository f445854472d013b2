import SnappyJava.ByteArrays
import SnappyJava.BitShuffle

/-! `Snappy` on direct buffers. The native code is told where the positions are
and not where the limits are, so it is the capacity of the second buffer that
decides whether a call stays inside it. -/

namespace SnappyJava

open Memory Words

namespace Snappy

theorem length_rawCompressRange (codec : Codec) (scratch : Scratch codec) (input : Bytes)
    (inputOffset inputLength : Int) (output : Bytes) (outputOffset : Int) :
    (rawCompressRange codec scratch input inputOffset inputLength output outputOffset).2.length =
      output.length := by
  simp only [rawCompressRange]
  split
  · rfl
  split
  · rfl
  · rename_i hinside
    have hle := scratch.length_compress_le (slice input inputOffset.toNat inputLength.toNat)
    refine length_splice_of_inside ?_
    rw [List.length_append, scratch.length_left]
    rcases not_not.mp hinside with hnone | ⟨hoff, -, hin⟩
    · left
      have := List.length_take_le (scratch.touched
        (slice input inputOffset.toNat inputLength.toNat) -
          (codec.compress (slice input inputOffset.toNat inputLength.toNat)).length)
        (output.drop (outputOffset.toNat +
          (codec.compress (slice input inputOffset.toNat inputLength.toNat)).length))
      unfold slice at *
      omega
    · rw [length_slice _ (by omega), Nat.add_sub_of_le hle]
      exact .inr ⟨hoff, Int.natCast_nonneg _, hin⟩

theorem length_rawUncompressRange (codec : Codec) (input : Bytes) (inputOffset inputLength : Int)
    (output : Bytes) (outputOffset : Int) :
    (rawUncompressRange codec input inputOffset inputLength output outputOffset).2.length =
      output.length := by
  simp only [rawUncompressRange]
  split
  · rfl
  split
  · rfl
  · rename_i hinside
    exact length_splice_of_inside (not_not.mp hinside)

/-- What the methods do with the memory that native code leaves of a buffer: the
limit goes where the bytes it reports end. -/
def limitBehind (b : NioBuffer) (r : Except Throwable Int × Bytes)
    (h : r.2.length = b.array.length) : Except Throwable Int × NioBuffer :=
  let written := b.overwritten r.2 h
  match r.1 with
  | .error e => (.error e, written)
  | .ok size =>
    match written.setLimit (wrap32 (written.position + size)) with
    | .error e => (.error e, written)
    | .ok limited => (.ok size, { limited with isDirect := b.isDirect })

/-- `compress(ByteBuffer, ByteBuffer)`: the result, and the second buffer after the
call. -/
def compressByteBuffer (codec : Codec) (scratch : Scratch codec)
    (uncompressed compressed : NioBuffer) : Except Throwable Int × NioBuffer :=
  if uncompressed.isDirect = false then
    (.error (.snappyError .notADirectBuffer "input is not a direct buffer"), compressed)
  else if compressed.isDirect = false then
    (.error (.snappyError .notADirectBuffer "destination is not a direct buffer"), compressed)
  else
    let uPos := uncompressed.position
    let uLen := uncompressed.remaining
    let cPos := compressed.position
    limitBehind compressed
      (rawCompressRange codec scratch uncompressed.array uPos uLen compressed.array cPos)
      (length_rawCompressRange ..)

/-- `uncompress(ByteBuffer, ByteBuffer)`: the result, and the second buffer after the
call. -/
def uncompressByteBuffer (codec : Codec) (compressed uncompressed : NioBuffer) :
    Except Throwable Int × NioBuffer :=
  if compressed.isDirect = false then
    (.error (.snappyError .notADirectBuffer "input is not a direct buffer"), uncompressed)
  else if uncompressed.isDirect = false then
    (.error (.snappyError .notADirectBuffer "destination is not a direct buffer"), uncompressed)
  else
    let cPos := compressed.position
    let cLen := compressed.remaining
    let uPos := uncompressed.position
    limitBehind uncompressed
      (rawUncompressRange codec compressed.array cPos cLen uncompressed.array uPos)
      (length_rawUncompressRange ..)

/-! ## What the calls leave -/

/-- The buffer holds `data` from where its position has been all along to its limit,
and of its memory nothing has changed around the `room` bytes from there on. -/
structure Stored (data : Bytes) (room : Nat) (b b' : NioBuffer) : Prop where
  placed : Placed data b.position room b.array b'.array
  position_eq : b'.position = b.position
  limit_eq : b'.limit = b.position + data.length
  isDirect_eq : b'.isDirect = b.isDirect

section
variable {codec : Codec} {scratch : Scratch codec} {data : Bytes} {room : Nat}
  {uncompressed compressed output b b' : NioBuffer}

theorem position_le_capacity (b : NioBuffer) : b.position ≤ b.array.length :=
  Nat.le_trans b.position_le b.limit_le

theorem position_add_remaining (b : NioBuffer) : b.position + b.remaining ≤ b.array.length := by
  have hle := b.position_le
  have hlimit := b.limit_le
  unfold ByteBuffer.remaining
  omega

theorem Stored.content_eq (h : Stored data room b b') : b'.content = data := by
  have hremaining : b'.remaining = data.length := by
    unfold ByteBuffer.remaining
    rw [h.limit_eq, h.position_eq]
    omega
  rw [ByteBuffer.content, hremaining, h.position_eq, h.placed.slice_eq]

/-- The case of a call that returns, its result kept general. -/
theorem limitBehind_eq {r : Except Throwable Int × Bytes} {h : r.2.length = b.array.length}
    {size : Int} {limited : ByteBuffer} (hr : r.1 = .ok size)
    (hset : (b.overwritten r.2 h).setLimit (wrap32 (b.position + size)) = .ok limited) :
    limitBehind b r h = (.ok size, { limited with isDirect := b.isDirect }) := by
  unfold limitBehind
  dsimp only
  split
  · rename_i e he
    cases he.symm.trans hr
  · rename_i size' hsize
    obtain rfl := Except.ok.inj (hsize.symm.trans hr)
    split
    · rename_i e he
      cases he.symm.trans hset
    · rename_i limited' hlimited
      obtain rfl := Except.ok.inj (hlimited.symm.trans hset)
      rfl

theorem limitBehind_error {r : Except Throwable Int × Bytes} {h : r.2.length = b.array.length}
    {e : Throwable} (hr : r.1 = .error e) : limitBehind b r h = (.error e, b.overwritten r.2 h) := by
  unfold limitBehind
  dsimp only
  split
  · rename_i e' he
    obtain rfl := Except.error.inj (he.symm.trans hr)
    rfl
  · rename_i size hsize
    cases hsize.symm.trans hr

/-- Bytes that were written before the call failed. -/
theorem limitBehind_failed {r : Except Throwable Int × Bytes} {h : r.2.length = b.array.length}
    {e : Throwable} {a : Bytes} (hr : r = (.error e, a))
    (hplaced : Placed data b.position room b.array a) :
    ∃ b', limitBehind b r h = (.error e, b') ∧ b'.position = b.position ∧ b'.limit = b.limit ∧
      Placed data b.position room b.array b'.array := by
  refine ⟨_, limitBehind_error (congrArg Prod.fst hr), rfl, rfl, ?_⟩
  have hmemory : r.2 = a := congrArg Prod.snd hr
  exact hmemory.symm ▸ hplaced

/-- Bytes that end within the capacity. -/
theorem limitBehind_ok {r : Except Throwable Int × Bytes} {h : r.2.length = b.array.length}
    {a : Bytes} (hsize : b.array.length < 2 ^ 31) (hr : r = (.ok data.length, a))
    (hplaced : Placed data b.position room b.array a)
    (hle : b.position + data.length ≤ b.array.length) :
    ∃ b', limitBehind b r h = (.ok data.length, b') ∧ Stored data room b b' := by
  have hwrap : wrap32 ((b.position : Int) + data.length) = (b.position + data.length : Nat) := by
    rw [wrap32_of_range (by omega) (by omega)]
    omega
  have hset := @BitShuffle.setLimit_add (b.overwritten r.2 h).toByteBuffer b.position data.length rfl
    (by rw [← h] at hle; exact hle)
  rw [← hwrap] at hset
  refine ⟨_, limitBehind_eq (congrArg Prod.fst hr) hset, ?_, rfl, rfl, rfl⟩
  have hmemory : r.2 = a := congrArg Prod.snd hr
  exact hmemory.symm ▸ hplaced

/-- With room for the bound behind the position, the content of a buffer is compressed
into another. -/
theorem compressByteBuffer_eq (hcodec : codec.Bounded) (hu : uncompressed.isDirect = true)
    (hc : compressed.isDirect = true) (hsize : compressed.array.length < 2 ^ 31)
    (hroom : compressed.position + (32 + uncompressed.remaining + uncompressed.remaining / 6) ≤
      compressed.capacity) :
    ∃ compressed', compressByteBuffer codec scratch uncompressed compressed =
      (.ok (codec.compress uncompressed.content).length, compressed') ∧
      Stored (codec.compress uncompressed.content)
        (32 + uncompressed.remaining + uncompressed.remaining / 6) compressed compressed' := by
  unfold ByteBuffer.capacity at hroom
  have hlen : uncompressed.content.length = uncompressed.remaining := ByteBuffer.length_content _
  have hbound := hcodec.length_compress_le uncompressed.content (by omega)
  obtain ⟨a, hrun, hplaced⟩ := @rawCompressRange_ok codec _ _ scratch _ _ _
    (position_add_remaining uncompressed) (by omega) hroom hsize
  simp only [compressByteBuffer, hu, hc, Bool.true_eq_false, if_false]
  exact limitBehind_ok hsize hrun hplaced (by omega)

theorem uncompressByteBuffer_eq (hc : compressed.isDirect = true) (ho : output.isDirect = true)
    (hsize : output.array.length < 2 ^ 31)
    (hdata : codec.rawUncompress compressed.content = .ok data)
    (hle : output.position + data.length ≤ output.capacity) :
    ∃ output', uncompressByteBuffer codec compressed output = (.ok data.length, output') ∧
      Stored data data.length output output' := by
  unfold ByteBuffer.capacity at hle
  obtain ⟨a, hrun, hplaced⟩ :=
    rawUncompressRange_ok (position_add_remaining compressed) hdata (by omega) hle
  simp only [uncompressByteBuffer, hc, ho, Bool.true_eq_false, if_false]
  exact limitBehind_ok hsize hrun hplaced hle

/-- If what is written of a block goes past the capacity, nothing is promised. -/
theorem uncompressByteBuffer_fault (hc : compressed.isDirect = true) (ho : output.isDirect = true)
    (hroom : output.capacity < output.position + (written codec compressed.content).length) :
    (uncompressByteBuffer codec compressed output).1 = .error (.memoryFault .rawUncompress) := by
  have hfault := rawUncompressRange_fault (position_add_remaining compressed)
    (position_le_capacity output) hroom
  simp only [uncompressByteBuffer, hc, ho, Bool.true_eq_false, if_false]
  exact congrArg Prod.fst (limitBehind_error (congrArg Prod.fst hfault))

/-- Of a bad block the position and the limit stay. -/
theorem uncompressByteBuffer_failed (hc : compressed.isDirect = true) (ho : output.isDirect = true)
    {data : Bytes} (hdata : codec.rawUncompress compressed.content = .error data)
    (hle : output.position + (written codec compressed.content).length ≤ output.capacity) :
    ∃ output', uncompressByteBuffer codec compressed output =
      (.error (throw_error .failedToUncompress), output') ∧
      output'.position = output.position ∧ output'.limit = output.limit ∧
      Placed (written codec compressed.content) output.position
        (written codec compressed.content).length output.array output'.array := by
  obtain ⟨a, hfailed, hplaced⟩ := rawUncompressRange_eq (position_add_remaining compressed) hle
  rw [show slice compressed.array compressed.position compressed.remaining = compressed.content from
    rfl, hdata] at hfailed
  simp only [uncompressByteBuffer, hc, ho, Bool.true_eq_false, if_false]
  exact limitBehind_failed hfailed hplaced

/-- What `uncompress` does with any bytes in a direct buffer: what is written of a
block, good or bad, needs room between the position and the capacity, wherever the
limit is. With room a good block is stored, and for a bad one it throws. -/
theorem uncompressByteBuffer_cases (hc : compressed.isDirect = true) (ho : output.isDirect = true)
    (hsize : output.array.length < 2 ^ 31) :
    (written codec compressed.content).length ≤
        (codec.getUncompressedLength compressed.content).getD 0 ∧
      if output.capacity < output.position + (written codec compressed.content).length then
        (uncompressByteBuffer codec compressed output).1 = .error (.memoryFault .rawUncompress)
      else
        match codec.rawUncompress compressed.content with
        | .ok data => ∃ output',
          uncompressByteBuffer codec compressed output = (.ok data.length, output') ∧
          Stored data data.length output output'
        | .error _ => ∃ output',
          uncompressByteBuffer codec compressed output =
            (.error (throw_error .failedToUncompress), output') ∧
          output'.position = output.position ∧ output'.limit = output.limit ∧
          Placed (written codec compressed.content) output.position
            (written codec compressed.content).length output.array output'.array := by
  refine ⟨length_written_le codec _, ?_⟩
  split
  · rename_i hroom
    exact uncompressByteBuffer_fault hc ho hroom
  · rename_i hroom
    cases hdata : codec.rawUncompress compressed.content with
    | ok data =>
      rw [written, hdata] at hroom
      exact uncompressByteBuffer_eq hc ho hsize hdata (Nat.not_lt.mp hroom)
    | error data => exact uncompressByteBuffer_failed hc ho hdata (Nat.not_lt.mp hroom)

/-- A direct buffer with a block of five bytes. -/
def fiveBytesBuffer : NioBuffer := { ByteBuffer.wrap PrimitiveType.fiveBytes with isDirect := true }

theorem uncompressByteBuffer_cases_fiveBytes :
    ∃ data output', literalCodec.rawUncompress fiveBytesBuffer.content = .ok data ∧
      uncompressByteBuffer literalCodec fiveBytesBuffer BitShuffle.fourShorts =
        (.ok data.length, output') ∧ Stored data data.length BitShuffle.fourShorts output' := by
  have hcases := (@uncompressByteBuffer_cases literalCodec fiveBytesBuffer BitShuffle.fourShorts rfl
    rfl (by decide)).2
  have hgood : literalCodec.rawUncompress fiveBytesBuffer.content = .ok [1, 2, 3, 4, 5] := by
    decide +kernel
  rw [if_neg (by decide +kernel), hgood] at hcases
  obtain ⟨output', hrun, hstored⟩ := hcases
  exact ⟨_, output', hgood, hrun, hstored⟩

/-- The two calls with room for the bound in the second buffer: it holds the
compressed bytes, and from there the content comes to a third just in case the
capacity of that allows it, whatever its limit. -/
theorem buffers_round_trip (hcodec : codec.Lawful) (scratch : Scratch codec)
    (hu : uncompressed.isDirect = true) (hc : compressed.isDirect = true)
    (ho : output.isDirect = true) (hsize : compressed.array.length < 2 ^ 31)
    (hsize' : output.array.length < 2 ^ 31)
    (hbound : compressed.position + (32 + uncompressed.remaining + uncompressed.remaining / 6) ≤
      compressed.capacity) :
    ∃ compressed', compressByteBuffer codec scratch uncompressed compressed =
        (.ok (codec.compress uncompressed.content).length, compressed') ∧
      Stored (codec.compress uncompressed.content)
        (32 + uncompressed.remaining + uncompressed.remaining / 6) compressed compressed' ∧
      if output.position + uncompressed.remaining ≤ output.capacity then
        ∃ output', uncompressByteBuffer codec compressed' output =
            (.ok uncompressed.remaining, output') ∧
          Stored uncompressed.content uncompressed.remaining output output'
      else (uncompressByteBuffer codec compressed' output).1 = .error (.memoryFault .rawUncompress) := by
  have hlen : uncompressed.content.length = uncompressed.remaining := ByteBuffer.length_content _
  have hcapacity : compressed.capacity < 2 ^ 31 := hsize
  have hback := hcodec.rawUncompress_compress uncompressed.content (by omega)
  obtain ⟨compressed', hrun, hstored⟩ :=
    @compressByteBuffer_eq codec scratch _ _ hcodec.toBounded hu hc hsize hbound
  have hdirect := hstored.isDirect_eq.trans hc
  have hgood : codec.rawUncompress compressed'.content = .ok uncompressed.content := by
    rw [hstored.content_eq, hback]
  refine ⟨compressed', hrun, hstored, ?_⟩
  split
  · rename_i hroom
    obtain ⟨output', hrun', hstored'⟩ :=
      uncompressByteBuffer_eq hdirect ho hsize' hgood (by rwa [hlen])
    rw [hlen] at hrun' hstored'
    exact ⟨output', hrun', hstored'⟩
  · rename_i hroom
    refine uncompressByteBuffer_fault hdirect ho ?_
    rw [written, hgood]
    dsimp only
    omega

/-- A direct buffer of 64 bytes. -/
def spareBuffer : NioBuffer := { ByteBuffer.wrap (newArray 64) with isDirect := true }

theorem buffers_round_trip_twoShorts :
    ∃ compressed' output',
      compressByteBuffer literalCodec clearing BitShuffle.twoShorts spareBuffer =
        (.ok (literalCodec.compress BitShuffle.twoShorts.content).length, compressed') ∧
      compressed'.content = literalCodec.compress BitShuffle.twoShorts.content ∧
      uncompressByteBuffer literalCodec compressed' BitShuffle.fourShorts =
        (.ok BitShuffle.twoShorts.remaining, output') ∧
      output'.content = BitShuffle.twoShorts.content := by
  obtain ⟨compressed', hrun, hstored, hback⟩ := @buffers_round_trip literalCodec BitShuffle.twoShorts
    spareBuffer BitShuffle.fourShorts LiteralCodec.lawful clearing rfl rfl rfl (by decide) (by decide)
    (by decide)
  rw [if_pos (by decide)] at hback
  obtain ⟨output', hrun', hstored'⟩ := hback
  exact ⟨compressed', output', hrun, hstored.content_eq, hrun', hstored'.content_eq⟩

end

end Snappy
end SnappyJava
