import SnappyJava.BlockRoundTrip

/-! The two size limits of the block format: a `SnappyOutputStream` limits the
block before compression, a `SnappyInputStream` the chunk after it. -/

namespace SnappyJava.BlockFormat

open Exec Memory Reading

/-! ## A codec that expands as much as it may -/

/-- A block is its length, the data, and padding up to the greatest length that
`MaxCompressedLength` permits. -/
def paddingCodec : Codec where
  compress x := intBytes x.length ++ x ++ newArray (28 + x.length / 6)
  getUncompressedLength y := some (readInt y 0).toNat
  rawUncompress y :=
    if (readInt y 0).toNat + 4 ≤ y.length then .ok (slice y 4 (readInt y 0).toNat) else .error []
  getUncompressedLength_lt := by
    intro y n h
    have hlt : readInt y 0 < 2 ^ 31 := BitVec.toInt_lt
    have hn : (readInt y 0).toNat = n := Option.some.inj h
    omega
  length_rawUncompress := by
    intro y d h
    split at h
    · rename_i hle
      rw [← Except.ok.inj h, length_slice _ (by omega)]
    · cases h

namespace PaddingCodec

theorem length_compress (x : Bytes) :
    (paddingCodec.compress x).length = 32 + x.length + x.length / 6 := by
  simp only [paddingCodec, List.length_append, length_intBytes, length_newArray]
  omega

theorem lawful : paddingCodec.Lawful where
  length_compress_le := fun x _ => Nat.le_of_eq (length_compress x)
  rawUncompress_compress := by
    intro x hx
    have hread : readInt (paddingCodec.compress x) 0 = x.length := by
      simp only [paddingCodec, List.append_assoc]
      exact readInt_intBytes (by omega) (by omega) _
    have hlen := length_compress x
    have hslice : slice (paddingCodec.compress x) 4 x.length = x := by
      simp only [slice, paddingCodec, List.append_assoc]
      rw [← length_intBytes x.length, List.drop_left, List.take_left]
    show (if (readInt (paddingCodec.compress x) 0).toNat + 4 ≤ (paddingCodec.compress x).length then
      Except.ok (slice (paddingCodec.compress x) 4 (readInt (paddingCodec.compress x) 0).toNat)
      else .error []) = _
    rw [hread, Int.toNat_natCast, if_pos (by omega), hslice]
  compress_ne_nil := by
    intro x _ h
    have := length_compress x
    rw [h, List.length_nil] at this
    omega

end PaddingCodec

/-! ## Streams of one block size -/

/-- The limit of a `SnappyInputStream` made by the constructor of one argument. -/
def defaultMaxChunkSize : Int := 512 * 1024 * 1024

/-- A size check of `hasNextChunk` has rejected a chunk. -/
def RejectsSize : Throwable → Prop
  | .snappyError _ _ => True
  | _ => False

/-- No reader of what a stream of block size `b` has written rejects a chunk of
it for its size. -/
def SizesAccepted (b : Int) : Prop :=
  ∀ codec : Codec, codec.Lawful → ∀ allocate, SnappyOutputStream.ExactAllocator allocate →
  ∀ (calls : List SnappyOutputStream.WriteCall) (closing : Bool), (∀ c ∈ calls, c.InRange) →
  ∃ out, Session.output codec allocate ⟨b, calls, closing⟩ = .ok out ∧
    ∀ input : Source, input.data = out →
      ∃ s, SnappyInputStream.new codec input defaultMaxChunkSize = .ok s ∧
        ∀ reads : List SnappyInputStream.ReadCall, (∀ c ∈ reads, c.InRange) →
          wp (runAll (SnappyInputStream.perform codec) reads) (fun _ _ => True)
            (fun e _ => ¬ RejectsSize e) s

section
variable {b : Int}

theorem inRange_full_block (hmin : 1024 ≤ b) (hmax : b ≤ SnappyOutputStream.maxBlockSize) :
    ∀ c ∈ [SnappyOutputStream.WriteCall.write (newArray b.toNat) 0 b], c.InRange := by
  have hM : SnappyOutputStream.maxBlockSize = 536870912 := rfl
  intro c hc
  rw [List.mem_singleton.mp hc]
  exact ⟨by omega, by omega, by rw [length_newArray]; omega, by omega⟩

/-- The data of one full block, written at once. -/
theorem output_full_block (hmin : 1024 ≤ b) (hmax : b ≤ SnappyOutputStream.maxBlockSize) :
    ∃ behind, Session.output paddingCodec newArray ⟨b, [.write (newArray b.toNat) 0 b], true⟩ =
      .ok (SnappyCodec.currentHeader.headerArray ++
        (intBytes (32 + b.toNat + b.toNat / 6 : Nat) ++ behind)) := by
  have hM : SnappyOutputStream.maxBlockSize = 536870912 := rfl
  have hlen : ((newArray b.toNat).length : Int) = b := by rw [length_newArray]; omega
  have hne : newArray b.toNat ≠ [] := by
    intro h
    rw [h, List.length_nil] at hlen
    omega
  have hbytes : (SnappyOutputStream.WriteCall.write (newArray b.toNat) 0 b).bytes =
      newArray b.toNat := by
    simp only [SnappyOutputStream.WriteCall.bytes, SnappyOutputStream.WriteCall.part,
      Option.getD_some, slice, Int.toNat_zero, List.drop_zero]
    exact List.take_of_length_le (by rw [length_newArray])
  have hwritten : Session.written ⟨b, [.write (newArray b.toNat) 0 b], true⟩ =
      [newArray b.toNat] := by
    have hseg : SnappyOutputStream.segments
        [SnappyOutputStream.WriteCall.write (newArray b.toNat) 0 b] = [newArray b.toNat] := by
      have hpart : (SnappyOutputStream.WriteCall.write (newArray b.toNat) 0 b).part =
          some (newArray b.toNat) := congrArg some hbytes
      simp [SnappyOutputStream.segments, hpart, Blocks.segments]
    rw [Session.written, hseg, List.flatMap_singleton]
    exact Blocks.blocks_of_length_le (by dsimp only; omega) hne (by rw [length_newArray])
  refine ⟨paddingCodec.compress (newArray b.toNat), ?_⟩
  rw [Session.output_eq PaddingCodec.lawful.toBounded SnappyOutputStream.exactAllocator_newArray
    ⟨hmin, hmax, Int.le_refl _, inRange_full_block hmin hmax⟩]
  simp only [Session.items, hwritten, List.map_cons, List.map_nil, List.flatMap_cons,
    List.flatMap_nil, SnappyInputStream.Item.encode_chunk, PaddingCodec.length_compress,
    length_newArray, List.append_nil]
  rfl

/-- `read()` of a chunk above the limit of the reader. -/
theorem rejects_tooLarge {codec : Codec} {s : SnappyInputStream} {n : Nat} {behind : Bytes}
    (hlen : s.header.length = SnappyCodec.headerSize) (hfin : s.finishedReading = false)
    (hdone : s.uncompressedLimit ≤ s.uncompressedCursor) (hn : n < 2 ^ 31)
    (hmax : s.maxChunkSize < n) (hdata : s.input.data = intBytes n ++ behind) :
    wp (runAll (SnappyInputStream.perform codec) [.readByte]) (fun _ _ => False)
      (fun e _ => RejectsSize e) s := by
  simp only [runAll, SnappyInputStream.perform, SnappyInputStream.readByte, loop,
    SnappyInputStream.readByteRound, SnappyInputStream.hasNextChunk, wp_bind, wp_get, wp_ite]
  rw [if_neg (by omega)]
  apply SnappyInputStream.wp_nextChunkRound_tooLarge hlen hfin hn hmax hdata
  exact fun _ _ => trivial

/-- A full block that the codec has expanded beyond the limit of the reader. -/
theorem exists_rejected (hmin : 1024 ≤ b) (hmax : b ≤ SnappyOutputStream.maxBlockSize)
    (hlarge : defaultMaxChunkSize < Snappy.maxCompressedLength b) :
    ∃ out s, Session.output paddingCodec newArray ⟨b, [.write (newArray b.toNat) 0 b], true⟩ =
        .ok out ∧
      SnappyInputStream.new paddingCodec ⟨out, []⟩ defaultMaxChunkSize = .ok s ∧
      wp (runAll (SnappyInputStream.perform paddingCodec) [.readByte]) (fun _ _ => False)
        (fun e _ => RejectsSize e) s := by
  have hM : SnappyOutputStream.maxBlockSize = 536870912 := rfl
  have hD : defaultMaxChunkSize = 536870912 := rfl
  have hlen := @Snappy.maxCompressedLength_natCast b.toNat (by omega)
  rw [Int.toNat_of_nonneg (by omega)] at hlen
  have hn : 32 + b.toNat + b.toNat / 6 < 2 ^ 31 := by omega
  have hmax' : defaultMaxChunkSize < ((32 + b.toNat + b.toNat / 6 : Nat) : Int) := by omega
  obtain ⟨behind, hout⟩ := output_full_block hmin hmax
  obtain ⟨i, hi, -, hnew⟩ := @SnappyInputStream.new_header paddingCodec _ _ ⟨_, []⟩
    defaultMaxChunkSize SnappyCodec.length_headerArray_currentHeader
    SnappyCodec.hasMagicHeaderPrefix_headerArray (show _ = _ ++ (_ ++ behind) from rfl)
  have hrej := @rejects_tooLarge paddingCodec
    { SnappyInputStream.initial i defaultMaxChunkSize with
      header := SnappyCodec.currentHeader.headerArray }
    _ _ SnappyCodec.length_headerArray_currentHeader rfl (Nat.le_refl _) hn hmax' hi
  exact ⟨_, _, hout, hnew, hrej⟩

theorem not_sizesAccepted (hmin : 1024 ≤ b) (hmax : b ≤ SnappyOutputStream.maxBlockSize)
    (hlarge : defaultMaxChunkSize < Snappy.maxCompressedLength b) : ¬ SizesAccepted b := by
  intro h
  obtain ⟨out, s, hout, hnew, hrej⟩ := exists_rejected hmin hmax hlarge
  obtain ⟨out', hout', hread⟩ := h paddingCodec PaddingCodec.lawful newArray
    SnappyOutputStream.exactAllocator_newArray _ true (inRange_full_block hmin hmax)
  obtain rfl := Except.ok.inj (hout.symm.trans hout')
  obtain ⟨s', hs, hno⟩ := hread ⟨out, []⟩ rfl
  obtain rfl := Except.ok.inj (hnew.symm.trans hs)
  exact not_wp_false (wp_mono (wp_and (hno [.readByte] (by simp [SnappyInputStream.ReadCall.InRange]))
    hrej) (fun _ _ h => h.2) (fun _ _ h => h.1 h.2))

/-- A reader with the default limit accepts what a stream of block size `b` may
write exactly if the greatest chunk of a block of that size is within the limit. -/
theorem sizesAccepted_iff (hmin : 1024 ≤ b) (hmax : b ≤ SnappyOutputStream.maxBlockSize) :
    SizesAccepted b ↔ Snappy.maxCompressedLength b ≤ defaultMaxChunkSize := by
  constructor
  · intro h
    by_contra hlarge
    exact not_sizesAccepted hmin hmax (by omega) h
  · intro h codec hc allocate ha calls closing hr
    have hok : Session.Ok defaultMaxChunkSize ⟨b, calls, closing⟩ := ⟨hmin, hmax, h, hr⟩
    refine ⟨_, Session.output_eq hc.toBounded ha hok, ?_⟩
    intro input hinput
    obtain ⟨s, hs, hholds⟩ := @exists_reader _ hc.toBounded _ [⟨b, calls, closing⟩] (by simp)
      (fun x hx => by rw [List.mem_singleton.mp hx]; exact hok) SnappyInputStream.Short []
      (Nat.zero_lt_succ 3) input (by rw [hinput, List.append_nil, List.flatMap_singleton])
    refine ⟨s, hs, fun reads hreads => ?_⟩
    exact wp_mono (SnappyInputStream.wp_runAll_holds hc SnappyInputStream.ends_short hholds hreads)
      (fun _ _ _ => trivial) (fun _ _ h => False.elim h)

theorem sizesAccepted_iff_default :
    SizesAccepted 32768 ↔ Snappy.maxCompressedLength 32768 ≤ defaultMaxChunkSize :=
  sizesAccepted_iff (by decide) (by decide)

end

/-- One block of the greatest size a `SnappyOutputStream` takes. -/
theorem maxBlockSize_rejected :
    (∃ out s, Session.output paddingCodec newArray
          ⟨SnappyOutputStream.maxBlockSize,
            [.write (newArray SnappyOutputStream.maxBlockSize) 0 SnappyOutputStream.maxBlockSize],
            true⟩ = .ok out ∧
        SnappyInputStream.new paddingCodec ⟨out, []⟩ defaultMaxChunkSize = .ok s ∧
        wp (runAll (SnappyInputStream.perform paddingCodec) [.readByte]) (fun _ _ => False)
          (fun e _ => RejectsSize e) s) ∧
      ¬ SizesAccepted SnappyOutputStream.maxBlockSize :=
  have hlarge : defaultMaxChunkSize < Snappy.maxCompressedLength SnappyOutputStream.maxBlockSize := by
    decide
  ⟨exists_rejected (by decide) (by decide) hlarge, not_sizesAccepted (by decide) (by decide) hlarge⟩

end SnappyJava.BlockFormat
