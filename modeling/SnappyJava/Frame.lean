import SnappyJava.SnappyFramed

/-! The frames of the framed format: how each is written, what it decodes to,
and which ones a reader has to accept. -/

namespace SnappyJava

open Memory Words

/-- A flag byte and what stands behind the length. -/
structure Frame where
  flag : UInt8
  body : Bytes
  deriving DecidableEq, Repr

namespace Frame

/-- The flag and the length in 24 bits. -/
def header (f : Frame) : Bytes := f.flag :: le24 f.body.length

def encode (f : Frame) : Bytes := f.header ++ f.body

/-- The length of the body can be written down. -/
def Fits (f : Frame) : Prop := f.body.length < 2 ^ 24

/-- The stored checksum of a data frame. -/
def checkSum (f : Frame) : BitVec 32 :=
  ofBytes (f.body.getD 3 0) (f.body.getD 2 0) (f.body.getD 1 0) (f.body.getD 0 0)

/-- What stands behind the checksum of a data frame. -/
def payload (f : Frame) : Bytes := f.body.drop 4

/-- The data of a frame; there is none in a corrupt block. -/
def data (codec : Codec) (f : Frame) : Bytes :=
  if f.flag = SnappyFramed.compressedDataFlag then
    match codec.rawUncompress f.payload with
    | .ok data => data
    | .error _ => []
  else if f.flag = SnappyFramed.uncompressedDataFlag then f.payload
  else []

/-- The stored checksum is the masked CRC of the data. -/
def Intact (platform : Platform) (f : Frame) : Prop :=
  f.checkSum = SnappyFramed.mask (platform.crc32c (f.data platform.codec))

/-- The frames of the grammar: compressed data, raw data, the stream identifier
once more, and the reserved chunks that are skipped. -/
def Good (platform : Platform) (f : Frame) : Prop :=
  if f.flag = SnappyFramed.compressedDataFlag then
    5 ≤ f.body.length ∧ (∃ data, platform.codec.rawUncompress f.payload = .ok data) ∧
      f.Intact platform
  else if f.flag = SnappyFramed.uncompressedDataFlag then
    5 ≤ f.body.length ∧ f.Intact platform
  else if f.flag = SnappyFramed.streamIdentifierFlag then f.body.length = 6
  else 0x80 ≤ f.flag

/-- The stream identifier as a frame. -/
def identifier : Frame := ⟨SnappyFramed.streamIdentifierFlag, SnappyFramed.headerBytes.drop 4⟩

/-- The frame of `data` in the block `payload`, which is compressed or is the
data itself. -/
def ofBlock (platform : Platform) (compressed : Bool) (payload data : Bytes) : Frame :=
  ⟨if compressed then SnappyFramed.compressedDataFlag else SnappyFramed.uncompressedDataFlag,
    le32 (SnappyFramed.mask (platform.crc32c data)) ++ payload⟩

/-- A whole stream. -/
def stream (frames : List Frame) : Bytes := SnappyFramed.headerBytes ++ frames.flatMap encode

@[simp] theorem length_header (f : Frame) : f.header.length = 4 := rfl

theorem encode_identifier : identifier.encode = SnappyFramed.headerBytes := by decide

theorem checkSum_ofBlock (platform : Platform) (compressed : Bool) (payload data : Bytes) :
    (ofBlock platform compressed payload data).checkSum =
      SnappyFramed.mask (platform.crc32c data) :=
  ofBytes_byteOf _

theorem flag_ofBlock (platform : Platform) (compressed : Bool) (payload data : Bytes) :
    (ofBlock platform compressed payload data).flag = if compressed then
      SnappyFramed.compressedDataFlag else SnappyFramed.uncompressedDataFlag := rfl

theorem payload_ofBlock (platform : Platform) (compressed : Bool) (payload data : Bytes) :
    (ofBlock platform compressed payload data).payload = payload := rfl

theorem length_body_ofBlock (platform : Platform) (compressed : Bool) (payload data : Bytes) :
    (ofBlock platform compressed payload data).body.length = payload.length + 4 := by
  simp only [ofBlock, List.length_append, length_le32]
  omega

/-- The payload decodes to the data. -/
def Decodes (codec : Codec) (compressed : Bool) (payload data : Bytes) : Prop :=
  if compressed then codec.rawUncompress payload = .ok data else payload = data

theorem data_ofBlock {platform : Platform} {compressed : Bool} {payload data : Bytes}
    (h : Decodes platform.codec compressed payload data) :
    (ofBlock platform compressed payload data).data platform.codec = data := by
  cases compressed with
  | true =>
    have hok : platform.codec.rawUncompress payload = .ok data := h
    simp only [Frame.data, payload_ofBlock, flag_ofBlock, if_true, hok]
  | false =>
    have heq : payload = data := h
    have hne : SnappyFramed.uncompressedDataFlag ≠ SnappyFramed.compressedDataFlag := by decide
    simp only [Frame.data, payload_ofBlock, flag_ofBlock, Bool.false_eq_true, if_false, if_neg hne,
      if_true, heq]

/-- The frame of a block is one of the grammar. -/
theorem good_ofBlock {platform : Platform} {compressed : Bool} {payload data : Bytes}
    (h : Decodes platform.codec compressed payload data) (hne : payload ≠ []) :
    (ofBlock platform compressed payload data).Good platform := by
  have hlen := length_body_ofBlock platform compressed payload data
  have hpos := List.length_pos_iff.mpr hne
  have hintact : (ofBlock platform compressed payload data).Intact platform := by
    rw [Intact, data_ofBlock h, checkSum_ofBlock]
  cases compressed with
  | true =>
    simp only [Good, flag_ofBlock, if_true]
    exact ⟨by omega, ⟨data, h⟩, hintact⟩
  | false =>
    have hflag : SnappyFramed.uncompressedDataFlag ≠ SnappyFramed.compressedDataFlag := by decide
    simp only [Good, flag_ofBlock, Bool.false_eq_true, if_false, if_neg hflag, if_true]
    exact ⟨by omega, hintact⟩

/-- Two bytes raw, a chunk that is skipped, and three bytes compressed. -/
def samples : List Frame :=
  [ofBlock literalPlatform false [1, 2] [1, 2], ⟨0x80, [0, 0]⟩,
    ofBlock literalPlatform true (literalCodec.compress [3, 4, 5]) [3, 4, 5]]

theorem samples_spec {f : Frame} (h : f ∈ samples) :
    f.Fits ∧ f.Good literalPlatform ∧ (f.data literalPlatform.codec).length < 2 ^ 31 := by
  have hraw : Decodes literalPlatform.codec false [1, 2] [1, 2] := rfl
  have hcompressed :
      Decodes literalPlatform.codec true (literalCodec.compress [3, 4, 5]) [3, 4, 5] :=
    LiteralCodec.lawful.rawUncompress_compress _ (by decide)
  simp only [samples, List.mem_cons, List.not_mem_nil, or_false] at h
  rcases h with rfl | rfl | rfl
  · refine ⟨by unfold Fits; decide, good_ofBlock hraw (by decide), ?_⟩
    rw [data_ofBlock hraw]
    decide
  · refine ⟨by unfold Fits; decide, ?_, by decide⟩
    simp only [Good]
    rw [if_neg (by decide), if_neg (by decide), if_neg (by decide)]
    decide
  · refine ⟨by unfold Fits; decide, good_ofBlock hcompressed (by decide), ?_⟩
    rw [data_ofBlock hcompressed]
    decide

end Frame

end SnappyJava
