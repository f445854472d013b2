import SnappyJava.SnappyCodec
import SnappyJava.Lib.Reading

/-! `SnappyInputStream`, function by function: the chunks a `SnappyOutputStream`
has written, or one block that `Snappy.compress` has made. The state also keeps
a record of the calls of the native decompressor. -/

namespace SnappyJava

open Exec Memory

structure SnappyInputStream where
  finishedReading : Bool
  input : Source
  maxChunkSize : Int
  compressed : Option Bytes
  uncompressed : Option Bytes
  uncompressedCursor : Nat
  uncompressedLimit : Nat
  header : Bytes
  uncompressCalls : List UncompressCall
  deriving DecidableEq, Repr

namespace SnappyInputStream

abbrev Method := EStateM Throwable SnappyInputStream

def onIn {α : Type} (m : EStateM Throwable Source α) : Method α :=
  zoom SnappyInputStream.input (fun i s => { s with input := i }) m

/-- One round of the loops that read until `len` bytes are there. -/
def fillRound (offset len : Nat) (p : Bytes × Nat) :
    EStateM Throwable Source ((Bytes × Nat) ⊕ (Bytes × Nat)) := do
  if p.2 < len then
    match ← Source.read (len - p.2) with
    | none => pure (.inr p)
    | some data => pure (.inl (splice p.1 (p.2 + offset) data, p.2 + data.length))
  else
    pure (.inr p)

/-- Reads into `dest` from `offset` on until `len` bytes are there or the input
ends: the array and the number of bytes read. -/
def fill (dest : Bytes) (offset len : Nat) : EStateM Throwable Source (Bytes × Nat) := do
  let s ← get
  loop .outOfFuel (fillRound offset len) (s.size + 1) (dest, 0)

/-- `new byte[uncompressedLength]`. -/
def allocateUncompressed (length : Int) : Method Unit :=
  if length < 0 then
    throw .negativeArraySizeException
  else
    modify fun s => { s with uncompressed := some (newArray length.toNat) }

/-- `Snappy.uncompress(compressed, 0, length, uncompressed, 0)`. -/
def uncompress (codec : Codec) (length : Nat) : Method Int := do
  let s ← get
  let src := (s.compressed.getD []).take length
  let dest := s.uncompressed.getD []
  let result := Snappy.uncompress codec src dest
  let call : UncompressCall := ⟨(codec.getUncompressedLength src).getD 0, dest.length⟩
  set { s with
    uncompressed := some result.2, uncompressCalls := s.uncompressCalls ++ [call] }
  fromExcept result.1

/-- A read of the loop of `readFully`, with the growth of the array. -/
def readFullyRound (cursor : Nat) : Method (Nat ⊕ Nat) := do
  let s ← get
  let compressed := s.compressed.getD []
  match ← onIn (Source.read (compressed.length - cursor)) with
  | none => pure (.inr cursor)
  | some data =>
    let read := splice compressed cursor data
    modify fun s => { s with compressed := some read }
    if cursor + data.length ≥ read.length then
      let newLength := Words.wrap32 (2 * read.length)
      if newLength < 0 then
        throw .negativeArraySizeException
      else
        modify fun s => { s with compressed := some (splice (newArray newLength.toNat) 0 read) }
        pure (.inl (cursor + data.length))
    else
      pure (.inl (cursor + data.length))

/-- The whole input is one block. -/
def readFully (codec : Codec) (fragment : Bytes) (fragmentLength : Nat) : Method Unit := do
  if fragmentLength = 0 then
    modify fun s => { s with finishedReading := true }
  else
    let buffer := splice (newArray (max (8 * 1024) fragmentLength)) 0 (fragment.take fragmentLength)
    modify fun s => { s with compressed := some buffer }
    let s ← get
    let cursor ← loop .outOfFuel readFullyRound (s.input.size + 1) fragmentLength
    modify fun s => { s with finishedReading := true }
    let t ← get
    let uncompressedLength ←
      fromExcept (Snappy.uncompressedLength codec ((t.compressed.getD []).take cursor))
    allocateUncompressed uncompressedLength
    let _ ← uncompress codec cursor
    modify fun s => { s with
      uncompressedCursor := 0, uncompressedLimit := uncompressedLength.toNat }

def readHeader (codec : Codec) : Method Unit := do
  let s ← get
  let (header, readBytes) ← onIn (fill s.header 0 s.header.length)
  modify fun s => { s with header }
  if readBytes = 0 then
    throw (.snappyIOException .emptyInput "Cannot decompress empty stream")
  else
    when (readBytes < header.length ∨ SnappyCodec.hasMagicHeaderPrefix header = false)
      (readFully codec header readBytes)

/-- The fields as they are initialised. -/
def initial (input : Source) (maxChunkSize : Int) : SnappyInputStream :=
  { finishedReading := false, input, maxChunkSize, compressed := none, uncompressed := none
    uncompressedCursor := 0, uncompressedLimit := 0
    header := newArray SnappyCodec.headerSize, uncompressCalls := [] }

/-- The constructor. -/
def new (codec : Codec) (input : Source) (maxChunkSize : Int) :
    Except Throwable SnappyInputStream :=
  match (readHeader codec).run (initial input maxChunkSize) with
  | .ok _ t => .ok t
  | .error e _ => .error e

def isValidHeader (header : Bytes) : Except Throwable Bool :=
  let codec := SnappyCodec.readHeader header
  if codec.isValidMagicHeader then
    if codec.version < SnappyCodec.minimumCompatibleVersion then
      .error (.snappyIOException .incompatibleVersion
        ("Compressed with an incompatible codec version " ++ toString codec.version ++
          ". At least version " ++ toString SnappyCodec.minimumCompatibleVersion ++
          " is required"))
    else
      .ok true
  else
    .ok false

/-- Reads into `header`. A read falls short only at the end of the input. -/
def readNext (offset len : Nat) : Method Nat := do
  let s ← get
  let (header, readBytes) ← onIn (fill s.header offset len)
  modify fun s => { s with
    header, finishedReading := if readBytes < len then true else s.finishedReading }
  pure readBytes

/-- The rest of a codec header between two chunks: whether it may be skipped. -/
def concatenatedHeader : Method Bool := do
  let remainingHeaderSize := SnappyCodec.headerSize - 4
  let readBytes ← readNext 4 remainingHeaderSize
  if readBytes < remainingHeaderSize then
    throw (.snappyIOException .failedToUncompress "Insufficient header size in a concatenated block")
  else
    let s ← get
    fromExcept (isValidHeader s.header)

/-- The chunk itself goes to the front of `compressed`, which grows to hold it. -/
def readCompressed (chunkSize : Nat) : Method Nat := do
  let s ← get
  when (s.compressed = none ∨ chunkSize > (s.compressed.getD []).length)
    (modify fun s => { s with compressed := some (newArray chunkSize) })
  let t ← get
  let (compressed, readBytes) ← onIn (fill (t.compressed.getD []) 0 chunkSize)
  modify fun s => { s with compressed := some compressed }
  pure readBytes

/-- The chunk is decompressed into `uncompressed`, which grows to hold it. -/
def uncompressChunk (codec : Codec) (chunkSize : Nat) : Method Unit := do
  let s ← get
  let uncompressedLength ←
    fromExcept (Snappy.uncompressedLength codec ((s.compressed.getD []).take chunkSize))
  when (s.uncompressed = none ∨ uncompressedLength > (s.uncompressed.getD []).length)
    (allocateUncompressed uncompressedLength)
  let actualUncompressedLength ← uncompress codec chunkSize
  if uncompressedLength ≠ actualUncompressedLength then
    throw (.snappyIOException .invalidChunkSize ("expected " ++ formatGrouped uncompressedLength ++
      " bytes, but decompressed chunk has " ++ formatGrouped actualUncompressedLength ++ " bytes"))
  else
    modify fun s => { s with uncompressedLimit := actualUncompressedLength.toNat }

/-- `hasNextChunk` up to its call of itself, which follows a skipped header. -/
def nextChunkRound (codec : Codec) (_ : Unit) : Method (Unit ⊕ Bool) := do
  let s ← get
  if s.finishedReading then
    pure (.inr false)
  else
    set { s with uncompressedCursor := 0, uncompressedLimit := 0 }
    let readBytes ← readNext 0 4
    if readBytes < 4 then
      pure (.inr false)
    else
      let t ← get
      let chunkSize := readInt t.header 0
      if chunkSize = SnappyCodec.magicHeaderHead then
        let valid ← concatenatedHeader
        pure (if valid then .inl () else .inr false)
      else if chunkSize < 0 then
        throw (.snappyError .invalidChunkSize
          ("chunkSize is too big or negative : " ++ toString chunkSize))
      else if chunkSize > t.maxChunkSize then
        throw (.snappyError .failedToUncompress ("Received chunkSize " ++ formatGrouped chunkSize ++
          " is greater than max configured chunk size " ++ formatGrouped t.maxChunkSize))
      else
        let readBytes ← readCompressed chunkSize.toNat
        if readBytes < chunkSize then
          throw (.ioException "failed to read chunk")
        else
          uncompressChunk codec chunkSize.toNat
          pure (.inr true)

def hasNextChunk (codec : Codec) : Method Bool := do
  let s ← get
  loop .outOfFuel (nextChunkRound codec) (s.input.size + 1) ()

/-- `read()` up to its call of itself, which follows a chunk. -/
def readByteRound (codec : Codec) (_ : Unit) : Method (Unit ⊕ Int) := do
  let s ← get
  if s.uncompressedCursor < s.uncompressedLimit then
    set { s with uncompressedCursor := s.uncompressedCursor + 1 }
    match s.uncompressed with
    | none => throw .nullPointerException
    | some u =>
      match u[s.uncompressedCursor]? with
      | none => throw .indexOutOfBoundsException
      | some x => pure (.inr x.toNat)
  else
    let more ← hasNextChunk codec
    pure (if more then .inl () else .inr (-1))

/-- `read()`. -/
def readByte (codec : Codec) : Method Int := do
  let s ← get
  loop .outOfFuel (readByteRound codec) (s.input.size + 2) ()

/-- A copy of `bytesToWrite` bytes to `b[offset]`, and the step of the cursor. -/
def copyFromUncompressed (copy : ArrayCopy) (b : Bytes) (offset : Int) (bytesToWrite : Nat) :
    Method Bytes := do
  let s ← get
  match s.uncompressed with
  | none => throw .nullPointerException
  | some u =>
    if u.length < s.uncompressedCursor + bytesToWrite then
      throw copy.sourceFault
    else if offset < 0 ∨ b.length < offset.toNat + bytesToWrite then
      throw copy.destinationFault
    else
      set { s with uncompressedCursor := s.uncompressedCursor + bytesToWrite }
      pure (splice b offset.toNat (slice u s.uncompressedCursor bytesToWrite))

/-- One round of the loop that `read(byte[], int, int)` and `rawRead` share;
the state of the loop is the array and `writtenBytes`. -/
def readRound (codec : Codec) (copy : ArrayCopy) (byteOffset byteLength : Int)
    (p : Bytes × Nat) : Method ((Bytes × Nat) ⊕ (Int × Bytes)) := do
  if p.2 < byteLength then
    let s ← get
    if s.uncompressedCursor ≥ s.uncompressedLimit then
      let more ← hasNextChunk codec
      pure (if more then .inl p else .inr (if p.2 = 0 then -1 else p.2, p.1))
    else
      let bytesToWrite := min (s.uncompressedLimit - s.uncompressedCursor) (byteLength - p.2).toNat
      let b ← copyFromUncompressed copy p.1 (Words.wrap32 (byteOffset + p.2)) bytesToWrite
      pure (.inl (b, p.2 + bytesToWrite))
  else
    pure (.inr (p.2, p.1))

/-- The result and the array after the call. -/
def bulkRead (codec : Codec) (copy : ArrayCopy) (b : Bytes) (byteOffset byteLength : Int) :
    Method (Int × Bytes) := do
  let s ← get
  loop .outOfFuel (readRound codec copy byteOffset byteLength)
    (s.input.size + byteLength.toNat + 2) (b, 0)

/-- `read(byte[], int, int)`. -/
def read (codec : Codec) (b : Bytes) (byteOffset byteLength : Int) : Method (Int × Bytes) :=
  bulkRead codec .systemArraycopy b byteOffset byteLength

/-- `rawRead`, `array` being the memory of an array of any element type. -/
def rawRead (codec : Codec) (array : Bytes) (byteOffset byteLength : Int) : Method (Int × Bytes) :=
  bulkRead codec .snappyArrayCopy array byteOffset byteLength

/-- `read(long[] d, int off, int len)` and its siblings, `d` being the memory
of the array. -/
def readArray (codec : Codec) (t : ElementType) (d : Bytes) (off len : Int) :
    Method (Int × Bytes) :=
  rawRead codec d (Words.wrap32 (off * t.size)) (Words.wrap32 (len * t.size))

def available (codec : Codec) : Method Int := do
  let s ← get
  if s.uncompressedCursor < s.uncompressedLimit then
    pure (s.uncompressedLimit - s.uncompressedCursor)
  else
    let more ← hasNextChunk codec
    let t ← get
    pure (if more then t.uncompressedLimit - t.uncompressedCursor else 0)

/-! ## Runs -/

/-- The public calls that read. -/
inductive ReadCall
  | readByte
  | read (b : Bytes) (byteOffset byteLength : Int)
  | rawRead (array : Bytes) (byteOffset byteLength : Int)
  | readArray (t : ElementType) (d : Bytes) (off len : Int)
  | available
  deriving DecidableEq, Repr

/-- What a bulk read into `[off, off + len)` has handed out. -/
def bulkAnswer (off len : Int) (r : Int × Bytes) : Reading.Answer UInt8 :=
  if r.1 = -1 then
    ⟨0 < len, [], true, 0⟩
  else
    ⟨0 < len, slice r.2 off.toNat r.1.toNat, false, 0⟩

def perform (codec : Codec) : ReadCall → Method (Reading.Answer UInt8)
  | .readByte => do
    let v ← readByte codec
    pure (if v = -1 then ⟨true, [], true, 0⟩ else ⟨true, [toByte v], false, 0⟩)
  | .read b off len => bulkAnswer off len <$> read codec b off len
  | .rawRead a off len => bulkAnswer off len <$> rawRead codec a off len
  | .readArray t d off len =>
    bulkAnswer (off * t.size) (len * t.size) <$> readArray codec t d off len
  | .available => do
    let n ← available codec
    pure ⟨false, [], false, n⟩

end SnappyInputStream

end SnappyJava
