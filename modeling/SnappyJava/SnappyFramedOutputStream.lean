import SnappyJava.Frame

/-! `SnappyFramedOutputStream`, function by function. The state also keeps
records: the bytes put into `buffer`, and the allocations whose buffers have been
given back to the pool. -/

namespace SnappyJava

open Exec Memory Words

/-- What a writer is built on. The ratio that compression has to reach is known
by what it lets pass:
`((double) compressedLength / (double) length) <= minCompressionRatio`. -/
structure FrameWriter extends Platform where
  acceptable : (compressedLength length : Nat) → Bool

/-- `Snappy.compress` of one direct buffer into another. The native code is not
told where the second one ends. -/
def Snappy.compressDirect (codec : Codec) (uncompressed compressed : ByteBuffer) :
    Except Throwable ByteBuffer :=
  let data := codec.compress uncompressed.content
  if h : compressed.position + data.length ≤ compressed.array.length then
    .ok ⟨splice compressed.array compressed.position data, compressed.position,
      compressed.position + data.length, Nat.le_add_right _ _, by rwa [length_splice h]⟩
  else
    .error (.memoryFault .rawCompress)

/-- `InputStream.read` into the array of `dest` from the position on, then a step
of the position. -/
def readArray (dest : ByteBuffer) : EStateM Throwable Source (Option Nat × ByteBuffer) := do
  match ← Source.read dest.remaining with
  | none => pure (none, dest)
  | some data =>
    if h : dest.position + data.length ≤ dest.array.length then
      let overwritten : ByteBuffer := ⟨splice dest.array dest.position data, dest.position,
        dest.limit, dest.position_le, by rw [length_splice h]; exact dest.limit_le⟩
      let moved ← fromExcept (overwritten.setPosition (dest.position + data.length))
      pure (some data.length, moved)
    else
      throw .indexOutOfBoundsException

structure SnappyFramedOutputStream where
  out : WritableByteChannel
  blockSize : Nat
  headerBuffer : ByteBuffer
  buffer : ByteBuffer
  directInputBuffer : ByteBuffer
  outputBuffer : ByteBuffer
  closed : Bool
  taken : Bytes
  released : List Nat
  deriving DecidableEq, Repr

namespace SnappyFramedOutputStream

def maxBlockSize : Nat := 64 * 1024

abbrev Method := EStateM Throwable SnappyFramedOutputStream

/-- The constructor; `writeHeader` is its last action. -/
def new (w : FrameWriter) (out : WritableByteChannel) (blockSize : Int) :
    Except Throwable SnappyFramedOutputStream :=
  if blockSize ≤ 0 ∨ blockSize > maxBlockSize then
    .error (.illegalArgumentException
      ("block size " ++ toString blockSize ++ " must be in (0, 65536]"))
  else do
    let array ← w.bufferPool.allocateArray 0 blockSize.toNat
    if h : blockSize.toNat ≤ array.length then
      let direct ← w.bufferPool.allocateDirect 1 blockSize.toNat
      let output ← w.bufferPool.allocateDirect 2 (Snappy.maxCompressedLength blockSize).toNat
      match WritableByteChannel.write.run (out, ByteBuffer.wrap SnappyFramed.headerBytes) with
      | .ok _ p =>
        .ok { out := p.1, blockSize := blockSize.toNat, headerBuffer := .wrap (newArray 8)
              buffer := ⟨array, 0, blockSize.toNat, Nat.zero_le _, h⟩
              directInputBuffer := .wrap direct, outputBuffer := .wrap output
              closed := false, taken := [], released := [] }
      | .error e _ => .error e
    else
      .error .indexOutOfBoundsException

/-! ## Writing a frame -/

/-- `out.write` of one of the buffers. The number of bytes taken is ignored. -/
def writeOut (get : SnappyFramedOutputStream → ByteBuffer)
    (put : ByteBuffer → SnappyFramedOutputStream → SnappyFramedOutputStream) : Method Unit := do
  let _ ← zoom (fun s => (s.out, get s)) (fun p s => put p.2 { s with out := p.1 })
    WritableByteChannel.write
  pure ()

/-- The flag, the length with the checksum, and the checksum. -/
def frameHeader (compressed : Bool) (remaining : Nat) (crc32c : BitVec 32) : Bytes :=
  (if compressed then SnappyFramed.compressedDataFlag else SnappyFramed.uncompressedDataFlag) ::
    le24 (remaining + 4) ++ le32 crc32c

def writeBlock (compressed : Bool) (crc32c : BitVec 32) : Method Unit := do
  let s ← get
  let data := if compressed then s.outputBuffer else s.buffer
  let filled ← fromExcept
    (s.headerBuffer.clear.put (frameHeader compressed data.remaining crc32c))
  set { s with headerBuffer := filled.flip }
  writeOut headerBuffer fun b s => { s with headerBuffer := b }
  if compressed then
    writeOut outputBuffer fun b s => { s with outputBuffer := b }
  else
    writeOut buffer fun b s => { s with buffer := b }

def writeCompressed (w : FrameWriter) : Method Unit := do
  let s ← get
  let length := s.buffer.remaining
  let crc32c := SnappyFramed.maskedCrc32c w.crc32c s.buffer.array 0 length
  let filled ← fromExcept (s.directInputBuffer.clear.put s.buffer.content)
  set { s with directInputBuffer := filled.flip, buffer := s.buffer.ended }
  let compressed ← fromExcept (Snappy.compressDirect w.codec filled.flip s.outputBuffer.clear)
  modify fun s => { s with outputBuffer := compressed }
  if w.acceptable compressed.remaining length then
    writeBlock true crc32c
  else
    modify fun s => { s with buffer := s.buffer.flip }
    writeBlock false crc32c

def flushBuffer (w : FrameWriter) : Method Unit := do
  let s ← get
  when (s.buffer.position > 0) do
    set { s with buffer := s.buffer.flip }
    writeCompressed w
    let t ← get
    let limited ← fromExcept (t.buffer.clear.setLimit t.blockSize)
    set { t with buffer := limited }

/-- `if (buffer.remaining() <= 0) flushBuffer();` -/
def makeRoom (w : FrameWriter) : Method Unit := do
  let s ← get
  when (s.buffer.remaining = 0) (flushBuffer w)

/-! ## The public methods -/

def streamIsClosed : Throwable := .ioException "Stream is closed"

/-- `buffer.put` of bytes of the caller. -/
def put (xs : Bytes) : Method Unit := do
  let s ← get
  let filled ← fromExcept (s.buffer.put xs)
  set { s with buffer := filled, taken := s.taken ++ xs }

/-- `write(int)`. -/
def writeByte (w : FrameWriter) (b : Int) : Method Unit := do
  let s ← get
  if s.closed then
    throw streamIsClosed
  else
    makeRoom w
    put [toByte b]

/-- One round of the loop of `write(byte[], int, int)`. -/
def writeRound (w : FrameWriter) (input : Bytes) (p : Int × Int) :
    Method ((Int × Int) ⊕ Unit) := do
  let (offset, length) := p
  if length > 0 then
    makeRoom w
    let s ← get
    let toPut := min length s.buffer.remaining
    if offset < 0 ∨ input.length < offset + toPut then
      throw .indexOutOfBoundsException
    else
      put (slice input offset.toNat toPut.toNat)
      pure (.inl (offset + toPut, length - toPut))
  else
    pure (.inr ())

/-- `write(byte[], int, int)`. -/
def write (w : FrameWriter) (input : Bytes) (offset length : Int) : Method Unit := do
  let s ← get
  if s.closed then
    throw streamIsClosed
  else if offset < 0 ∨ offset > input.length ∨ length < 0 ∨
      wrap32 (offset + length) > input.length ∨ wrap32 (offset + length) < 0 then
    throw .indexOutOfBoundsException
  else
    loop .outOfFuel (writeRound w input) (length.toNat + 1) (offset, length)

/-- A method next to a local buffer or source of the caller. -/
def onStream {α β : Type} (m : Method α) : EStateM Throwable (SnappyFramedOutputStream × β) α :=
  zoom Prod.fst (fun s p => (s, p.2)) m

/-- `buffer.put(src)`. -/
def putSource : EStateM Throwable (SnappyFramedOutputStream × ByteBuffer) Unit := do
  let (_, src) ← get
  onStream (put src.content)
  modify fun p => (p.1, src.ended)

/-- One round of the loop of `write(ByteBuffer)`. Irreducible, for unification
must not evaluate `wrap32`. -/
@[irreducible] def fillRound (w : FrameWriter) (srcEnd : Nat) (_ : Unit) :
    EStateM Throwable (SnappyFramedOutputStream × ByteBuffer) (Unit ⊕ Unit) := do
  let (s, src) ← get
  let newLimit := wrap32 (src.position + s.buffer.remaining)
  if newLimit ≤ srcEnd then
    let limited ← fromExcept (src.setLimit newLimit)
    set (s, limited)
    putSource
    onStream (flushBuffer w)
    pure (.inl ())
  else
    pure (.inr ())

/-- `write(ByteBuffer)`; the second component of the state is the caller's
buffer. -/
def writeBuffer (w : FrameWriter) :
    EStateM Throwable (SnappyFramedOutputStream × ByteBuffer) Int := do
  let (s, _) ← get
  if s.closed then
    throw .closedChannelException
  else
    onStream (makeRoom w)
    let (s, src) ← get
    let srcLength := src.remaining
    if s.buffer.remaining ≥ src.remaining then
      putSource
      pure srcLength
    else
      let srcEnd := src.position + src.remaining
      loop .outOfFuel (fillRound w srcEnd) (srcLength + 1) ()
      let (t, src) ← get
      let reset ← fromExcept (src.setLimit srcEnd)
      set (t, reset)
      putSource
      pure srcLength

/-- One round of the loop that the two `transferFrom` share but for the read;
the state of the loop is `totTransfered`. -/
def transferRound (w : FrameWriter)
    (read : ByteBuffer → EStateM Throwable Source (Option Nat × ByteBuffer)) (totTransfered : Nat) :
    EStateM Throwable (SnappyFramedOutputStream × Source) (Nat ⊕ Nat) := do
  let (s, _) ← get
  let (n, filled) ← zoom Prod.snd (fun source p => (p.1, source)) (read s.buffer)
  match n with
  | none => pure (.inr totTransfered)
  | some n =>
    modify fun p => ({ p.1 with
      buffer := filled, taken := p.1.taken ++ slice filled.array s.buffer.position n }, p.2)
    onStream (makeRoom w)
    pure (.inl (totTransfered + n))

def transferFromBy (w : FrameWriter)
    (read : ByteBuffer → EStateM Throwable Source (Option Nat × ByteBuffer)) :
    EStateM Throwable (SnappyFramedOutputStream × Source) Nat := do
  let (s, source) ← get
  if s.closed then
    throw .closedChannelException
  else
    onStream (makeRoom w)
    loop .outOfFuel (transferRound w read) (source.size + 1) 0

/-- `transferFrom(InputStream)`, which writes into the array of `buffer`. -/
def transferFromStream (w : FrameWriter) :
    EStateM Throwable (SnappyFramedOutputStream × Source) Nat := transferFromBy w readArray

/-- `transferFrom(ReadableByteChannel)`. -/
def transferFromChannel (w : FrameWriter) :
    EStateM Throwable (SnappyFramedOutputStream × Source) Nat :=
  transferFromBy w SnappyFramed.readChannel

def flush (w : FrameWriter) : Method Unit := do
  let s ← get
  if s.closed then
    throw streamIsClosed
  else
    flushBuffer w

/-- The buffers are those of the allocations 0, 1 and 2. -/
def close (w : FrameWriter) : Method Unit := do
  let s ← get
  if s.closed then
    pure ()
  else
    ensuring
      (do
        flush w
        zoom SnappyFramedOutputStream.out (fun o s => { s with out := o })
          WritableByteChannel.close)
      (modify fun s => { s with closed := true, released := s.released ++ [0, 1, 2] })

/-! ## Runs -/

/-- The public calls that write, with the caller's buffers and sources. -/
inductive WriteCall
  | writeByte (b : Int)
  | write (input : Bytes) (offset length : Int)
  | writeBuffer (src : ByteBuffer)
  | transferFromStream (source : Source)
  | transferFromChannel (source : Source)
  | flush
  deriving DecidableEq, Repr

/-- What a call returns and what it leaves of the caller's buffer or source. -/
inductive WriteResult
  | done
  | written (n : Int) (src : ByteBuffer)
  | transferred (n : Nat) (source : Source)
  deriving DecidableEq, Repr

/-- A method with a local of the caller, which an exception leaves behind. -/
def withCaller {α β : Type} (b : β) (f : α → β → WriteResult)
    (m : EStateM Throwable (SnappyFramedOutputStream × β) α) : Method WriteResult := do
  let (r, b') ← withLocal b m
  match r with
  | .ok a => pure (f a b')
  | .error e => throw e

def perform (w : FrameWriter) : WriteCall → Method WriteResult
  | .writeByte b => do writeByte w b; pure .done
  | .write input offset length => do write w input offset length; pure .done
  | .writeBuffer src => withCaller src .written (writeBuffer w)
  | .transferFromStream source => withCaller source .transferred (transferFromStream w)
  | .transferFromChannel source => withCaller source .transferred (transferFromChannel w)
  | .flush => do flush w; pure .done

/-- The calls one after another, up to the first exception. -/
def run (w : FrameWriter) (calls : List WriteCall) : Method (List WriteResult) :=
  runAll (perform w) calls

end SnappyFramedOutputStream

end SnappyJava
