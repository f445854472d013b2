import SnappyJava.Frame
import SnappyJava.Lib.Leases
import SnappyJava.Lib.Reading

/-! `SnappyFramedInputStream`, function by function. The state also keeps
records: what was done with the buffers of the pool, the calls of the native
decompressor, the frames that were read and the bytes that were delivered. -/

namespace SnappyJava

open Exec Memory Words

/-- A buffer obtained from the pool: the number of the allocation, and what the
buffer holds. -/
structure Lease where
  id : Nat
  contents : Bytes
  deriving DecidableEq, Repr

/-- Bytes handed to the caller, the `position` they were taken at, and the
frame that had been read last. -/
structure Delivery where
  bytes : Bytes
  position : Nat
  frame : Option Frame
  deriving DecidableEq, Repr

/-- Of the direct buffers only the contents are kept: each use starts with
`clear`. Two more fields are records: `headerSource` is the channel as the last
block header was about to be read, and `verified` says whether the last frame has
passed its check. -/
structure SnappyFramedInputStream where
  rbc : Source
  verifyChecksums : Bool
  input : Option Lease
  uncompressedDirect : Option Lease
  buffer : Option Lease
  closed : Bool
  eof : Bool
  valid : Nat
  position : Nat
  headerSource : Option Source
  allocations : Nat
  poolEvents : List Leases.Event
  returned : List Lease
  uncompressCalls : List UncompressCall
  frames : List Frame
  verified : Bool
  deliveries : List Delivery
  deriving DecidableEq, Repr

namespace SnappyFramedInputStream

abbrev Method := EStateM Throwable SnappyFramedInputStream

def onRbc {α : Type} (m : EStateM Throwable Source α) : Method α :=
  zoom SnappyFramedInputStream.rbc (fun i s => { s with rbc := i }) m

/-! ## The buffers -/

def record (e : Leases.Event) : Method Unit :=
  modify fun s => { s with poolEvents := s.poolEvents ++ [e] }

/-- An allocation. It has its number whether or not it succeeds. -/
def allocate (answer : Nat → Nat → Except Throwable Bytes) (size : Nat) : Method Lease := do
  let s ← get
  set { s with allocations := s.allocations + 1 }
  let contents ← fromExcept (answer s.allocations size)
  record (.acquire s.allocations)
  pure ⟨s.allocations, contents⟩

/-- The buffer goes back to the pool. What it holds then is kept, for a view of
it that is still around. -/
def release (l : Lease) : Method Unit := do
  record (.release l.id)
  modify fun s => { s with returned := s.returned ++ [l] }

/-- The buffer behind a field that is about to be read or written. -/
def access (field : SnappyFramedInputStream → Option Lease) : Method Lease := do
  let s ← get
  match field s with
  | none => throw .nullPointerException
  | some l =>
    record (.use l.id)
    pure l

def releaseField (field : SnappyFramedInputStream → Option Lease) : Method Unit := do
  let s ← get
  match field s with
  | none => pure ()
  | some l => release l

def capacity (l : Option Lease) : Nat := (l.map fun l => l.contents.length).getD 0

def allocateBuffersBasedOnSize (platform : Platform) (size : Nat) : Method Unit := do
  releaseField SnappyFramedInputStream.input
  releaseField SnappyFramedInputStream.uncompressedDirect
  releaseField SnappyFramedInputStream.buffer
  let input ← allocate platform.bufferPool.allocateDirect size
  modify fun s => { s with input := some input }
  let maxCompressedLength := (Snappy.maxCompressedLength size).toNat
  let uncompressedDirect ← allocate platform.bufferPool.allocateDirect maxCompressedLength
  modify fun s => { s with uncompressedDirect := some uncompressedDirect }
  let buffer ← allocate platform.bufferPool.allocateArray maxCompressedLength
  modify fun s => { s with buffer := some buffer }

/-- The larger buffers for a block that does not fit. -/
def reallocateForBlock (platform : Platform) (uncompressedLength : Nat) : Method Unit := do
  releaseField SnappyFramedInputStream.uncompressedDirect
  releaseField SnappyFramedInputStream.buffer
  let uncompressedDirect ← allocate platform.bufferPool.allocateDirect uncompressedLength
  modify fun s => { s with uncompressedDirect := some uncompressedDirect }
  let buffer ← allocate platform.bufferPool.allocateArray uncompressedLength
  modify fun s => { s with buffer := some buffer }

/-! ## The constructor -/

def maxBlockSize : Nat := 64 * 1024

/-- The fields as they are initialised. -/
def initial (rbc : Source) (verifyChecksums : Bool) : SnappyFramedInputStream :=
  { rbc, verifyChecksums, input := none, uncompressedDirect := none, buffer := none
    closed := false, eof := false, valid := 0, position := 0, headerSource := none
    allocations := 0, poolEvents := [], returned := [], uncompressCalls := [], frames := []
    verified := false, deliveries := [] }

/-- The body of the constructor. -/
def init (platform : Platform) : Method Unit := do
  allocateBuffersBasedOnSize platform (maxBlockSize + 5)
  let expectedHeader := SnappyFramed.headerBytes
  let (read, actualBuffer) ←
    onRbc (SnappyFramed.readBytes (.wrap (newArray expectedHeader.length)))
  if read < expectedHeader.length then
    throw (.eofException "encountered EOF while reading stream header")
  else if expectedHeader ≠ actualBuffer.array then
    throw (.ioException "invalid stream header")
  else
    pure ()

def new (platform : Platform) (rbc : Source) (verifyChecksums : Bool) :
    Except Throwable SnappyFramedInputStream :=
  match (init platform).run (initial rbc verifyChecksums) with
  | .ok _ s => .ok s
  | .error e _ => .error e

/-! ## Frames -/

inductive FrameAction
  | raw | skip | uncompress
  deriving DecidableEq, Repr

structure FrameMetaData where
  frameAction : FrameAction
  length : Nat
  deriving DecidableEq, Repr

/-- The four bytes of a block header, or `none` where the stream ends. -/
def readBlockHeader : Method (Option Bytes) := do
  modify fun s => { s with headerSource := some s.rbc }
  let (read, frameHeader) ← onRbc (SnappyFramed.readBytes (.wrap (newArray 4)))
  if read = -1 then
    pure none
  else if read < frameHeader.capacity then
    throw (.eofException "encountered EOF while reading block header")
  else
    pure (some frameHeader.array)

private def hexDigits (n : Nat) : String := String.ofList (Nat.toDigits 16 n)

def getFrameMetaData (frameHeader : Bytes) : Except Throwable FrameMetaData :=
  let length := ofLE24 (frameHeader.getD 1 0) (frameHeader.getD 2 0) (frameHeader.getD 3 0)
  let flag := frameHeader.getD 0 0
  let action : Except Throwable (FrameAction × Nat) :=
    if flag = SnappyFramed.compressedDataFlag then
      .ok (.uncompress, 5)
    else if flag = SnappyFramed.uncompressedDataFlag then
      .ok (.raw, 5)
    else if flag = SnappyFramed.streamIdentifierFlag then
      if length ≠ 6 then
        .error (.ioException ("stream identifier chunk with invalid length: " ++ toString length))
      else
        .ok (.skip, 6)
    else if flag ≤ 0x7f then
      .error (.ioException ("unsupported unskippable chunk: " ++ hexDigits flag.toNat))
    else
      .ok (.skip, 0)
  match action with
  | .error e => .error e
  | .ok (frameAction, minLength) =>
    if length < minLength then
      .error (.ioException ("invalid length: " ++ toString length ++ " for chunk flag: " ++
        hexDigits flag.toNat))
    else
      .ok ⟨frameAction, length⟩

/-- A frame that is skipped is read into `buffer`. -/
def skipFrame (length : Nat) : Method Unit := do
  let l ← access SnappyFramedInputStream.buffer
  let (_, read) ← onRbc (SnappyFramed.skip length (.wrap l.contents))
  modify fun s => { s with buffer := some { l with contents := read.array } }

/-- The frame behind its header goes to the front of `input`: its bytes. -/
def readFrame (platform : Platform) (length : Nat) : Method Bytes := do
  let s ← get
  when (length > capacity s.input) (allocateBuffersBasedOnSize platform length)
  let l ← access SnappyFramedInputStream.input
  let limited ← fromExcept ((ByteBuffer.wrap l.contents).setLimit length)
  let (actualRead, read) ← onRbc (SnappyFramed.readBytes limited)
  modify fun s => { s with input := some { l with contents := read.array } }
  if actualRead ≠ length then
    throw (.eofException "unexpectd EOF when reading frame")
  else
    let t ← access SnappyFramedInputStream.input
    pure (t.contents.take length)

/-- `Snappy.uncompress(input, uncompressedDirect)` on the block in `input`. -/
def uncompress (codec : Codec) (payload : Bytes) : Method Nat := do
  let _ ← access SnappyFramedInputStream.input
  let l ← access SnappyFramedInputStream.uncompressedDirect
  let result := Snappy.uncompress codec payload l.contents
  let call : UncompressCall := ⟨(codec.getUncompressedLength payload).getD 0, l.contents.length⟩
  modify fun s => { s with
    uncompressedDirect := some { l with contents := result.2 }
    uncompressCalls := s.uncompressCalls ++ [call] }
  let n ← fromExcept result.1
  pure n.toNat

/-- `get(buffer, 0, length)` of a direct buffer that holds `data`. -/
def copyToBuffer (data : Bytes) : Method Unit := do
  let l ← access SnappyFramedInputStream.buffer
  if l.contents.length < data.length then
    throw .indexOutOfBoundsException
  else
    modify fun s => { s with buffer := some { l with contents := splice l.contents 0 data } }

/-- The branch of `ensureBuffer` for a compressed frame. -/
def uncompressFrame (platform : Platform) (payload : Bytes) : Method Unit := do
  let _ ← access SnappyFramedInputStream.input
  let uncompressedLength ← fromExcept (Snappy.uncompressedLength platform.codec payload)
  let s ← get
  when (uncompressedLength > capacity s.uncompressedDirect)
    (reallocateForBlock platform uncompressedLength.toNat)
  let n ← uncompress platform.codec payload
  modify fun s => { s with valid := n }
  let d ← access SnappyFramedInputStream.uncompressedDirect
  copyToBuffer (d.contents.take n)
  modify fun s => { s with position := 0 }

/-- The branch of `ensureBuffer` for a raw frame. -/
def copyFrame (payload : Bytes) : Method Unit := do
  modify fun s => { s with position := 0, valid := payload.length }
  let _ ← access SnappyFramedInputStream.input
  copyToBuffer payload

/-- The comparison of the checksums, made after `position` and `valid` are set. -/
def verifyFrame (platform : Platform) (checkSum : BitVec 32) : Method Unit := do
  let s ← get
  when s.verifyChecksums do
    let l ← access SnappyFramedInputStream.buffer
    when (checkSum ≠ SnappyFramed.maskedCrc32c platform.crc32c l.contents s.position
        (s.valid - s.position)) do
      throw (.ioException "Corrupt input: invalid checksum")
  modify fun s => { s with verified := true }

/-- A data frame is read, decoded and checked. -/
def loadFrame (platform : Platform) (flag : UInt8) (compressed : Bool) (length : Nat) :
    Method Unit := do
  let body ← readFrame platform length
  let frame : Frame := ⟨flag, body⟩
  modify fun s => { s with frames := s.frames ++ [frame], verified := false }
  if compressed then uncompressFrame platform frame.payload else copyFrame frame.payload
  verifyFrame platform frame.checkSum

/-- `available()`. -/
def availableNow (s : SnappyFramedInputStream) : Int :=
  if s.closed then 0 else s.valid - s.position

/-- `ensureBuffer` up to its call of itself, which follows a skipped frame. -/
def ensureBufferRound (platform : Platform) (_ : Unit) : Method (Unit ⊕ Bool) := do
  let s ← get
  if s.availableNow > 0 then
    pure (.inr true)
  else if s.eof then
    pure (.inr false)
  else
    match ← readBlockHeader with
    | none =>
      modify fun s => { s with eof := true }
      pure (.inr false)
    | some frameHeader =>
      let frameMetaData ← fromExcept (getFrameMetaData frameHeader)
      if frameMetaData.frameAction = .skip then
        skipFrame frameMetaData.length
        pure (.inl ())
      else
        loadFrame platform (frameHeader.getD 0 0) (frameMetaData.frameAction = .uncompress)
          frameMetaData.length
        pure (.inr true)

def ensureBuffer (platform : Platform) : Method Bool := do
  let s ← get
  loop .outOfFuel (ensureBufferRound platform) (s.rbc.size + 1) ()

/-! ## The public methods -/

/-- `bytes` are handed to the caller; they were taken at `position`. -/
def deliver (position : Nat) (bytes : Bytes) : Method Unit :=
  modify fun s => { s with deliveries := s.deliveries ++ [⟨bytes, position, s.frames.getLast?⟩] }

/-- `position += n`. -/
def advance (n : Nat) : Method Unit := modify fun s => { s with position := s.position + n }

/-- `read()`. -/
def readByte (platform : Platform) : Method Int := do
  let s ← get
  if s.closed then
    pure (-1)
  else
    let ready ← ensureBuffer platform
    if ready then
      let l ← access SnappyFramedInputStream.buffer
      let t ← get
      advance 1
      match l.contents[t.position]? with
      | none => throw .indexOutOfBoundsException
      | some x =>
        deliver t.position [x]
        pure x.toNat
    else
      pure (-1)

/-- What the bulk methods hand out: as much of `room` as is available. -/
def takeAvailable (room : Nat) : Method Bytes := do
  let s ← get
  let size := (min (room : Int) s.availableNow).toNat
  let l ← access SnappyFramedInputStream.buffer
  if l.contents.length < s.position + size then
    throw .indexOutOfBoundsException
  else
    let bytes := slice l.contents s.position size
    deliver s.position bytes
    advance size
    pure bytes

/-- `read(byte[], int, int)`: the result and the array after the call. -/
def read (platform : Platform) (output : Bytes) (offset length : Int) : Method (Int × Bytes) := do
  let s ← get
  if offset < 0 ∨ length < 0 ∨ Words.wrap32 (offset + length) > output.length then
    throw (.illegalArgumentException ("invalid offset [" ++ toString offset ++ "] and length [" ++
      toString length ++ "]"))
  else if s.closed then
    throw .closedChannelException
  else if length = 0 then
    pure (0, output)
  else
    let ready ← ensureBuffer platform
    if ready then
      let t ← get
      -- a range that has passed the test by overflow fails in `arraycopy`
      if output.length < offset.toNat + (min length t.availableNow).toNat then
        throw .indexOutOfBoundsException
      else
        let bytes ← takeAvailable length.toNat
        pure (bytes.length, splice output offset.toNat bytes)
    else
      pure (-1, output)

/-- `read(ByteBuffer)`: the result and the buffer after the call. -/
def readBuffer (platform : Platform) (dst : ByteBuffer) : Method (Int × ByteBuffer) := do
  let s ← get
  if s.closed then
    throw .closedChannelException
  else if dst.remaining = 0 then
    pure (0, dst)
  else
    let ready ← ensureBuffer platform
    if ready then
      let bytes ← takeAvailable dst.remaining
      let filled ← fromExcept (dst.put bytes)
      pure (bytes.length, filled)
    else
      pure (-1, dst)

/-- The stream, where the target of a transfer is part of the state too. -/
def onStream {τ α : Type} (m : Method α) : EStateM Throwable (SnappyFramedInputStream × τ) α :=
  zoom Prod.fst (fun s u => (s, u.2)) m

/-- A round of `transferTo(OutputStream)`; the state of the loop is
`totTransfered`. -/
def transferToStreamRound (platform : Platform) (totTransfered : Nat) :
    EStateM Throwable (SnappyFramedInputStream × OutputStream) (Nat ⊕ Nat) := do
  let ready ← onStream (ensureBuffer platform)
  if ready then
    let s ← onStream get
    let available := s.availableNow.toNat
    let l ← onStream (access SnappyFramedInputStream.buffer)
    if l.contents.length < s.position + available then
      throw .indexOutOfBoundsException
    else
      let bytes := slice l.contents s.position available
      zoom Prod.snd (fun o u => (u.1, o)) (OutputStream.write bytes)
      onStream (deliver s.position bytes)
      onStream (advance available)
      pure (.inl (totTransfered + available))
  else
    pure (.inr totTransfered)

/-- `transferTo(OutputStream)`. -/
def transferToStream (platform : Platform) :
    EStateM Throwable (SnappyFramedInputStream × OutputStream) Nat := do
  let s ← onStream get
  if s.closed then
    throw .closedChannelException
  else
    loop .outOfFuel (transferToStreamRound platform) (s.rbc.size + 2) 0

/-- What a view of the array that has come from allocation `id` is a view of now: the
buffer, if the pool has handed that array out again, or the array as it went back last.
Nobody else is taken to have written to an array that went back. -/
def viewed (s : SnappyFramedInputStream) (pool : BufferPool) (id : Nat) : Lease :=
  ((s.buffer.toList ++ s.returned.reverse).find? fun l => pool.object l.id = pool.object id).getD
    ⟨id, []⟩

/-- A round of `transferTo(WritableByteChannel)`; the array that `bb` is a view of has
come from allocation `id`. -/
def transferToChannelRound (platform : Platform) (id : Nat) (totTransfered : Nat) :
    EStateM Throwable (SnappyFramedInputStream × WritableByteChannel) (Nat ⊕ Nat) := do
  let ready ← onStream (ensureBuffer platform)
  if ready then
    let s ← onStream get
    let l := s.viewed platform.bufferPool id
    let positioned ← fromExcept ((ByteBuffer.wrap l.contents).setPosition s.position)
    let bb ← fromExcept (positioned.setLimit (s.position + s.availableNow))
    onStream (record (.use l.id))
    let (outcome, rest) ← withLocal bb
      (zoom (fun u => (u.1.2, u.2)) (fun v u => ((u.1.1, v.1), v.2)) WritableByteChannel.write)
    let written := rest.position - s.position
    onStream (deliver s.position (slice bb.array s.position written))
    -- `position` stays where it was if the channel has thrown
    let _ ← fromExcept outcome
    onStream (advance written)
    pure (.inl (totTransfered + written))
  else
    pure (.inr totTransfered)

/-- `transferTo(WritableByteChannel)`. The view `bb` is made once, of the array
that is `buffer` at the start. -/
def transferToChannel (platform : Platform) :
    EStateM Throwable (SnappyFramedInputStream × WritableByteChannel) Nat := do
  let (s, wbc) ← get
  if s.closed then
    throw .closedChannelException
  else
    match s.buffer with
    | none => throw .nullPointerException
    | some l =>
      loop .outOfFuel (transferToChannelRound platform l.id)
        (s.rbc.size + wbc.responses.length + 2) 0

def isOpen (s : SnappyFramedInputStream) : Bool := !s.closed

/-- `close()`, over a source whose own `close` may throw. -/
def close (sourceFails : Bool) : Method Unit :=
  ensuring (if sourceFails then throw .underlyingException else pure ()) do
    let s ← get
    when (s.closed = false) do
      modify fun s => { s with closed := true }
      releaseField SnappyFramedInputStream.input
      modify fun s => { s with input := none }
      releaseField SnappyFramedInputStream.uncompressedDirect
      modify fun s => { s with uncompressedDirect := none }
      releaseField SnappyFramedInputStream.buffer
      modify fun s => { s with buffer := none }

/-! ## Calls -/

inductive ReadCall
  | readByte
  | read (output : Bytes) (offset length : Int)
  | readBuffer (dst : ByteBuffer)
  | transferToStream (os : OutputStream)
  | transferToChannel (wbc : WritableByteChannel)
  | available
  | close (sourceFails : Bool)
  deriving DecidableEq, Repr

/-- What a call does, and what the caller gets from it. -/
def perform (platform : Platform) : ReadCall → Method (Reading.Answer UInt8)
  | .readByte => do
    let b ← readByte platform
    pure (if b = -1 then ⟨true, [], true, 0⟩ else ⟨true, [toByte b], false, 0⟩)
  | .read output offset length => do
    let (n, filled) ← read platform output offset length
    pure ⟨0 < length, slice filled offset.toNat n.toNat, n = -1, 0⟩
  | .readBuffer dst => do
    let (n, filled) ← readBuffer platform dst
    pure ⟨0 < dst.remaining, slice filled.array dst.position n.toNat, n = -1, 0⟩
  | .transferToStream os => do
    let (outcome, after) ← withLocal os (transferToStream platform)
    let _ ← fromExcept outcome
    pure ⟨false, after.received.drop os.received.length, false, 0⟩
  | .transferToChannel wbc => do
    let (outcome, after) ← withLocal wbc (transferToChannel platform)
    let _ ← fromExcept outcome
    pure ⟨false, after.received.drop wbc.received.length, false, 0⟩
  | .available => do
    let s ← get
    pure ⟨false, [], false, s.availableNow⟩
  | .close sourceFails => do
    close sourceFails
    pure ⟨false, [], false, 0⟩

/-- The constructor and then any calls, each exception ending its own call. -/
def openRun (platform : Platform) (calls : List ReadCall) :
    Method (List (Except Throwable (Reading.Answer UInt8))) := do
  init platform
  runOn Throwable.Fatal (perform platform) calls

end SnappyFramedInputStream

end SnappyJava
