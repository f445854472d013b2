import SnappyJava.SnappyCodec

/-! `SnappyOutputStream` and its subclass `SnappyHadoopCompatibleOutputStream`:
a buffered writer of compressed blocks, function by function. The state also
keeps a record of the bytes copied into `inputBuffer`, of the calls of the
native compressor and of the buffers given back to the allocators. -/

namespace SnappyJava

open Exec Memory

inductive StreamClass
  | snappyOutputStream | snappyHadoopCompatibleOutputStream
  deriving DecidableEq, Repr

/-- Java's `null` after `close` is the empty array here: every method asks for
`closed` before it touches a buffer. -/
structure SnappyOutputStream where
  out : OutputStream
  blockSize : Nat
  inputBuffer : Bytes
  outputBuffer : Bytes
  inputCursor : Nat
  outputCursor : Nat
  headerWritten : Bool
  closed : Bool
  copied : Bytes
  inputReleases : Nat
  outputReleases : Nat
  compressCalls : List CompressCall
  deriving DecidableEq, Repr

namespace SnappyOutputStream

def maxBlockSize : Nat := 512 * 1024 * 1024
def minBlockSize : Nat := 1 * 1024

/-- The constructor. `allocate` is what the allocators of the two sizes hand
out, arrays with whatever they held before; a negative size is refused by Java. -/
def new (allocate : Nat → Bytes) (out : OutputStream) (blockSize : Int) :
    Except Throwable SnappyOutputStream :=
  let thisBlockSize := max (minBlockSize : Int) blockSize
  if thisBlockSize > maxBlockSize then
    .error (.illegalArgumentException ("Provided chunk size " ++ formatGrouped thisBlockSize ++
      " larger than max " ++ formatGrouped maxBlockSize))
  else
    let inputSize := blockSize
    let outputSize := SnappyCodec.headerSize + 4 + Snappy.maxCompressedLength blockSize
    if inputSize < 0 ∨ outputSize < 0 then
      .error .negativeArraySizeException
    else
      .ok { out, blockSize := thisBlockSize.toNat
            inputBuffer := allocate inputSize.toNat, outputBuffer := allocate outputSize.toNat
            inputCursor := 0, outputCursor := 0, headerWritten := false, closed := false
            copied := [], inputReleases := 0, outputReleases := 0, compressCalls := [] }

abbrev Method := EStateM Throwable SnappyOutputStream

def onOut {α : Type} (m : EStateM Throwable OutputStream α) : Method α :=
  zoom SnappyOutputStream.out (fun o s => { s with out := o }) m

def hasSufficientOutputBufferFor (s : SnappyOutputStream) (inputSize : Nat) : Bool :=
  let maxCompressedSize := Snappy.maxCompressedLength inputSize
  maxCompressedSize < (s.outputBuffer.length : Int) - s.outputCursor - 4

def dumpOutput : Method Unit := do
  let s ← get
  when (s.outputCursor > 0) do
    onOut (OutputStream.write (s.outputBuffer.take s.outputCursor))
    modify fun s => { s with outputCursor := 0 }

/-- Bounds-checked stores into `outputBuffer`, one after another. -/
def storeOutput : Nat → Bytes → Method Unit
  | _, [] => pure ()
  | offset, x :: xs => do
    let s ← get
    if offset < s.outputBuffer.length then
      set { s with outputBuffer := s.outputBuffer.set offset x }
      storeOutput (offset + 1) xs
    else
      throw .indexOutOfBoundsException

/-- `writeInt` into `outputBuffer`. -/
def writeInt (offset : Nat) (v : Int) : Method Unit := storeOutput offset (intBytes v)

/-- The base class copies the header to the front of `outputBuffer`. -/
def writeHeader : StreamClass → Method Nat
  | .snappyOutputStream => do
    let header := SnappyCodec.currentHeader.headerArray
    let s ← get
    if header.length ≤ s.outputBuffer.length then
      set { s with outputBuffer := splice s.outputBuffer 0 header }
      pure header.length
    else
      throw .indexOutOfBoundsException
  | .snappyHadoopCompatibleOutputStream => pure 0

def writeCurrentDataSize : Method Unit := do
  let s ← get
  writeInt s.outputCursor s.inputCursor
  modify fun s => { s with outputCursor := s.outputCursor + 4 }

def writeBlockPreemble : StreamClass → Method Unit
  | .snappyOutputStream => pure ()
  | .snappyHadoopCompatibleOutputStream => writeCurrentDataSize

/-- `Snappy.compress(inputBuffer, 0, inputLength, outputBuffer, outputOffset)`.
The native code is not told how long `outputBuffer` is. -/
def compress (codec : Codec) (cursor inputLength outputOffset : Nat) : Method Nat := do
  let s ← get
  let call : CompressCall := ⟨cursor, inputLength, outputOffset, s.outputBuffer.length⟩
  set { s with compressCalls := s.compressCalls ++ [call] }
  let compressed := codec.compress (s.inputBuffer.take inputLength)
  if outputOffset + compressed.length ≤ s.outputBuffer.length then
    modify fun s => { s with outputBuffer := splice s.outputBuffer outputOffset compressed }
    pure compressed.length
  else
    throw (.memoryFault .rawCompress)

/-- The first part of `compressInput`: the header, once. -/
def beginOutput (cls : StreamClass) : Method Unit := do
  let s ← get
  when (s.headerWritten = false) do
    let n ← writeHeader cls
    modify fun s => { s with outputCursor := n, headerWritten := true }

/-- The last part of `compressInput`: the preamble, the compressed size and
the compressed data. -/
def emitBlock (codec : Codec) (cls : StreamClass) (cursor : Nat) : Method Unit := do
  writeBlockPreemble cls
  let s ← get
  let compressedSize ← compress codec cursor s.inputCursor (s.outputCursor + 4)
  writeInt s.outputCursor compressedSize
  modify fun s => { s with
    outputCursor := s.outputCursor + (4 + compressedSize), inputCursor := 0 }

def compressInput (codec : Codec) (cls : StreamClass) : Method Unit := do
  beginOutput cls
  let s ← get
  when (s.inputCursor > 0) do
    when (s.hasSufficientOutputBufferFor s.inputCursor = false) dumpOutput
    emitBlock codec cls s.outputCursor

def streamIsClosed : Throwable := .ioException "Stream is closed"

/-- A copy of `len > 0` bytes from `b[offset]` to `inputBuffer[inputCursor]`,
and the step of the cursor. -/
def copyToInput (copy : ArrayCopy) (b : Bytes) (offset : Int) (len : Nat) : Method Unit := do
  let s ← get
  if offset < 0 ∨ b.length < offset.toNat + len then
    throw copy.sourceFault
  else if s.inputBuffer.length < s.inputCursor + len then
    throw copy.destinationFault
  else
    set { s with
      inputBuffer := splice s.inputBuffer s.inputCursor (slice b offset.toNat len)
      inputCursor := s.inputCursor + len
      copied := s.copied ++ slice b offset.toNat len }

/-- One round of the loop that `write(byte[], int, int)` and `rawWrite` share. -/
def writeRound (codec : Codec) (cls : StreamClass) (copy : ArrayCopy) (b : Bytes)
    (byteOffset byteLength : Int) (cursor : Int) : Method (Int ⊕ Unit) := do
  if cursor < byteLength then
    let s ← get
    let readLen := min (byteLength - cursor) ((s.blockSize : Int) - s.inputCursor)
    when (readLen > 0)
      (copyToInput copy b (Words.wrap32 (byteOffset + cursor)) readLen.toNat)
    let t ← get
    if t.inputCursor < t.blockSize then
      pure (.inr ())
    else
      compressInput codec cls
      pure (.inl (cursor + readLen))
  else
    pure (.inr ())

/-- A round that copies nothing empties a full buffer, so no two of these
follow each other. -/
def bulkWrite (codec : Codec) (cls : StreamClass) (copy : ArrayCopy) (b : Bytes)
    (byteOffset byteLength : Int) : Method Unit := do
  let s ← get
  if s.closed then
    throw streamIsClosed
  else
    loop .outOfFuel (writeRound codec cls copy b byteOffset byteLength)
      (2 * byteLength.toNat + 2) 0

/-- `write(byte[], int, int)`. -/
def write (codec : Codec) (cls : StreamClass) (b : Bytes) (byteOffset byteLength : Int) :
    Method Unit :=
  bulkWrite codec cls .systemArraycopy b byteOffset byteLength

/-- `rawWrite`, `array` being the memory of an array of any element type. -/
def rawWrite (codec : Codec) (cls : StreamClass) (array : Bytes) (byteOffset byteLength : Int) :
    Method Unit :=
  bulkWrite codec cls .snappyArrayCopy array byteOffset byteLength

/-- `write(long[] d, int off, int len)` and its siblings, `d` being the memory
of the array. -/
def writeArray (codec : Codec) (cls : StreamClass) (t : ElementType) (d : Bytes) (off len : Int) :
    Method Unit :=
  rawWrite codec cls d (Words.wrap32 (off * t.size)) (Words.wrap32 (len * t.size))

/-- `inputBuffer[inputCursor++] = b`. -/
def putByte (b : UInt8) : Method Unit := do
  let s ← get
  set { s with inputCursor := s.inputCursor + 1 }
  if s.inputCursor < s.inputBuffer.length then
    modify fun t => { t with
      inputBuffer := t.inputBuffer.set s.inputCursor b, copied := t.copied ++ [b] }
  else
    throw .indexOutOfBoundsException

/-- `write(int)`. -/
def writeByte (codec : Codec) (cls : StreamClass) (b : Int) : Method Unit := do
  let s ← get
  if s.closed then
    throw streamIsClosed
  else
    when (s.inputCursor ≥ s.inputBuffer.length) (compressInput codec cls)
    putByte (toByte b)

def flush (codec : Codec) (cls : StreamClass) : Method Unit := do
  let s ← get
  if s.closed then
    throw streamIsClosed
  else
    compressInput codec cls
    dumpOutput
    onOut OutputStream.flush

def close (codec : Codec) (cls : StreamClass) : Method Unit := do
  let s ← get
  if s.closed then
    pure ()
  else
    ensuring
      (do flush codec cls; onOut OutputStream.close)
      (modify fun s => { s with
        closed := true, inputReleases := s.inputReleases + 1
        outputReleases := s.outputReleases + 1, inputBuffer := [], outputBuffer := [] })

/-! ## Runs -/

/-- The public calls that write. -/
inductive WriteCall
  | writeByte (b : Int)
  | write (b : Bytes) (byteOffset byteLength : Int)
  | rawWrite (array : Bytes) (byteOffset byteLength : Int)
  | writeArray (t : ElementType) (d : Bytes) (off len : Int)
  | flush
  deriving DecidableEq, Repr

def perform (codec : Codec) (cls : StreamClass) : WriteCall → Method Unit
  | .writeByte b => writeByte codec cls b
  | .write b byteOffset byteLength => write codec cls b byteOffset byteLength
  | .rawWrite array byteOffset byteLength => rawWrite codec cls array byteOffset byteLength
  | .writeArray t d off len => writeArray codec cls t d off len
  | .flush => flush codec cls

/-- The calls one after another, up to the first exception. -/
def run (codec : Codec) (cls : StreamClass) (calls : List WriteCall) : Method (List Unit) :=
  runAll (perform codec cls) calls

end SnappyOutputStream

end SnappyJava
