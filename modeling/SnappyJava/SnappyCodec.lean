import SnappyJava.Native

/-! `SnappyCodec`: the 16-byte header in front of the data a
`SnappyOutputStream` writes. -/

namespace SnappyJava

open Words

/-- `SnappyOutputStream.readInt`: the big-endian `int` at `pos`. -/
def readInt (buffer : Bytes) (pos : Nat) : Int :=
  (ofBytes (buffer.getD pos 0) (buffer.getD (pos + 1) 0) (buffer.getD (pos + 2) 0)
    (buffer.getD (pos + 3) 0)).toInt

/-- The four bytes `SnappyOutputStream.writeInt` stores. -/
def intBytes (v : Int) : Bytes := be32 (BitVec.ofInt 32 v)

@[simp] theorem length_intBytes (v : Int) : (intBytes v).length = 4 := rfl

theorem readInt_intBytes {v : Int} (h : -2 ^ 31 ≤ v) (h' : v < 2 ^ 31) (rest : Bytes) :
    readInt (intBytes v ++ rest) 0 = v := by
  have hw := ofBytes_byteOf (BitVec.ofInt 32 v)
  simp only [readInt, intBytes, be32, List.cons_append, List.getD_cons_zero, List.getD_cons_succ]
  rw [hw, toInt_ofInt h h']

structure SnappyCodec where
  magic : Bytes
  version : Int
  compatibleVersion : Int
  deriving DecidableEq, Repr

namespace SnappyCodec

/-- -126, 'S', 'N', 'A', 'P', 'P', 'Y', 0. -/
def magicHeader : Bytes :=
  [toByte (-126), 'S'.toUInt8, 'N'.toUInt8, 'A'.toUInt8, 'P'.toUInt8, 'P'.toUInt8, 'Y'.toUInt8, 0]

def magicLen : Nat := magicHeader.length
def headerSize : Nat := magicLen + 8
def magicHeaderHead : Int := readInt magicHeader 0
def defaultVersion : Int := 1
def minimumCompatibleVersion : Int := 1

def currentHeader : SnappyCodec := ⟨magicHeader, defaultVersion, minimumCompatibleVersion⟩

def headerArray (c : SnappyCodec) : Bytes :=
  c.magic.take magicLen ++ intBytes c.version ++ intBytes c.compatibleVersion

def isValidMagicHeader (c : SnappyCodec) : Bool := magicHeader = c.magic

def hasMagicHeaderPrefix (b : Bytes) : Bool :=
  let limit := min magicLen b.length
  b.take limit = magicHeader.take limit

/-- Reads from a full header, so that the underlying `readFully` and `readInt`
never meet the end of their stream. -/
def readHeader (header : Bytes) : SnappyCodec :=
  ⟨header.take magicLen, readInt header magicLen, readInt header (magicLen + 4)⟩

/-- The assertion of the static initialiser: no chunk size is the magic. -/
theorem magicHeaderHead_neg : magicHeaderHead < 0 := by decide

@[simp] theorem headerSize_eq : headerSize = 16 := rfl

@[simp] theorem length_headerArray_currentHeader : currentHeader.headerArray.length = 16 := by
  decide

/-- The header a `SnappyOutputStream` writes is accepted. -/
theorem hasMagicHeaderPrefix_headerArray :
    hasMagicHeaderPrefix currentHeader.headerArray = true := by decide

theorem take_headerArray : currentHeader.headerArray.take 4 = intBytes magicHeaderHead := by decide

end SnappyCodec

end SnappyJava
