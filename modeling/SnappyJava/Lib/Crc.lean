import Mathlib

/-! CRC-32C bit by bit: the remainder modulo the Castagnoli polynomial, in the
reflected form, where the bits of a byte come least significant first. -/

namespace Crc

/-- The polynomial, least significant coefficient in the highest bit. -/
def castagnoli : BitVec 32 := 0x82F63B78

/-- One bit goes into the register. -/
def shiftIn (r : BitVec 32) (b : Bool) : BitVec 32 :=
  if r.getLsbD 0 ^^ b then (r >>> 1) ^^^ castagnoli else r >>> 1

def byteIn (r : BitVec 32) (x : UInt8) : BitVec 32 :=
  (List.range 8).foldl (fun r i => shiftIn r (x.toBitVec.getLsbD i)) r

def update (r : BitVec 32) (data : List UInt8) : BitVec 32 := data.foldl byteIn r

def crc32c (data : List UInt8) : BitVec 32 := ~~~ update (~~~ 0) data

/-- The check value of the standard, for the digits 1 to 9. -/
example : crc32c [0x31, 0x32, 0x33, 0x34, 0x35, 0x36, 0x37, 0x38, 0x39] = 0xE3069283 := by
  decide +kernel

end Crc
