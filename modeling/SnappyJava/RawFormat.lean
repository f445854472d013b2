import SnappyJava.LiteralCodec
import SnappyJava.SnappyCodec

/-! The raw Snappy format, as far as its shape goes: a varint and then elements,
each a literal or a copy of bytes that are already there. -/

namespace SnappyJava

open LiteralCodec

namespace RawFormat

def littleEndian : Bytes → Nat
  | [] => 0
  | x :: xs => x.toNat + 256 * littleEndian xs

/-- The number of bytes an element yields and, if it is a copy, how far back from
the end of the output it begins. -/
structure Element where
  length : Nat
  offset : Option Nat
  deriving DecidableEq, Repr

/-- A literal of `n` bytes at the front of the input. -/
def readLiteral (n : Nat) (rest : Bytes) : Option (Element × Bytes) :=
  if n ≤ rest.length then some (⟨n, none⟩, rest.drop n) else none

/-- A copy of `length` bytes; `k` bytes of the input are added to the part of the
offset that the tag holds. -/
def readCopy (length high k : Nat) (rest : Bytes) : Option (Element × Bytes) :=
  if k ≤ rest.length then
    some (⟨length, some (high + littleEndian (rest.take k))⟩, rest.drop k)
  else none

/-- The element at the front of the input; its type is in the two low bits of
the tag. -/
def readElement : Bytes → Option (Element × Bytes)
  | [] => none
  | tag :: rest =>
    let t := tag.toNat
    if t % 4 = 0 then
      if t / 4 < 60 then readLiteral (t / 4 + 1) rest
      else if t / 4 - 59 ≤ rest.length then
        readLiteral (littleEndian (rest.take (t / 4 - 59)) + 1) (rest.drop (t / 4 - 59))
      else none
    else if t % 4 = 1 then readCopy (4 + t / 4 % 8) (t / 32 * 256) 1 rest
    else if t % 4 = 2 then readCopy (t / 4 + 1) 0 2 rest
    else readCopy (t / 4 + 1) 0 4 rest

/-- The input is a sequence of elements, and no copy reaches back beyond the
start of the output, of which `produced` bytes are there. -/
inductive Elements : Nat → Bytes → Prop
  | nil (produced : Nat) : Elements produced []
  | cons {produced : Nat} {bs rest : Bytes} {e : Element} (hread : readElement bs = some (e, rest))
      (hcopy : ∀ offset, e.offset = some offset → offset ≤ produced)
      (hrest : Elements (produced + e.length) rest) : Elements produced bs

/-- A varint of at most five bytes, and elements. -/
def Valid (block : Bytes) : Prop :=
  ∃ n rest, parseVarint 5 block = some (n, rest) ∧ Elements 0 rest

private theorem parseVarint_two {x y : UInt8} (hx : ¬ x.toNat < 128) (hy : y.toNat < 128)
    (xs : Bytes) :
    parseVarint 5 (x :: y :: xs) = some (x.toNat - 128 + 128 * y.toNat, xs) := by
  rw [parseVarint, if_neg hx, parseVarint, if_pos hy, Option.map_some]

/-- The magic of `SnappyOutputStream` as a raw block would be a block of 10626
bytes that begins with a copy. -/
theorem not_valid_magic (behind : Bytes) : ¬ Valid (SnappyCodec.magicHeader ++ behind) := by
  have hbytes : SnappyCodec.magicHeader ++ behind =
      130 :: 83 :: 78 :: 65 :: 80 :: (SnappyCodec.magicHeader.drop 5 ++ behind) := rfl
  rw [hbytes]
  generalize SnappyCodec.magicHeader.drop 5 ++ behind = others
  rintro ⟨n, rest, hparse, helements⟩
  rw [parseVarint_two (by decide) (by decide)] at hparse
  obtain ⟨-, rfl⟩ := Prod.mk.inj (Option.some.inj hparse)
  -- the tag is that of a copy with an offset of two bytes
  have hfirst : readElement (78 :: 65 :: 80 :: others) = some (⟨20, some 20545⟩, others) := by
    simp [readElement, readCopy, littleEndian]
  cases helements with
  | cons hread hcopy _ =>
    obtain ⟨rfl, -⟩ := Prod.mk.inj (Option.some.inj (hfirst.symm.trans hread))
    exact absurd (hcopy 20545 rfl) (by decide)

end RawFormat

/-- What the library decompresses is a block of the raw format. -/
def Codec.Formatted (c : Codec) : Prop :=
  ∀ block data, c.rawUncompress block = .ok data → RawFormat.Valid block

namespace RawFormat

/-- Literals are elements. -/
theorem elements_of_readLiterals {n : Nat} {bs out data : Bytes}
    (h : readLiterals n bs out = .ok data) (produced : Nat) : Elements produced bs := by
  induction n generalizing bs out produced with
  | zero =>
    cases bs with
    | nil => exact .nil produced
    | cons tag rest => simp [readLiterals] at h
  | succ n ih =>
    cases bs with
    | nil => exact .nil produced
    | cons tag rest =>
      simp only [readLiterals] at h
      split at h
      · rename_i hcond
        obtain ⟨hzero, hshort, hlen⟩ := hcond
        have hread : readElement (tag :: rest) =
            some (⟨tag.toNat / 4 + 1, none⟩, rest.drop (tag.toNat / 4 + 1)) := by
          simp only [readElement, if_pos hzero, if_pos hshort, readLiteral]
          rw [if_pos (by omega)]
        exact .cons hread (by simp) (ih h _)
      · cases h

theorem formatted_literalCodec : literalCodec.Formatted := by
  intro block data h
  change LiteralCodec.uncompress block = .ok data at h
  unfold LiteralCodec.uncompress at h
  split at h
  · rename_i n m rest _ hparse
    split at h
    · rename_i d hread
      exact ⟨m, rest, hparse, elements_of_readLiterals hread 0⟩
    · cases h
  · cases h

end RawFormat

end SnappyJava
