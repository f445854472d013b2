import SnappyJava.Lib.Blocks
import SnappyJava.Native

/-! A codec for the part of the Snappy format that has no copies: the length as
a varint, then literals of at most 60 bytes. On data too short for the
compressor to look for copies this is what the library produces. It shows that
the assumptions on a `Codec` can be met. -/

namespace SnappyJava.LiteralCodec

open Blocks

/-- `n` in groups of seven bits, `k` bytes at most. -/
def varint : Nat → Nat → Bytes
  | 0, _ => []
  | k + 1, n =>
    if n < 128 then [UInt8.ofNat n] else UInt8.ofNat (n % 128 + 128) :: varint k (n / 128)

/-- The number at the front of the input and what follows it. -/
def parseVarint : Nat → Bytes → Option (Nat × Bytes)
  | 0, _ => none
  | _ + 1, [] => none
  | k + 1, x :: xs =>
    if x.toNat < 128 then some (x.toNat, xs)
    else (parseVarint k xs).map fun p => (x.toNat - 128 + 128 * p.1, p.2)

/-- The declared length: five bytes at most, and a 32-bit number. -/
def declaredLength (x : Bytes) : Option Nat :=
  match parseVarint 5 x with
  | some (n, _) => if n < 2 ^ 32 then some n else none
  | none => none

/-- A literal: the tag holds its length less one. -/
def literal (x : Bytes) : Bytes := UInt8.ofNat (4 * (x.length - 1)) :: x

def compress (x : Bytes) : Bytes := varint 5 x.length ++ (blocks 60 x).flatMap literal

/-- The literals of the input appended to `out`; `n` bounds their number. -/
def readLiterals : Nat → Bytes → Bytes → Except Bytes Bytes
  | _, [], out => .ok out
  | 0, _ :: _, out => .error out
  | n + 1, tag :: rest, out =>
    if tag.toNat % 4 = 0 ∧ tag.toNat / 4 < 60 ∧ tag.toNat / 4 < rest.length then
      readLiterals n (rest.drop (tag.toNat / 4 + 1)) (out ++ rest.take (tag.toNat / 4 + 1))
    else
      .error out

def uncompress (x : Bytes) : Except Bytes Bytes :=
  match declaredLength x, parseVarint 5 x with
  | some n, some (_, rest) =>
    match readLiterals rest.length rest [] with
    | .ok data => if data.length = n then .ok data else .error data
    | .error data => .error data
  | _, _ => .error []

end SnappyJava.LiteralCodec

namespace SnappyJava

open LiteralCodec Blocks

def literalCodec : Codec where
  compress := LiteralCodec.compress
  getUncompressedLength := declaredLength
  rawUncompress := uncompress
  getUncompressedLength_lt := by
    intro x n h
    unfold declaredLength at h
    split at h
    · split at h
      · rename_i hn
        cases h
        exact hn
      · cases h
    · cases h
  length_rawUncompress := by
    intro x d h
    unfold uncompress at h
    split at h
    · rename_i n _ rest hn _
      split at h
      · split at h
        · rename_i hl
          cases h
          rw [hn, hl]
        · cases h
      · cases h
    · cases h

namespace LiteralCodec

theorem parseVarint_varint (rest : Bytes) : ∀ (k n : Nat), n < 128 ^ (k + 1) →
    parseVarint (k + 1) (varint (k + 1) n ++ rest) = some (n, rest) := by
  intro k
  induction k with
  | zero =>
    intro n h
    have hn : n < 128 := by simpa using h
    have ht : (UInt8.ofNat n).toNat = n := by simp; omega
    simp [varint, parseVarint, hn, ht]
  | succ k ih =>
    intro n h
    unfold varint
    by_cases hn : n < 128
    · have ht : (UInt8.ofNat n).toNat = n := by simp; omega
      simp [hn, parseVarint, ht]
    · have ht : (UInt8.ofNat (n % 128 + 128)).toNat = n % 128 + 128 := by simp; omega
      have hd : n / 128 < 128 ^ (k + 1) := by
        rw [Nat.pow_succ] at h
        exact Nat.div_lt_of_lt_mul (by omega)
      rw [if_neg hn, List.cons_append, parseVarint, ht, if_neg (by omega), ih _ hd]
      simp only [Option.map_some]
      congr 2
      omega

theorem length_varint_le (k n : Nat) : (varint k n).length ≤ k := by
  induction k generalizing n with
  | zero => simp [varint]
  | succ k ih =>
    unfold varint
    split
    · simp
    · have := ih (n / 128)
      simp only [List.length_cons]; omega

theorem varint_ne_nil (k n : Nat) : varint (k + 1) n ≠ [] := by
  unfold varint
  split <;> simp

theorem parseVarint_compress {x : Bytes} (hx : x.length < 2 ^ 31) :
    parseVarint 5 (compress x) = some (x.length, (blocks 60 x).flatMap literal) :=
  parseVarint_varint _ 4 _ (by omega)

theorem length_literals (x : Bytes) :
    ((blocks 60 x).flatMap literal).length = x.length + (blocks 60 x).length := by
  have hgen : ∀ bs : List Bytes, (bs.flatMap literal).length = bs.flatten.length + bs.length := by
    intro bs
    induction bs with
    | nil => rfl
    | cons y bs ih =>
      simp only [List.flatMap_cons, List.length_append, ih, literal, List.length_cons,
        List.flatten_cons]
      omega
  rw [hgen, flatten_blocks (by decide)]

/-- Literals are read back one by one. -/
theorem readLiterals_literals : ∀ (bs : List Bytes) (n : Nat) (out : Bytes), bs.length ≤ n →
    (∀ y ∈ bs, y ≠ [] ∧ y.length ≤ 60) →
    readLiterals n (bs.flatMap literal) out = .ok (out ++ bs.flatten) := by
  intro bs
  induction bs with
  | nil =>
    intro n out _ _
    cases n <;> simp [readLiterals]
  | cons y bs ih =>
    intro n out hn hy
    obtain ⟨hne, hle⟩ := hy y (by simp)
    have hpos : 0 < y.length := List.length_pos_iff.mpr hne
    cases n with
    | zero => simp at hn
    | succ n =>
      have ht : (UInt8.ofNat (4 * (y.length - 1))).toNat = 4 * (y.length - 1) := by simp; omega
      have hd : 4 * (y.length - 1) / 4 + 1 = y.length := by omega
      have hcond : 4 * (y.length - 1) % 4 = 0 ∧ 4 * (y.length - 1) / 4 < 60 ∧
          4 * (y.length - 1) / 4 < (y ++ bs.flatMap literal).length := by
        rw [List.length_append]; omega
      simp only [List.flatMap_cons, literal, List.cons_append, readLiterals, ht, if_pos hcond, hd,
        List.take_left, List.drop_left]
      have hrest := ih n (out ++ y) (by simp at hn; omega) (fun z hz => hy z (by simp [hz]))
      rw [hrest, List.flatten_cons, List.append_assoc]

theorem uncompress_compress {x : Bytes} (hx : x.length < 2 ^ 31) :
    uncompress (compress x) = .ok x := by
  have hp := parseVarint_compress hx
  have hd : declaredLength (compress x) = some x.length := by
    simp only [declaredLength, hp]
    rw [if_pos (by omega)]
  have hr : readLiterals ((blocks 60 x).flatMap literal).length ((blocks 60 x).flatMap literal) [] =
      .ok x := by
    rw [readLiterals_literals _ _ _ (by rw [length_literals]; omega) (fun y hy =>
      ⟨ne_nil_of_mem_blocks (by decide) hy, length_le_of_mem_blocks (by decide) hy⟩)]
    rw [flatten_blocks (by decide), List.nil_append]
  simp only [uncompress, hd, hp, hr, if_true]

theorem lawful : literalCodec.Lawful where
  length_compress_le := by
    intro x _
    have hv := length_varint_le 5 x.length
    have hb := length_blocks_le (b := 60) (by decide) x
    show (varint 5 x.length ++ (blocks 60 x).flatMap literal).length ≤ _
    rw [List.length_append, length_literals]
    omega
  rawUncompress_compress := fun _ hx => uncompress_compress hx
  compress_ne_nil := by
    intro x _ h
    exact varint_ne_nil 4 x.length (List.append_eq_nil_iff.mp h).1

end LiteralCodec

end SnappyJava
