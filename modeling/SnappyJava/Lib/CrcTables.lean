import SnappyJava.Lib.Crc

/-! Tables for CRC-32C. The register is linear over the bits of the register and
of the data together, so a byte may be put in by one word of a table, and `n`
bytes by one word of each of `n` tables. -/

namespace Crc

/-! ## Linearity -/

/-- What the bit that falls out of the register adds to it. -/
def feedback (b : Bool) : BitVec 32 := if b then castagnoli else 0

theorem shiftIn_eq (r : BitVec 32) (b : Bool) :
    shiftIn r b = (r >>> 1) ^^^ feedback (r.getLsbD 0 ^^ b) := by
  unfold shiftIn feedback
  split <;> simp

theorem feedback_xor (b c : Bool) : feedback (b ^^ c) = feedback b ^^^ feedback c := by
  cases b <;> cases c <;> rfl

theorem shiftIn_xor (r s : BitVec 32) (b c : Bool) :
    shiftIn (r ^^^ s) (b ^^ c) = shiftIn r b ^^^ shiftIn s c := by
  simp only [shiftIn_eq, BitVec.getLsbD_xor, BitVec.ushiftRight_xor_distrib, feedback_xor]
  ac_rfl

/-- Bits go in one after another. -/
private theorem foldl_shiftIn_xor (f g : Nat → Bool) (is : List Nat) (r s : BitVec 32) :
    is.foldl (fun r i => shiftIn r (f i ^^ g i)) (r ^^^ s) =
      is.foldl (fun r i => shiftIn r (f i)) r ^^^ is.foldl (fun r i => shiftIn r (g i)) s := by
  induction is generalizing r s with
  | nil => rfl
  | cons i is ih => simp only [List.foldl_cons, shiftIn_xor, ih]

theorem byteIn_xor (r s : BitVec 32) (x y : UInt8) :
    byteIn (r ^^^ s) (x ^^^ y) = byteIn r x ^^^ byteIn s y := by
  unfold byteIn
  rw [← foldl_shiftIn_xor]
  simp only [UInt8.toBitVec_xor, BitVec.getLsbD_xor]

/-- The register behind `n` zero bytes. -/
def zeros (n : Nat) (r : BitVec 32) : BitVec 32 := update r (List.replicate n 0)

theorem update_append (r : BitVec 32) (xs ys : List UInt8) :
    update r (xs ++ ys) = update (update r xs) ys := List.foldl_append

/-- A difference of the register goes on as if nothing but zeros came. -/
theorem update_xor (r s : BitVec 32) (xs : List UInt8) :
    update (r ^^^ s) xs = update r xs ^^^ zeros xs.length s := by
  induction xs generalizing r s with
  | nil => rfl
  | cons x xs ih =>
    have hx : byteIn (r ^^^ s) x = byteIn r x ^^^ byteIn s 0 := by
      rw [← byteIn_xor, UInt8.xor_zero]
    change update (byteIn (r ^^^ s) x) xs = _
    rw [hx, ih]
    rfl

theorem zeros_succ (n : Nat) (r : BitVec 32) : zeros (n + 1) r = byteIn (zeros n r) 0 := by
  unfold zeros
  rw [List.replicate_succ', update_append]
  rfl

/-! ## A byte by a table -/

/-- The low byte of the register, which meets the next byte of the data. -/
def lowByte (r : BitVec 32) : UInt8 := UInt8.ofBitVec (r.setWidth 8)

theorem getLsbD_lowByte (r : BitVec 32) {i : Nat} (hi : i < 8) :
    (lowByte r).toBitVec.getLsbD i = r.getLsbD i := by
  simp [lowByte, hi]

theorem lowByte_xor (r s : BitVec 32) : lowByte (r ^^^ s) = lowByte r ^^^ lowByte s := by
  apply UInt8.toBitVec_inj.mp
  simp [lowByte]

/-- While bits go in, those of the register only move down, and the ones that
fall out meet the data. -/
private theorem foldl_shiftIn_range (f g : Nat → Bool) (r : BitVec 32) {n : Nat}
    (hg : ∀ i < n, g i = (r.getLsbD i ^^ f i)) :
    (List.range n).foldl (fun r i => shiftIn r (f i)) r =
      (r >>> n) ^^^ (List.range n).foldl (fun r i => shiftIn r (g i)) 0 := by
  induction n with
  | zero => simp
  | succ n ih =>
    have hn : g n = (r.getLsbD n ^^ f n) := hg n (Nat.lt_succ_self n)
    have hbit : f n = (r.getLsbD n ^^ g n) := by
      rw [hn, ← Bool.xor_assoc, Bool.xor_self, Bool.false_xor]
    have hcancel : shiftIn (r >>> n) (r.getLsbD n) = r >>> (n + 1) := by
      rw [shiftIn_eq, BitVec.getLsbD_ushiftRight, Nat.add_zero, Bool.xor_self,
        ← BitVec.shiftRight_add]
      exact BitVec.xor_zero
    simp only [List.range_succ, List.foldl_append, List.foldl_cons, List.foldl_nil]
    rw [ih fun i hi => hg i (Nat.lt_succ_of_lt hi), hbit, shiftIn_xor, hcancel]

/-- The register moves down by a byte, and the byte that falls out meets that of
the data. -/
theorem byteIn_eq (r : BitVec 32) (x : UInt8) :
    byteIn r x = (r >>> 8) ^^^ byteIn 0 (lowByte r ^^^ x) := by
  unfold byteIn
  apply foldl_shiftIn_range
  intro i hi
  rw [UInt8.toBitVec_xor, BitVec.getLsbD_xor, getLsbD_lowByte r hi]

/-! ## Slicing -/

/-- The word of the table `k` for the byte `c`: what `c` leaves `k` bytes later. -/
def entry (k : Nat) (c : UInt8) : BitVec 32 := zeros k (byteIn 0 c)

theorem entry_succ (k : Nat) (c : UInt8) : entry (k + 1) c = byteIn (entry k c) 0 :=
  zeros_succ k _

/-- The table `k`. -/
def table (k : Nat) : List (BitVec 32) :=
  (List.range 256).map fun i => entry k (UInt8.ofNat i)

theorem table_succ (k : Nat) : table (k + 1) = (table k).map fun r => byteIn r 0 := by
  unfold table
  rw [List.map_map]
  exact List.map_congr_left fun i _ => entry_succ k _

theorem getD_table (k : Nat) (c : UInt8) : (table k).getD c.toNat 0 = entry k c := by
  have hc := c.toNat_lt
  have hget : (table k)[c.toNat]? = some (entry k (UInt8.ofNat c.toNat)) := by
    unfold table
    rw [List.getElem?_map, List.getElem?_range hc]
    rfl
  rw [List.getD_eq_getElem?_getD, hget, UInt8.ofNat_toNat]
  rfl

/-- The first byte of some is put in by one word of a table. -/
theorem update_cons (r : BitVec 32) (x : UInt8) (xs : List UInt8) :
    update r (x :: xs) = update (r >>> 8) xs ^^^ entry xs.length (lowByte r ^^^ x) := by
  change update (byteIn r x) xs = _
  rw [byteIn_eq, update_xor]
  rfl

end Crc
