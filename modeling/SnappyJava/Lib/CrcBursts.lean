import SnappyJava.Lib.CrcTables

/-! CRC-32C tells two sequences apart that differ in at most four bytes next to
each other: the register takes up to four bytes in without loss, and whatever
follows keeps different registers different. -/

namespace Crc

/-! ## Nothing is lost -/

theorem shiftIn_injective {r s : BitVec 32} {b : Bool} (h : shiftIn r b = shiftIn s b) :
    r = s := by
  -- the bit that fell out comes back as the highest one
  have htop : ∀ t : BitVec 32, (shiftIn t b).getLsbD 31 = (t.getLsbD 0 ^^ b) := by
    intro t
    have hfeedback : ∀ c, (feedback c).getLsbD 31 = c := by decide
    rw [shiftIn_eq, BitVec.getLsbD_xor, hfeedback, BitVec.getLsbD_ushiftRight,
      BitVec.getLsbD_of_ge _ _ (by decide), Bool.false_xor]
  have hlow : (r.getLsbD 0 ^^ b) = (s.getLsbD 0 ^^ b) := by rw [← htop r, h, htop s]
  have hshift : r >>> 1 = s >>> 1 := by
    rw [shiftIn_eq, shiftIn_eq, hlow] at h
    exact (BitVec.xor_left_inj _).mp h
  apply BitVec.eq_of_getLsbD_eq
  intro i hi
  cases i with
  | zero => exact Bool.xor_left_inj.mp hlow
  | succ i =>
    have hbit := congrArg (fun t : BitVec 32 => t.getLsbD i) hshift
    simpa only [BitVec.getLsbD_ushiftRight, Nat.add_comm 1 i] using hbit

theorem byteIn_injective {r s : BitVec 32} {x : UInt8} (h : byteIn r x = byteIn s x) : r = s := by
  unfold byteIn at h
  generalize List.range 8 = is at h
  induction is generalizing r s with
  | nil => exact h
  | cons i is ih => exact shiftIn_injective (ih h)

/-- Different registers stay different. -/
theorem update_injective {r s : BitVec 32} {xs : List UInt8} (h : update r xs = update s xs) :
    r = s := by
  induction xs generalizing r s with
  | nil => exact h
  | cons x xs ih => exact byteIn_injective (ih h)

/-! ## Four bytes -/

/-- Up to four bytes as one word, the first byte lowest. -/
def word : List UInt8 → BitVec 32
  | [] => 0
  | x :: xs => x.toBitVec.setWidth 32 ^^^ (word xs <<< 8)

theorem getLsbD_word {xs : List UInt8} {i : Nat} (hi : 8 * xs.length ≤ i) :
    (word xs).getLsbD i = false := by
  induction xs generalizing i with
  | nil => simp [word]
  | cons x xs ih =>
    rw [List.length_cons] at hi
    have hx : (x.toBitVec.setWidth 32).getLsbD i = false := by
      simp [BitVec.getLsbD_of_ge x.toBitVec i (by omega)]
    rw [word, BitVec.getLsbD_xor, hx, BitVec.getLsbD_shiftLeft, ih (by omega)]
    simp

theorem lowByte_word (x : UInt8) (xs : List UInt8) : lowByte (word (x :: xs)) = x := by
  apply UInt8.toBitVec_inj.mp
  apply BitVec.eq_of_getLsbD_eq
  intro i hi
  rw [getLsbD_lowByte _ hi, word, BitVec.getLsbD_xor, BitVec.getLsbD_shiftLeft]
  simp [hi, Nat.lt_trans hi (by decide : 8 < 32)]

theorem word_ushiftRight (x : UInt8) {xs : List UInt8} (h : xs.length ≤ 3) :
    word (x :: xs) >>> 8 = word xs := by
  apply BitVec.eq_of_getLsbD_eq
  intro i hi
  rw [BitVec.getLsbD_ushiftRight, word, BitVec.getLsbD_xor, BitVec.getLsbD_shiftLeft]
  have hx : (x.toBitVec.setWidth 32).getLsbD (8 + i) = false := by simp
  rw [hx, Nat.add_sub_cancel_left]
  rcases Nat.lt_or_ge (8 + i) 32 with hlt | hge
  · simp [hlt]
  · rw [getLsbD_word (by omega)]
    simp

theorem word_injective {xs ys : List UInt8} (hlen : xs.length = ys.length) (h4 : xs.length ≤ 4)
    (h : word xs = word ys) : xs = ys := by
  induction xs generalizing ys with
  | nil => exact (List.length_eq_zero_iff.mp hlen.symm).symm
  | cons x xs ih =>
    cases ys with
    | nil => cases hlen
    | cons y ys =>
      simp only [List.length_cons] at hlen h4
      have hhead : x = y := by rw [← lowByte_word x xs, h, lowByte_word]
      have htail : word xs = word ys := by
        rw [← word_ushiftRight x (by omega), h, word_ushiftRight y (by omega)]
      rw [hhead, ih (by omega) (by omega) htail]

/-- The first byte of a word goes in, and the others move down. -/
theorem byteIn_xor_word (r : BitVec 32) (x : UInt8) {xs : List UInt8} (h : xs.length ≤ 3) :
    byteIn (r ^^^ word (x :: xs)) 0 = byteIn r x ^^^ word xs := by
  rw [byteIn_eq, byteIn_eq r, lowByte_xor, lowByte_word, UInt8.xor_zero,
    BitVec.ushiftRight_xor_distrib, word_ushiftRight x h]
  ac_rfl

/-- Up to four bytes go in as if they had been in the register from the start. -/
theorem update_eq_zeros (r : BitVec 32) {xs : List UInt8} (h : xs.length ≤ 4) :
    update r xs = zeros xs.length (r ^^^ word xs) := by
  induction xs generalizing r with
  | nil => simp [update, zeros, word]
  | cons x xs ih =>
    rw [List.length_cons] at h
    change update (byteIn r x) xs = update (byteIn (r ^^^ word (x :: xs)) 0) _
    rw [ih _ (by omega), byteIn_xor_word r x (by omega)]
    rfl

theorem update_ne {r : BitVec 32} {xs ys : List UInt8} (hlen : xs.length = ys.length)
    (h4 : xs.length ≤ 4) (hne : xs ≠ ys) : update r xs ≠ update r ys := by
  intro h
  rw [update_eq_zeros r h4, update_eq_zeros r (hlen ▸ h4), hlen] at h
  have hword := update_injective h
  exact hne (word_injective hlen h4 ((BitVec.xor_right_inj _).mp hword))

/-! ## Bursts -/

/-- `y` is `x` with other bytes in a window of at most four. -/
def Burst (x y : List UInt8) : Prop :=
  ∃ before window window' after, x = before ++ window ++ after ∧ y = before ++ window' ++ after ∧
    window.length = window'.length ∧ window.length ≤ 4 ∧ window ≠ window'

theorem Burst.length_eq {x y : List UInt8} (h : Burst x y) : x.length = y.length := by
  obtain ⟨before, window, window', after, rfl, rfl, hlen, -, -⟩ := h
  simp [hlen]

/-- A burst changes the checksum. -/
theorem Burst.crc32c_ne {x y : List UInt8} (h : Burst x y) : crc32c x ≠ crc32c y := by
  obtain ⟨before, window, window', after, rfl, rfl, hlen, h4, hne⟩ := h
  intro heq
  have hupdate := BitVec.not_inj.mp heq
  simp only [update_append] at hupdate
  exact update_ne hlen h4 hne (update_injective hupdate)

end Crc
