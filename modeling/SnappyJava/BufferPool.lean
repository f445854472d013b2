import SnappyJava.Java

/-! `BufferPool` and the sizes of the buffers the two pools of the library hand
out. -/

namespace SnappyJava

open Words

/-- A pool as one stream sees it. The answer to an allocation may depend on
everything that happened to the pool before, so it may be another one each
time: `allocateDirect k size` is the answer to the `k`-th allocation of the
stream, a buffer with whatever it held before or an exception. A pool may hand out
again what the stream has given back: allocations that have brought the same buffer
or array have the same `object`. -/
structure BufferPool where
  allocateDirect : Nat → Nat → Except Throwable Bytes
  allocateArray : Nat → Nat → Except Throwable Bytes
  object : Nat → Nat

namespace BufferPool

/-- The documented contract: what is handed out is as large as asked for. The
size of a Java array or buffer is an `int`. -/
structure Contract (pool : BufferPool) : Prop where
  direct : ∀ k size b, pool.allocateDirect k size = .ok b → size ≤ b.length ∧ b.length < 2 ^ 31
  array : ∀ k size b, pool.allocateArray k size = .ok b → size ≤ b.length ∧ b.length < 2 ^ 31

/-- No allocation of a possible size fails. -/
structure Reliable (pool : BufferPool) : Prop extends Contract pool where
  direct_ok : ∀ k size, size < 2 ^ 31 → ∃ b, pool.allocateDirect k size = .ok b
  array_ok : ∀ k size, size < 2 ^ 31 → ∃ b, pool.allocateArray k size = .ok b

/-- Every buffer has the size that `f` makes of the size asked for. -/
structure Sized (pool : BufferPool) (f : Nat → Nat) : Prop extends Reliable pool where
  direct_size : ∀ k size b, 0 < size → pool.allocateDirect k size = .ok b → b.length = f size
  array_size : ∀ k size b, 0 < size → pool.allocateArray k size = .ok b → b.length = f size

end BufferPool

/-! ## The sizes of `CachingBufferPool` -/

namespace CachingBufferPool

def roundToPowers (number bits : Nat) : Int :=
  let mask := (0x7FFFFFFF >>> bits) <<< bits
  let floor := number &&& mask
  if floor = number then number else wrap32 (floor + 2 ^ bits)

/-- `Integer.numberOfLeadingZeros` of a positive `int`. -/
def numberOfLeadingZeros (size : Nat) : Nat := 31 - Nat.log2 size

def adjustSize (size : Nat) : Int :=
  match numberOfLeadingZeros size with
  | 1 | 2 => if size ≤ 0x60000000 then roundToPowers size 27 else 0x7FFFFFFF
  | 3 | 4 => roundToPowers size 24
  | 5 | 6 | 7 => roundToPowers size 22
  | 8 | 9 | 10 => roundToPowers size 19
  | 11 | 12 => roundToPowers size 17
  | 13 | 14 | 15 | 16 => roundToPowers size 14
  | 17 | 18 | 19 => roundToPowers size 11
  | _ => 4 * 1024

private theorem and_mask {n : Nat} (hn : n < 2 ^ 31) (bits : Nat) :
    n &&& ((0x7FFFFFFF >>> bits) <<< bits) = n / 2 ^ bits * 2 ^ bits := by
  rw [← Nat.shiftRight_eq_div_pow, ← Nat.shiftLeft_eq]
  apply Nat.eq_of_testBit_eq
  intro i
  rw [show 0x7FFFFFFF = 2 ^ 31 - 1 from rfl]
  simp only [Nat.testBit_and, Nat.testBit_shiftLeft, Nat.testBit_shiftRight,
    Nat.testBit_two_pow_sub_one]
  by_cases hi : bits ≤ i
  · rw [Nat.add_sub_cancel' hi]
    by_cases hi31 : i < 31
    · simp [hi, hi31]
    · have hz : n.testBit i = false :=
        Nat.testBit_lt_two_pow (Nat.lt_of_lt_of_le hn (Nat.pow_le_pow_right (by decide) (by omega)))
      simp [hz]
  · simp [hi]

/-- Rounding gives the least multiple of the power that is not below. -/
theorem roundToPowers_spec {n bits : Nat} (hb : bits ≤ 27) (hn : n ≤ 0x60000000) :
    ∃ r : Nat, roundToPowers n bits = r ∧ n ≤ r ∧ 2 ^ bits ∣ r ∧
      ∀ q, 2 ^ bits ∣ q → n ≤ q → r ≤ q := by
  have hp : 0 < 2 ^ bits := Nat.two_pow_pos bits
  have hp27 : 2 ^ bits ≤ 2 ^ 27 := Nat.pow_le_pow_right (by decide) hb
  have hdm := Nat.div_add_mod n (2 ^ bits)
  have hlt := Nat.mod_lt n hp
  rw [Nat.mul_comm] at hdm
  simp only [roundToPowers, and_mask (show n < 2 ^ 31 by omega) bits]
  split
  · rename_i heq
    exact ⟨n, rfl, Nat.le_refl _, heq ▸ Nat.dvd_mul_left _ _, fun q _ h => h⟩
  · rename_i hne
    have hcast : ((n / 2 ^ bits * 2 ^ bits : Nat) : Int) + 2 ^ bits =
        ((n / 2 ^ bits * 2 ^ bits + 2 ^ bits : Nat) : Int) := by push_cast; ring
    refine ⟨n / 2 ^ bits * 2 ^ bits + 2 ^ bits, ?_, by omega, ?_, ?_⟩
    · rw [hcast, wrap32_of_range (by omega) (by omega)]
    · exact Nat.dvd_add (Nat.dvd_mul_left _ _) (Nat.dvd_refl _)
    · rintro q ⟨c, rfl⟩ hq
      have hc : n / 2 ^ bits < c := by
        by_contra hge
        have := Nat.mul_le_mul_left (2 ^ bits) (Nat.le_of_not_lt hge)
        rw [Nat.mul_comm _ (n / 2 ^ bits)] at this
        omega
      calc n / 2 ^ bits * 2 ^ bits + 2 ^ bits = (n / 2 ^ bits + 1) * 2 ^ bits := by ring
        _ ≤ c * 2 ^ bits := Nat.mul_le_mul_right _ hc
        _ = 2 ^ bits * c := Nat.mul_comm _ _

theorem roundToPowers_mono {n m bits : Nat} (hb : bits ≤ 27) (hnm : n ≤ m) (hm : m ≤ 0x60000000) :
    roundToPowers n bits ≤ roundToPowers m bits := by
  obtain ⟨r, hr, -, -, hmin⟩ := roundToPowers_spec hb (Nat.le_trans hnm hm)
  obtain ⟨q, hq, hle, hdvd, -⟩ := roundToPowers_spec hb hm
  rw [hr, hq]
  exact_mod_cast hmin q hdvd (Nat.le_trans hnm hle)

/-- Rounding stays below a power of two of which the number stays below. -/
theorem roundToPowers_le_two_pow {n bits k : Nat} (hb : bits ≤ 27) (hn : n ≤ 0x60000000)
    (hk : n ≤ 2 ^ k) (hbk : bits ≤ k) : roundToPowers n bits ≤ (2 ^ k : Nat) := by
  obtain ⟨r, hr, -, -, hmin⟩ := roundToPowers_spec hb hn
  rw [hr]
  exact_mod_cast hmin (2 ^ k) (Nat.pow_dvd_pow 2 hbk) hk

theorem roundToPowers_of_dvd {n bits : Nat} (hb : bits ≤ 27) (hn : n ≤ 0x60000000)
    (hdvd : 2 ^ bits ∣ n) : roundToPowers n bits = n := by
  obtain ⟨r, hr, hle, -, hmin⟩ := roundToPowers_spec hb hn
  rw [hr, Nat.le_antisymm (hmin n hdvd (Nat.le_refl n)) hle]

/-- Less than one step is added. -/
theorem roundToPowers_lt {n bits : Nat} (hb : bits ≤ 27) (hn : n ≤ 0x60000000) :
    roundToPowers n bits < n + 2 ^ bits := by
  obtain ⟨r, hr, hle, hdvd, hmin⟩ := roundToPowers_spec hb hn
  rw [hr]
  by_contra hge
  have hge' : n + 2 ^ bits ≤ r := by
    have : (n : Int) + 2 ^ bits ≤ r := by omega
    exact_mod_cast this
  have hpos := Nat.two_pow_pos bits
  have hless := hmin (r - 2 ^ bits) (Nat.dvd_sub hdvd (Nat.dvd_refl _)) (by omega)
  omega

/-! ## The three ranges of `adjustSize` -/

/-- The rounding of the sizes with leading bit `k`. -/
def stepBits (k : Nat) : Nat :=
  if k ≤ 14 then 11 else if k ≤ 18 then 14 else if k ≤ 20 then 17
  else if k ≤ 23 then 19 else if k ≤ 26 then 22 else if k ≤ 28 then 24 else 27

theorem stepBits_le (k : Nat) : stepBits k ≤ 27 := by
  unfold stepBits
  split_ifs <;> decide

theorem stepBits_lt {k : Nat} (hk : 12 ≤ k) : stepBits k < k := by
  unfold stepBits
  split_ifs <;> omega

private theorem log2_bounds {n : Nat} (h0 : 0 < n) (hn : n < 2 ^ 31) :
    2 ^ Nat.log2 n ≤ n ∧ n < 2 ^ (Nat.log2 n + 1) ∧ Nat.log2 n < 31 :=
  ⟨Nat.log2_self_le (by omega), Nat.lt_log2_self, (Nat.log2_lt (by omega)).mpr hn⟩

theorem adjustSize_small {n : Nat} (h0 : 0 < n) (hn : n < 4096) : adjustSize n = 4096 := by
  obtain ⟨hlo, hhi, hk⟩ := log2_bounds h0 (by omega)
  unfold adjustSize numberOfLeadingZeros
  generalize Nat.log2 n = k at hlo hhi hk
  interval_cases k <;> first | rfl | omega

theorem adjustSize_middle {n : Nat} (hlow : 4096 ≤ n) (hn : n ≤ 0x60000000) :
    adjustSize n = roundToPowers n (stepBits (Nat.log2 n)) := by
  obtain ⟨hlo, hhi, hk⟩ := log2_bounds (by omega : 0 < n) (by omega)
  unfold adjustSize numberOfLeadingZeros
  generalize Nat.log2 n = k at hlo hhi hk
  -- one case for each position of the leading bit
  interval_cases k
  all_goals first
    | rfl
    | exact if_pos hn
    | omega

theorem adjustSize_large {n : Nat} (hlow : 0x60000000 < n) (hn : n < 2 ^ 31) :
    adjustSize n = 0x7FFFFFFF := by
  obtain ⟨hlo, hhi, hk⟩ := log2_bounds (by omega : 0 < n) hn
  have hlog : Nat.log2 n = 30 := by
    generalize Nat.log2 n = k at hlo hhi hk
    interval_cases k <;> omega
  unfold adjustSize numberOfLeadingZeros
  rw [hlog]
  exact if_neg (by omega)

/-- From 4096 to 1.5 GB: a multiple of the step, less than one step above, and
not above a multiple that is not below. -/
private theorem adjustSize_middle_spec {n : Nat} (hlow : 4096 ≤ n) (hn : n ≤ 0x60000000) :
    ∃ r : Nat, adjustSize n = r ∧ n ≤ r ∧ r ≤ 0x60000000 ∧ 2 * r ≤ 3 * n ∧
      2 ^ stepBits (Nat.log2 n) ∣ r ∧
      ∀ q, 2 ^ stepBits (Nat.log2 n) ∣ q → n ≤ q → r ≤ q := by
  obtain ⟨hlo, -, -⟩ := log2_bounds (by omega : 0 < n) (by omega)
  have h12 : 12 ≤ Nat.log2 n := (Nat.le_log2 (by omega)).mpr hlow
  have hb := stepBits_le (Nat.log2 n)
  obtain ⟨r, hr, hle, hdvd, hmin⟩ := roundToPowers_spec hb hn
  have hlt := roundToPowers_lt hb hn
  have hhalf : 2 * 2 ^ stepBits (Nat.log2 n) ≤ n := by
    calc 2 * 2 ^ stepBits (Nat.log2 n) = 2 ^ (stepBits (Nat.log2 n) + 1) := by ring
      _ ≤ 2 ^ Nat.log2 n := Nat.pow_le_pow_right (by decide) (stepBits_lt h12)
      _ ≤ n := hlo
  rw [hr] at hlt
  have hlt' : r < n + 2 ^ stepBits (Nat.log2 n) := by exact_mod_cast hlt
  refine ⟨r, (adjustSize_middle hlow hn).trans hr, hle, ?_, by omega, hdvd, hmin⟩
  exact hmin _ (Nat.dvd_trans (Nat.pow_dvd_pow 2 hb) (by decide)) hn

/-- Nor is it above the next power of two. -/
private theorem adjustSize_le_two_pow {n : Nat} (hlow : 4096 ≤ n) (hn : n ≤ 0x60000000) :
    adjustSize n ≤ (2 ^ (Nat.log2 n + 1) : Nat) := by
  have h12 : 12 ≤ Nat.log2 n := (Nat.le_log2 (by omega)).mpr hlow
  rw [adjustSize_middle hlow hn]
  exact roundToPowers_le_two_pow (stepBits_le _) hn (Nat.le_of_lt Nat.lt_log2_self)
    (Nat.le_succ_of_le (Nat.le_of_lt (stepBits_lt h12)))

/-! ## What the sizes promise -/

/-- The adjusted size is not below the size, nor below 4096. -/
theorem max_le_adjustSize {n : Nat} (h0 : 0 < n) (hn : n < 2 ^ 31) :
    (max 4096 n : Nat) ≤ adjustSize n := by
  rcases Nat.lt_or_ge n 4096 with hsmall | hlow
  · rw [adjustSize_small h0 hsmall]
    omega
  · rcases Nat.lt_or_ge 0x60000000 n with hlarge | hmid
    · rw [adjustSize_large hlarge hn]
      omega
    · obtain ⟨r, hr, hle, -⟩ := adjustSize_middle_spec hlow hmid
      omega

theorem adjustSize_lt {n : Nat} (h0 : 0 < n) (hn : n < 2 ^ 31) : adjustSize n < 2 ^ 31 := by
  rcases Nat.lt_or_ge n 4096 with hsmall | hlow
  · rw [adjustSize_small h0 hsmall]
    decide
  · rcases Nat.lt_or_ge 0x60000000 n with hlarge | hmid
    · rw [adjustSize_large hlarge hn]
      decide
    · obtain ⟨r, hr, -, hle, -⟩ := adjustSize_middle_spec hlow hmid
      omega

private theorem adjustSize_mono_middle {n m : Nat} (hlow : 4096 ≤ n) (hnm : n ≤ m)
    (hm : m ≤ 0x60000000) : adjustSize n ≤ adjustSize m := by
  have hn : n ≤ 0x60000000 := Nat.le_trans hnm hm
  rcases Nat.lt_or_ge (Nat.log2 n) (Nat.log2 m) with hlt | hge
  · -- a power of two lies between
    have hpow : 2 ^ (Nat.log2 n + 1) ≤ 2 ^ Nat.log2 m := Nat.pow_le_pow_right (by decide) hlt
    have hself := Nat.log2_self_le (by omega : m ≠ 0)
    have hle := adjustSize_le_two_pow hlow hn
    have hmax := @max_le_adjustSize m (by omega) (by omega)
    omega
  · have heq : Nat.log2 n = Nat.log2 m := by
      refine Nat.le_antisymm ?_ hge
      exact (Nat.le_log2 (by omega)).mpr (Nat.le_trans (Nat.log2_self_le (by omega)) hnm)
    rw [adjustSize_middle hlow hn, adjustSize_middle (by omega) hm, heq]
    exact roundToPowers_mono (stepBits_le _) hnm hm

theorem adjustSize_mono {n m : Nat} (h0 : 0 < n) (hnm : n ≤ m) (hm : m < 2 ^ 31) :
    adjustSize n ≤ adjustSize m := by
  rcases Nat.lt_or_ge n 4096 with hsmall | hlow
  · have hmax := @max_le_adjustSize m (by omega) hm
    rw [adjustSize_small h0 hsmall]
    omega
  · rcases Nat.lt_or_ge 0x60000000 m with hlarge | hmid
    · have hlt := adjustSize_lt h0 (Nat.lt_of_le_of_lt hnm hm)
      rw [adjustSize_large hlarge hm]
      omega
    · exact adjustSize_mono_middle hlow hnm hmid

/-- An adjusted size adjusts to itself. -/
theorem adjustSize_idempotent {n : Nat} (h0 : 0 < n) (hn : n < 2 ^ 31) :
    adjustSize (adjustSize n).toNat = adjustSize n := by
  rcases Nat.lt_or_ge n 4096 with hsmall | hlow
  · rw [adjustSize_small h0 hsmall]
    decide
  rcases Nat.lt_or_ge 0x60000000 n with hlarge | hmid
  · rw [adjustSize_large hlarge hn]
    decide
  obtain ⟨r, hr, hle, hr_le, -, hdvd, -⟩ := adjustSize_middle_spec hlow hmid
  have hpow := adjustSize_le_two_pow hlow hmid
  rw [hr] at hpow ⊢
  have hpow' : r ≤ 2 ^ (Nat.log2 n + 1) := by exact_mod_cast hpow
  rw [Int.toNat_natCast, adjustSize_middle (Nat.le_trans hlow hle) hr_le]
  apply roundToPowers_of_dvd (stepBits_le _) hr_le
  rcases Nat.lt_or_eq_of_le hpow' with hlt | heq
  · -- the leading bit is still that of `n`
    have hlog : Nat.log2 r = Nat.log2 n := by
      refine Nat.le_antisymm (Nat.le_of_lt_succ ((Nat.log2_lt (by omega)).mpr hlt)) ?_
      exact (Nat.le_log2 (by omega)).mpr (Nat.le_trans (Nat.log2_self_le (by omega)) hle)
    rwa [hlog]
  · have h12 : 12 ≤ Nat.log2 n := (Nat.le_log2 (by omega)).mpr hlow
    rw [heq, Nat.log2_two_pow]
    exact Nat.pow_dvd_pow 2 (Nat.le_of_lt (stepBits_lt (by omega)))

/-- From 4 KB on at most half as much again. -/
theorem two_mul_adjustSize_le {n : Nat} (h0 : 0 < n) (hn : n < 2 ^ 31) :
    2 * adjustSize n ≤ (max 8192 (3 * n) : Nat) := by
  rcases Nat.lt_or_ge n 4096 with hsmall | hlow
  · rw [adjustSize_small h0 hsmall]
    omega
  · rcases Nat.lt_or_ge 0x60000000 n with hlarge | hmid
    · rw [adjustSize_large hlarge hn]
      omega
    · obtain ⟨r, hr, -, -, hle, -⟩ := adjustSize_middle_spec hlow hmid
      omega

/-- The size classes of the pool are sound. -/
theorem adjustSize_sound {a b : Nat} (ha : 0 < a) (hab : a ≤ b) (hb : b < 2 ^ 31) :
    (0 < adjustSize a ∧ adjustSize a < 2 ^ 31) ∧ (a : Int) ≤ adjustSize a ∧
      adjustSize a ≤ adjustSize b ∧ adjustSize (adjustSize a).toNat = adjustSize a ∧
      2 * adjustSize a ≤ max 8192 (3 * a) := by
  have ha' : a < 2 ^ 31 := Nat.lt_of_le_of_lt hab hb
  have hmax := max_le_adjustSize ha ha'
  have hover := two_mul_adjustSize_le ha ha'
  refine ⟨⟨by omega, adjustSize_lt ha ha'⟩, by omega, adjustSize_mono ha hab hb,
    adjustSize_idempotent ha ha', by omega⟩

theorem adjustSize_sound_cap :
    (0 < adjustSize 0x60000000 ∧ adjustSize 0x60000000 < 2 ^ 31) ∧
      ((0x60000000 : Nat) : Int) ≤ adjustSize 0x60000000 ∧
      adjustSize 0x60000000 ≤ adjustSize 0x60000001 ∧
      adjustSize (adjustSize 0x60000000).toNat = adjustSize 0x60000000 ∧
      2 * adjustSize 0x60000000 ≤ max 8192 (3 * (0x60000000 : Nat)) :=
  adjustSize_sound (by decide) (by decide) (by decide)

example : adjustSize (4 * 1024 + 1) = 6 * 1024 := by decide

end CachingBufferPool

namespace BufferPool

/-- The two pools of the library: `QuiescentBufferPool` allocates what is asked
for, `CachingBufferPool` the adjusted size. -/
def BuiltIn (pool : BufferPool) : Prop :=
  pool.Sized id ∨ pool.Sized fun size => (CachingBufferPool.adjustSize size).toNat

theorem BuiltIn.reliable {pool : BufferPool} (h : pool.BuiltIn) : pool.Reliable := by
  rcases h with h | h
  · exact h.toReliable
  · exact h.toReliable

/-- What the framed reader relies on: its arrays and its direct buffers are
sized by the same monotone function. -/
theorem BuiltIn.sized {pool : BufferPool} (h : pool.BuiltIn) :
    ∃ f : Nat → Nat, pool.Sized f ∧ ∀ n m, 0 < n → n ≤ m → m < 2 ^ 31 → f n ≤ f m := by
  rcases h with h | h
  · exact ⟨id, h, fun _ _ _ h _ => h⟩
  · refine ⟨_, h, fun n m h0 hnm hm => ?_⟩
    have := CachingBufferPool.adjustSize_mono h0 hnm hm
    omega

end BufferPool

/-- Every buffer is a new one, zeroed and of the size asked for. -/
def QuiescentBufferPool : BufferPool where
  allocateDirect _ size := if size < 2 ^ 31 then .ok (newArray size) else .error .outOfMemoryError
  allocateArray _ size := if size < 2 ^ 31 then .ok (newArray size) else .error .outOfMemoryError
  object k := k

theorem QuiescentBufferPool.builtIn : QuiescentBufferPool.BuiltIn := by
  have hsize : ∀ {size : Nat} {b : Bytes},
      (if size < 2 ^ 31 then .ok (newArray size) else .error .outOfMemoryError :
        Except Throwable Bytes) = .ok b → b.length = size ∧ size < 2 ^ 31 := by
    intro size b h
    split at h
    · rename_i hlt
      cases h
      exact ⟨length_newArray size, hlt⟩
    · cases h
  have hok : ∀ {size : Nat}, size < 2 ^ 31 → ∃ b : Bytes,
      (if size < 2 ^ 31 then .ok (newArray size) else .error .outOfMemoryError :
        Except Throwable Bytes) = .ok b := fun hlt => ⟨_, if_pos hlt⟩
  have hfits : ∀ {size : Nat} {b : Bytes}, b.length = size ∧ size < 2 ^ 31 →
      size ≤ b.length ∧ b.length < 2 ^ 31 := by
    intro size b h
    omega
  exact .inl
    { direct := fun _ _ _ h => hfits (hsize h)
      array := fun _ _ _ h => hfits (hsize h)
      direct_ok := fun _ _ => hok
      array_ok := fun _ _ => hok
      direct_size := fun _ _ _ _ h => (hsize h).1
      array_size := fun _ _ _ _ h => (hsize h).1 }

end SnappyJava
