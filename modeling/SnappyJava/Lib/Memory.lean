import Mathlib

/-! Lists as arrays: the range `[off, off + len)` of a list, and a list with a
range overwritten. -/

namespace Memory

variable {α : Type}

/-- The `len` cells of `a` from `off` on. -/
def slice (a : List α) (off len : Nat) : List α := (a.drop off).take len

/-- `src` copied over `dst` from `off` on. -/
def splice (dst : List α) (off : Nat) (src : List α) : List α :=
  dst.take off ++ (src ++ dst.drop (off + src.length))

theorem length_slice (a : List α) {off len : Nat} (h : off + len ≤ a.length) :
    (slice a off len).length = len := by
  simp only [slice, List.length_take, List.length_drop]; omega

@[simp] theorem slice_zero (a : List α) (len : Nat) : slice a 0 len = a.take len := rfl

@[simp] theorem slice_self_zero (a : List α) (off : Nat) : slice a off 0 = [] := by
  simp [slice]

theorem slice_append (a : List α) (off m n : Nat) :
    slice a off m ++ slice a (off + m) n = slice a off (m + n) := by
  simp only [slice]
  rw [List.take_add, List.drop_drop]

@[simp] theorem splice_nil (dst : List α) (off : Nat) : splice dst off [] = dst := by
  simp [splice]

theorem length_splice {dst src : List α} {off : Nat} (h : off + src.length ≤ dst.length) :
    (splice dst off src).length = dst.length := by
  simp only [splice, List.length_append, List.length_take, List.length_drop]; omega

/-- Below the range nothing changes. -/
theorem take_splice_of_le {dst src : List α} {off n : Nat} (h : n ≤ off)
    (hoff : off ≤ dst.length) : (splice dst off src).take n = dst.take n := by
  rw [splice, List.take_append_of_le_length (by simp; omega), List.take_take,
    Nat.min_eq_left h]

/-- What stands up to the end of the range is what stood before it, then `src`. -/
theorem take_splice {dst : List α} (src : List α) {off : Nat} (hoff : off ≤ dst.length) :
    (splice dst off src).take (off + src.length) = dst.take off ++ src := by
  have hl : (dst.take off ++ src).length = off + src.length := by
    simp; omega
  rw [splice, ← List.append_assoc, ← hl, List.take_left]

theorem take_splice_zero (dst src : List α) : (splice dst 0 src).take src.length = src := by
  simp [splice]

theorem splice_full {dst src : List α} (h : dst.length ≤ src.length) : splice dst 0 src = src := by
  simp [splice, List.drop_eq_nil_of_le h]

/-- Above the range nothing changes. -/
theorem drop_splice {dst src : List α} {off n : Nat} (hoff : off ≤ dst.length)
    (hn : off + src.length ≤ n) : (splice dst off src).drop n = dst.drop n := by
  simp only [splice, List.drop_append, List.length_take, Nat.min_eq_left hoff, List.drop_drop]
  rw [List.drop_eq_nil_of_le (by simp; omega), List.drop_eq_nil_of_le (by omega)]
  simp only [List.nil_append]
  congr 1; omega

@[simp] theorem slice_splice {dst src : List α} {off : Nat} (hoff : off ≤ dst.length) :
    slice (splice dst off src) off src.length = src := by
  have hl : (dst.take off).length = off := by simp; omega
  simp [slice, splice, Nat.min_eq_left hoff]

/-- Two adjacent copies are one copy. -/
theorem splice_append {dst a b : List α} {off : Nat} (hoff : off ≤ dst.length) :
    splice (splice dst off a) (off + a.length) b = splice dst off (a ++ b) := by
  have hd := @drop_splice _ dst a off (off + a.length + b.length) hoff (by omega)
  rw [splice, take_splice a hoff, hd]
  simp [splice, Nat.add_assoc]

/-- The copy in front may also come second. -/
theorem splice_before (dst a b : List α) {off : Nat} (h : off + a.length ≤ dst.length) :
    splice (splice dst (off + a.length) b) off a = splice dst off (a ++ b) := by
  have hl : (dst.take (off + a.length)).length = off + a.length := by simp; omega
  rw [splice, take_splice_of_le (by omega) h]
  simp only [splice, List.append_assoc, List.length_append, ← Nat.add_assoc]
  rw [List.drop_append_of_le_length (by omega), List.drop_eq_nil_of_le (by omega),
    List.nil_append]

/-- From `a` to `a'` the bytes `src` have come to stand at `off`, and around the
`room` cells from there on nothing has changed. -/
structure Placed (src : List α) (off room : Nat) (a a' : List α) : Prop where
  length_eq : a'.length = a.length
  slice_eq : slice a' off src.length = src
  take_eq : a'.take off = a.take off
  drop_eq : a'.drop (off + room) = a.drop (off + room)

/-- Copied with something behind it. -/
theorem placed_splice_append {a src behind : List α} {off : Nat}
    (h : off + (src.length + behind.length) ≤ a.length) :
    Placed src off (src.length + behind.length) a (splice a off (src ++ behind)) where
  length_eq := length_splice (by rw [List.length_append]; exact h)
  slice_eq := by
    rw [← splice_append (by omega), slice, splice]
    have hl : ((splice a off src).take (off + src.length)).length = off + src.length := by
      rw [List.length_take, length_splice (by omega)]
      omega
    rw [List.drop_append_of_le_length (by omega), take_splice src (by omega)]
    have hoff : (a.take off).length = off := by simp; omega
    rw [List.drop_left' hoff, List.take_left]
  take_eq := take_splice_of_le (Nat.le_refl _) (by omega)
  drop_eq := drop_splice (by omega) (by rw [List.length_append])

theorem placed_splice {a src : List α} {off : Nat} (h : off + src.length ≤ a.length) :
    Placed src off src.length a (splice a off src) := by
  have := @placed_splice_append _ a src [] off (by simpa using h)
  simpa using this

theorem Placed.mono {a a' src : List α} {off room room' : Nat} (h : Placed src off room a a')
    (hle : room ≤ room') : Placed src off room' a a' where
  length_eq := h.length_eq
  slice_eq := h.slice_eq
  take_eq := h.take_eq
  drop_eq := by
    have := congrArg (List.drop (room' - room)) h.drop_eq
    rwa [List.drop_drop, List.drop_drop, Nat.add_assoc, Nat.add_sub_of_le hle] at this

end Memory
