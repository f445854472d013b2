import Mathlib

/-! Data cut into blocks: `b` elements each, the last block shorter but never
empty. `Cut` is the bookkeeping of a program that receives the data piece by
piece: the full blocks it has emitted and the pending rest. -/

namespace Blocks

variable {α : Type}

private def blocksAux (b : Nat) : Nat → List α → List (List α)
  | 0, _ => []
  | _ + 1, [] => []
  | n + 1, x :: xs => (x :: xs).take b :: blocksAux b n ((x :: xs).drop b)

/-- `xs` cut into blocks of `b` elements with a shorter, non-empty last one. -/
def blocks (b : Nat) (xs : List α) : List (List α) := blocksAux b xs.length xs

private theorem blocksAux_mono {b : Nat} (hb : 0 < b) :
    ∀ (n m : Nat) (xs : List α), xs.length ≤ n → xs.length ≤ m →
      blocksAux b n xs = blocksAux b m xs := by
  intro n
  induction n with
  | zero =>
    intro m xs hn _
    have : xs = [] := List.eq_nil_of_length_eq_zero (by omega)
    subst this
    cases m <;> rfl
  | succ n ih =>
    intro m xs hn hm
    cases xs with
    | nil => cases m <;> rfl
    | cons x xs =>
      cases m with
      | zero => simp at hm
      | succ m =>
        simp only [blocksAux]
        rw [ih m ((x :: xs).drop b) (by simp at hn ⊢; omega) (by simp at hm ⊢; omega)]

@[simp] theorem blocks_nil (b : Nat) : blocks b ([] : List α) = [] := rfl

theorem blocks_of_ne_nil {b : Nat} (hb : 0 < b) {xs : List α} (h : xs ≠ []) :
    blocks b xs = xs.take b :: blocks b (xs.drop b) := by
  cases xs with
  | nil => exact absurd rfl h
  | cons x xs =>
    have hs := blocksAux_mono hb xs.length ((x :: xs).drop b).length ((x :: xs).drop b)
      (by simp; omega) (Nat.le_refl _)
    simp only [blocks, List.length_cons, blocksAux]
    rw [hs]

theorem blocks_of_length_le {b : Nat} (hb : 0 < b) {xs : List α} (h : xs ≠ [])
    (hl : xs.length ≤ b) : blocks b xs = [xs] := by
  rw [blocks_of_ne_nil hb h, List.take_of_length_le hl, List.drop_eq_nil_of_le hl, blocks_nil]

/-- A full block in front is the first block. -/
theorem blocks_append {b : Nat} (hb : 0 < b) {x : List α} (hx : x.length = b) (xs : List α) :
    blocks b (x ++ xs) = x :: blocks b xs := by
  have hne : x ++ xs ≠ [] := by
    intro h
    rw [(List.append_eq_nil_iff.mp h).1] at hx
    exact absurd hx (by simp; omega)
  rw [blocks_of_ne_nil hb hne, ← hx, List.take_left, List.drop_left]

theorem blocks_flatten_append {b : Nat} (hb : 0 < b) {full : List (List α)}
    (hf : ∀ x ∈ full, x.length = b) (xs : List α) :
    blocks b (full.flatten ++ xs) = full ++ blocks b xs := by
  induction full with
  | nil => simp
  | cons x full ih =>
    rw [List.flatten_cons, List.append_assoc, blocks_append hb (hf x (by simp)),
      ih (fun y hy => hf y (by simp [hy])), List.cons_append]

private theorem blocks_spec {b : Nat} (hb : 0 < b) : ∀ (n : Nat) (xs : List α), xs.length ≤ n →
    (blocks b xs).flatten = xs ∧ ∀ x ∈ blocks b xs, x ≠ [] ∧ x.length ≤ b := by
  intro n
  induction n with
  | zero =>
    intro xs hn
    have : xs = [] := List.eq_nil_of_length_eq_zero (by omega)
    subst this
    simp
  | succ n ih =>
    intro xs hn
    by_cases h : xs = []
    · subst h; simp
    · have hpos : 0 < xs.length := List.length_pos_iff.mpr h
      obtain ⟨hflat, hmem⟩ := ih (xs.drop b) (by simp; omega)
      rw [blocks_of_ne_nil hb h]
      refine ⟨by rw [List.flatten_cons, hflat, List.take_append_drop], ?_⟩
      intro x hx
      rcases List.mem_cons.mp hx with rfl | hx
      · exact ⟨by simp [h, Nat.ne_of_gt hb], by simp⟩
      · exact hmem x hx

/-- Cutting loses nothing. -/
theorem flatten_blocks {b : Nat} (hb : 0 < b) (xs : List α) : (blocks b xs).flatten = xs :=
  (blocks_spec hb xs.length xs (Nat.le_refl _)).1

theorem ne_nil_of_mem_blocks {b : Nat} (hb : 0 < b) {xs x : List α} (h : x ∈ blocks b xs) :
    x ≠ [] := ((blocks_spec hb xs.length xs (Nat.le_refl _)).2 x h).1

theorem length_le_of_mem_blocks {b : Nat} (hb : 0 < b) {xs x : List α} (h : x ∈ blocks b xs) :
    x.length ≤ b := ((blocks_spec hb xs.length xs (Nat.le_refl _)).2 x h).2

theorem length_blocks_le {b : Nat} (hb : 0 < b) (xs : List α) :
    (blocks b xs).length ≤ xs.length / b + 1 := by
  have hgen : ∀ (n : Nat) (xs : List α), xs.length ≤ n →
      (blocks b xs).length ≤ xs.length / b + 1 := by
    intro n
    induction n with
    | zero =>
      intro xs hn
      have : xs = [] := List.eq_nil_of_length_eq_zero (by omega)
      subst this
      simp
    | succ n ih =>
      intro xs hn
      by_cases h : xs = []
      · subst h; simp
      · have hpos : 0 < xs.length := List.length_pos_iff.mpr h
        rcases Nat.lt_or_ge b xs.length with hlt | hge
        · have hrec := ih (xs.drop b) (by simp; omega)
          rw [List.length_drop] at hrec
          have hdiv : (xs.length - b) / b + 1 = xs.length / b := by
            rw [← Nat.add_div_right _ hb, Nat.sub_add_cancel (by omega)]
          rw [blocks_of_ne_nil hb h, List.length_cons]
          omega
        · rw [blocks_of_length_le hb h hge]
          simp
  exact hgen xs.length xs (Nat.le_refl _)

/-! ## Cutting while the data arrives -/

/-- Of `data`, the blocks `emitted` are full and `pending` is still to be cut. -/
structure Cut (b : Nat) (data : List α) (emitted : List (List α)) (pending : List α) : Prop where
  data_eq : data = emitted.flatten ++ pending
  full : ∀ x ∈ emitted, x.length = b
  pending_le : pending.length ≤ b

theorem Cut.nil (b : Nat) : Cut b ([] : List α) [] [] := ⟨rfl, by simp, by simp⟩

/-- More data that still fits is pending. -/
theorem Cut.push {b : Nat} {data pending : List α} {emitted : List (List α)}
    (h : Cut b data emitted pending) (xs : List α) (hl : pending.length + xs.length ≤ b) :
    Cut b (data ++ xs) emitted (pending ++ xs) :=
  ⟨by rw [h.data_eq, List.append_assoc], h.full, by simpa using hl⟩

/-- A full pending block may be emitted. -/
theorem Cut.emit {b : Nat} {data pending : List α} {emitted : List (List α)}
    (h : Cut b data emitted pending) (hl : pending.length = b) :
    Cut b data (emitted ++ [pending]) [] := by
  refine ⟨by simp [h.data_eq], ?_, by simp⟩
  intro x hx
  rcases List.mem_append.mp hx with hx | hx
  · exact h.full x hx
  · rw [List.mem_singleton.mp hx]; exact hl

/-- With nothing pending, the emitted blocks are the blocks of the data. -/
theorem Cut.blocks_eq {b : Nat} (hb : 0 < b) {data : List α} {emitted : List (List α)}
    (h : Cut b data emitted []) : blocks b data = emitted := by
  rw [h.data_eq, blocks_flatten_append hb h.full, blocks_nil, List.append_nil]

/-- What is pending and shorter than a block is the rest of the data. -/
theorem Cut.length_mod {b : Nat} {data pending : List α} {emitted : List (List α)}
    (h : Cut b data emitted pending) (hl : pending.length < b) :
    data.length % b = pending.length := by
  have hfull : emitted.flatten.length = emitted.length * b := by
    rw [List.length_flatten, List.map_congr_left h.full, List.map_const', List.sum_replicate,
      smul_eq_mul]
  rw [h.data_eq, List.length_append, hfull, Nat.mul_add_mod', Nat.mod_eq_of_lt hl]

/-- Emitting what is pending, however short, completes the blocks of the data. -/
theorem Cut.blocks_eq_append {b : Nat} (hb : 0 < b) {data pending : List α}
    {emitted : List (List α)} (h : Cut b data emitted pending) (hp : pending ≠ []) :
    blocks b data = emitted ++ [pending] := by
  rw [h.data_eq, blocks_flatten_append hb h.full, blocks_of_length_le hb hp h.pending_le]

/-! ## Data in segments -/

/-- Data that arrives in parts, cut where a `none` stands. -/
def segments : List (Option (List α)) → List (List α)
  | [] => [[]]
  | none :: parts => [] :: segments parts
  | some xs :: parts => (xs ++ (segments parts).headD []) :: (segments parts).tail

/-- The blocks of the segments that have ended, and the data since. -/
def advance (b : Nat) : List (List α) × List α → Option (List α) → List (List α) × List α
  | (done, current), none => (done ++ blocks b current, [])
  | (done, current), some xs => (done, current ++ xs)

theorem segments_eq (parts : List (Option (List α))) :
    segments parts = (segments parts).headD [] :: (segments parts).tail := by
  cases parts with
  | nil => rfl
  | cons part parts => cases part <;> rfl

/-- Completing the last segment gives the blocks of all segments. -/
theorem advance_blocks (b : Nat) (parts : List (Option (List α))) (done : List (List α))
    (current : List α) :
    (parts.foldl (advance b) (done, current)).1 ++
        blocks b (parts.foldl (advance b) (done, current)).2 =
      done ++ (blocks b (current ++ (segments parts).headD []) ++
        (segments parts).tail.flatMap (blocks b)) := by
  induction parts generalizing done current with
  | nil => simp [segments]
  | cons part parts ih =>
    cases part with
    | none =>
      simp only [List.foldl_cons, advance, segments, List.headD_cons, List.tail_cons,
        List.append_nil]
      rw [ih, List.append_assoc, List.nil_append]
      conv_rhs => rw [segments_eq parts, List.flatMap_cons]
    | some xs =>
      simp only [List.foldl_cons, advance, segments, List.headD_cons, List.tail_cons]
      rw [ih, List.append_assoc current]

theorem advance_nil_blocks (b : Nat) (parts : List (Option (List α))) (done : List (List α)) :
    (parts.foldl (advance b) (done, [])).1 ++ blocks b (parts.foldl (advance b) (done, [])).2 =
      done ++ (segments parts).flatMap (blocks b) := by
  rw [advance_blocks]
  conv_rhs => rw [segments_eq parts, List.flatMap_cons]
  rfl

/-- The segments are the data. -/
theorem flatten_segments (parts : List (Option (List α))) :
    (segments parts).flatten = parts.flatMap fun part => part.getD [] := by
  induction parts with
  | nil => rfl
  | cons part parts ih =>
    rw [List.flatMap_cons, ← ih]
    cases part with
    | none => rfl
    | some xs =>
      conv_rhs => rw [segments_eq parts]
      simp [segments]

end Blocks
