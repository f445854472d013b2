import Mathlib

/-! Objects that have one owner at a time. `g o` lists the objects of the owner
`o`; the owners need not be finitely many. -/

namespace Ownership

variable {κ α : Type}

/-- No object is listed twice, neither with two owners nor with one. -/
structure Exclusive (g : κ → List α) : Prop where
  nodup : ∀ o, (g o).Nodup
  unique : ∀ {o o' x}, x ∈ g o → x ∈ g o' → o = o'

variable {g g' : κ → List α} {o₁ o₂ : κ} {x : α}

theorem Exclusive.nil : Exclusive fun _ : κ => ([] : List α) :=
  ⟨fun _ => List.nodup_nil, fun h _ => absurd h (List.not_mem_nil)⟩

/-- Objects may be forgotten, or listed in another order. -/
theorem Exclusive.shrink (h : Exclusive g) (hsub : ∀ o, (g' o).Subperm (g o)) : Exclusive g' := by
  constructor
  · intro o
    obtain ⟨l, hperm, hl⟩ := hsub o
    exact hperm.nodup_iff.mp (hl.nodup (h.nodup o))
  · intro o o' x hx hx'
    exact h.unique ((hsub o).subset hx) ((hsub o').subset hx')

/-- An object nobody has may be given to anybody. -/
theorem Exclusive.insert (h : Exclusive g) (hx : ∀ o, x ∉ g o) (h₁ : (g' o₁).Subperm (x :: g o₁))
    (hrest : ∀ o, o ≠ o₁ → (g' o).Subperm (g o)) : Exclusive g' := by
  have hmem : ∀ {o y}, y ∈ g' o → y ∈ g o ∨ o = o₁ ∧ y = x := by
    intro o y hy
    by_cases ho : o = o₁
    · subst ho
      rcases List.mem_cons.mp (h₁.subset hy) with rfl | hy
      · exact .inr ⟨rfl, rfl⟩
      · exact .inl hy
    · exact .inl ((hrest o ho).subset hy)
  constructor
  · intro o
    by_cases ho : o = o₁
    · subst ho
      obtain ⟨l, hperm, hl⟩ := h₁
      exact hperm.nodup_iff.mp (hl.nodup (List.nodup_cons.mpr ⟨hx o, h.nodup o⟩))
    · obtain ⟨l, hperm, hl⟩ := hrest o ho
      exact hperm.nodup_iff.mp (hl.nodup (h.nodup o))
  · intro o o' y hy hy'
    rcases hmem hy with hy | ⟨rfl, rfl⟩ <;> rcases hmem hy' with hy' | ⟨rfl, heq⟩
    · exact h.unique hy hy'
    · subst heq
      exact absurd hy (hx o)
    · exact absurd hy' (hx o')
    · rfl

/-- An object may change its owner. -/
theorem Exclusive.transfer (h : Exclusive g) (hne : o₁ ≠ o₂) (h₁ : (x :: g' o₁).Subperm (g o₁))
    (h₂ : (g' o₂).Subperm (x :: g o₂)) (hrest : ∀ o, o ≠ o₁ → o ≠ o₂ → (g' o).Subperm (g o)) :
    Exclusive g' := by
  classical
  have hx : x ∈ g o₁ := h₁.subset List.mem_cons_self
  have hx₁ : x ∉ g' o₁ := by
    obtain ⟨l, hperm, hl⟩ := h₁
    exact (List.nodup_cons.mp (hperm.nodup_iff.mp (hl.nodup (h.nodup o₁)))).1
  -- first it is nobody's, then it goes to its new owner
  have hmid : Exclusive fun o => if o = o₂ then g o₂ else g' o := by
    refine h.shrink fun o => ?_
    split
    · rename_i ho
      rw [ho]
    · rename_i ho
      by_cases ho₁ : o = o₁
      · subst ho₁
        exact (List.sublist_cons_self _ _).subperm.trans h₁
      · exact hrest o ho₁ ho
  refine @Exclusive.insert _ _ _ _ o₂ x hmid ?_ (by simpa using h₂) ?_
  · intro o hmem
    split at hmem
    · exact hne (h.unique hx hmem)
    · rename_i ho
      by_cases ho₁ : o = o₁
      · subst ho₁
        exact hx₁ hmem
      · exact ho₁ (h.unique ((hrest o ho₁ ho).subset hmem) hx)
  · intro o ho
    rw [if_neg ho]

/-- A sum over all owners, one of which changes. -/
theorem sum_update_change [Fintype κ] [DecidableEq κ] {β : Type} (f : β → Nat) (g : κ → β) (o : κ)
    (y : β) : (∑ i, f (Function.update g o y i)) + f (g o) = (∑ i, f (g i)) + f y := by
  have hrest : ∑ i ∈ Finset.univ.erase o, f (Function.update g o y i) =
      ∑ i ∈ Finset.univ.erase o, f (g i) :=
    Finset.sum_congr rfl fun i hi => by rw [Function.update_of_ne (Finset.ne_of_mem_erase hi)]
  rw [← Finset.add_sum_erase Finset.univ _ (Finset.mem_univ o),
    ← Finset.add_sum_erase Finset.univ (fun i => f (g i)) (Finset.mem_univ o),
    Function.update_self, hrest]
  omega

end Ownership
