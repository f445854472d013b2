import Mathlib

/-! Systems that take one atomic step after another. A step may be refused in
the state at hand; a run is a list of steps none of which is refused, so a
statement about all runs is a statement about all interleavings. -/

namespace Steps

variable {σ ε : Type}

/-- The state after the steps `es`. -/
def run (step : σ → ε → Option σ) : σ → List ε → Option σ
  | s, [] => some s
  | s, e :: es => (step s e).bind fun t => run step t es

/-- What every step keeps, every run keeps. -/
theorem run_invariant {step : σ → ε → Option σ} (I : σ → Prop)
    (hstep : ∀ s e t, I s → step s e = some t → I t) {es : List ε} {s t : σ} (hs : I s)
    (h : run step s es = some t) : I t := by
  induction es generalizing s with
  | nil =>
    cases h
    exact hs
  | cons e es ih =>
    obtain ⟨u, hu, hrun⟩ := Option.bind_eq_some_iff.mp h
    exact ih (hstep s e u hs hu) hrun

/-- A run passes through each step of a prefix of it. -/
theorem run_cons {step : σ → ε → Option σ} {e : ε} {es : List ε} {s u : σ} (h : step s e = some u) :
    run step s (e :: es) = run step u es := by
  rw [run, h, Option.bind_some]

/-- Where a step adds to `total` only up to `out` of the state it reaches, a run adds
to it only up to `out` of some state on the way. -/
theorem exists_peak {step : σ → ε → Option σ} (I : σ → Prop) (total out : σ → Nat)
    (hstep : ∀ s e t, I s → step s e = some t → I t)
    (hgrow : ∀ s e t, I s → step s e = some t → total t ≤ total s ∨ total t ≤ out t)
    {es : List ε} {s t : σ} (hs : I s) (h : run step s es = some t) :
    total t ≤ total s ∨ ∃ before u, before <+: es ∧ run step s before = some u ∧ total t ≤ out u := by
  induction es generalizing s with
  | nil =>
    cases h
    exact .inl (Nat.le_refl _)
  | cons e es ih =>
    obtain ⟨u, hu, hrun⟩ := Option.bind_eq_some_iff.mp h
    rcases ih (hstep s e u hs hu) hrun with hle | ⟨before, v, hfront, hbefore, hv⟩
    · rcases hgrow s e u hs hu with hgrow | hgrow
      · exact .inl (Nat.le_trans hle hgrow)
      · refine .inr ⟨[e], u, ⟨es, rfl⟩, ?_, Nat.le_trans hle hgrow⟩
        rw [run_cons hu]
        rfl
    · exact .inr ⟨e :: before, v, List.cons_prefix_cons.mpr ⟨rfl, hfront⟩,
        (run_cons hu).trans hbefore, hv⟩

end Steps
