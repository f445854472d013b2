import SnappyJava.Lib.Exec

/-! Parts of a state that are only written. Wiping them out before a computation
changes neither how it ends nor what it does to the rest of the state. -/

namespace Exec

variable {ε σ τ α β γ : Type}

/-- The final state of a run under `f`. -/
def onResult (f : σ → σ) : EStateM.Result ε σ α → EStateM.Result ε σ α
  | .ok a s => .ok a (f s)
  | .error e s => .error e (f s)

/-- What `erase` wipes out makes no difference to `m`. -/
def Blind (erase : σ → σ) (m : EStateM ε σ α) : Prop :=
  ∀ s, onResult erase (m.run s) = onResult erase (m.run (erase s))

namespace Blind

variable {erase : σ → σ}

theorem pure (h : ∀ s, erase (erase s) = erase s) (a : α) :
    Blind erase (Pure.pure a : EStateM ε σ α) := fun s => congrArg (EStateM.Result.ok a) (h s).symm

theorem throw (h : ∀ s, erase (erase s) = erase s) (e : ε) :
    Blind erase (throw e : EStateM ε σ α) := fun s => congrArg (EStateM.Result.error e) (h s).symm

theorem fromExcept (h : ∀ s, erase (erase s) = erase s) (x : Except ε α) :
    Blind erase (Exec.fromExcept x : EStateM ε σ α) := by
  cases x with
  | error e => exact throw h e
  | ok a => exact pure h a

theorem update {f : σ → σ} (h : ∀ s, erase (f s) = erase (f (erase s))) :
    Blind erase (modify f : EStateM ε σ PUnit) := fun s => congrArg (EStateM.Result.ok _) (h s)

theorem bind {m : EStateM ε σ β} {f : β → EStateM ε σ α} (hm : Blind erase m)
    (hf : ∀ b, Blind erase (f b)) : Blind erase (m >>= f) := by
  intro s
  have h := hm s
  simp only [EStateM.run_bind]
  cases hs : m.run s with
  | error e t =>
    cases hs' : m.run (erase s) with
    | error e' t' =>
      rw [hs, hs'] at h
      simp only [onResult, EStateM.Result.error.injEq] at h ⊢
      exact h
    | ok b t' =>
      rw [hs, hs'] at h
      cases h
  | ok b t =>
    cases hs' : m.run (erase s) with
    | error e' t' =>
      rw [hs, hs'] at h
      cases h
    | ok b' t' =>
      rw [hs, hs'] at h
      simp only [onResult, EStateM.Result.ok.injEq] at h
      obtain ⟨rfl, ht⟩ := h
      have hnext := hf b t
      rw [ht, ← hf b t'] at hnext
      exact hnext

/-- What is read after `get` is not what is wiped out. -/
theorem bind_get {f : σ → EStateM ε σ α} (hsame : ∀ s, f s = f (erase s))
    (hf : ∀ s, Blind erase (f s)) : Blind erase (MonadState.get >>= f) := by
  intro s
  have h := hf s s
  rw [show (f s).run (erase s) = (f (erase s)).run (erase s) by rw [← hsame s]] at h
  exact h

theorem ite {c : Prop} [Decidable c] {m n : EStateM ε σ α} (hm : Blind erase m)
    (hn : Blind erase n) : Blind erase (if c then m else n) := by
  split
  · exact hm
  · exact hn

theorem when (h : ∀ s, erase (erase s) = erase s) {c : Prop} [Decidable c] {m : EStateM ε σ Unit}
    (hm : Blind erase m) : Blind erase (Exec.when c m) := ite hm (pure h ())

/-- A component that `erase` leaves alone. -/
theorem zoom {get : σ → τ} {put : τ → σ → σ} (m : EStateM ε τ α)
    (hget : ∀ s, get (erase s) = get s) (hput : ∀ t s, erase (put t s) = erase (put t (erase s))) :
    Blind erase (Exec.zoom get put m) := by
  intro s
  have hrun : ∀ u, (Exec.zoom get put m).run u = match m.run (get u) with
      | .ok a t => .ok a (put t u)
      | .error e t => .error e (put t u) := fun _ => rfl
  rw [hrun, hrun, hget]
  cases m.run (get s) with
  | ok a t => exact congrArg (EStateM.Result.ok a) (hput t s)
  | error e t => exact congrArg (EStateM.Result.error e) (hput t s)

theorem loop (h : ∀ s, erase (erase s) = erase s) {limit : ε} {body : β → EStateM ε σ (β ⊕ γ)}
    (hbody : ∀ b, Blind erase (body b)) (n : Nat) (b : β) :
    Blind erase (Exec.loop limit body n b) := by
  induction n generalizing b with
  | zero => exact throw h limit
  | succ n ih =>
    refine bind (hbody b) fun r => ?_
    cases r with
    | inl b' => exact ih b'
    | inr c => exact pure h c

/-- A run that returns, returns the same from the wiped state. -/
theorem run_ok {m : EStateM ε σ α} (hm : Blind erase m) {s t : σ} {a : α}
    (hrun : m.run s = .ok a t) : ∃ t', m.run (erase s) = .ok a t' ∧ erase t' = erase t := by
  have h := hm s
  rw [hrun] at h
  cases hs' : m.run (erase s) with
  | error e t' =>
    rw [hs'] at h
    cases h
  | ok a' t' =>
    rw [hs'] at h
    simp only [onResult, EStateM.Result.ok.injEq] at h
    obtain ⟨rfl, ht⟩ := h
    exact ⟨t', rfl, ht.symm⟩

end Blind

end Exec
