import SnappyJava.Lib.Exec

/-! Two runs side by side. `Q` relates the results and the states where both
return, `E` relates the exceptions where both throw, and `X` speaks of a first run
that throws where the second returns. That the first returns where the second
throws is excluded. -/

namespace Exec

variable {ε σ σ' α α' β β' γ γ' : Type}

def wp₂ (m : EStateM ε σ α) (m' : EStateM ε σ' α') (Q : α → σ → α' → σ' → Prop)
    (E : ε → σ → ε → σ' → Prop) (X : ε → σ → α' → σ' → Prop) (s : σ) (t : σ') : Prop :=
  match m.run s, m'.run t with
  | .ok a s₁, .ok b t₁ => Q a s₁ b t₁
  | .error e s₁, .error f t₁ => E e s₁ f t₁
  | .error e s₁, .ok b t₁ => X e s₁ b t₁
  | .ok _ _, .error _ _ => False

section
variable {Q Q' : α → σ → α' → σ' → Prop} {E E' : ε → σ → ε → σ' → Prop}
  {X X' : ε → σ → α' → σ' → Prop} {m : EStateM ε σ α} {m' : EStateM ε σ' α'} {s : σ} {t : σ'}

theorem wp₂_mono (h : wp₂ m m' Q E X s t) (hQ : ∀ a s b t, Q a s b t → Q' a s b t)
    (hE : ∀ e s f t, E e s f t → E' e s f t) (hX : ∀ e s b t, X e s b t → X' e s b t) :
    wp₂ m m' Q' E' X' s t := by
  unfold wp₂ at h ⊢
  cases hm : m.run s with
  | ok a s₁ =>
    cases hm' : m'.run t with
    | ok b t₁ => rw [hm, hm'] at h; exact hQ _ _ _ _ h
    | error f t₁ => rw [hm, hm'] at h; exact h.elim
  | error e s₁ =>
    cases hm' : m'.run t with
    | ok b t₁ => rw [hm, hm'] at h; exact hX _ _ _ _ h
    | error f t₁ => rw [hm, hm'] at h; exact hE _ _ _ _ h

/-- What the first run does besides. -/
theorem wp₂_and {P : α → σ → Prop} {F : ε → σ → Prop} (h : wp₂ m m' Q E X s t) (h' : wp m P F s) :
    wp₂ m m' (fun a s₁ b t₁ => Q a s₁ b t₁ ∧ P a s₁) (fun e s₁ f t₁ => E e s₁ f t₁ ∧ F e s₁)
      (fun e s₁ b t₁ => X e s₁ b t₁ ∧ F e s₁) s t := by
  unfold wp at h'
  unfold wp₂ at h ⊢
  cases hm : m.run s <;> cases hm' : m'.run t <;> rw [hm, hm'] at h <;> rw [hm] at h'
  · exact ⟨h, h'⟩
  · exact h
  · exact ⟨h, h'⟩
  · exact ⟨h, h'⟩

/-- Each run by its own specification. -/
theorem wp₂_of_wps {P : α → σ → Prop} {P' : α' → σ' → Prop} {F : ε → σ → Prop} {F' : ε → σ' → Prop}
    (h : wp m P F s) (h' : wp m' P' F' t) (hQ : ∀ a s b t, P a s → P' b t → Q a s b t)
    (hE : ∀ e s f t, F e s → F' f t → E e s f t) (hX : ∀ e s b t, F e s → P' b t → X e s b t)
    (hno : ∀ a s f t, P a s → ¬ F' f t) : wp₂ m m' Q E X s t := by
  unfold wp at h h'
  unfold wp₂
  cases hm : m.run s with
  | ok a s₁ =>
    cases hm' : m'.run t with
    | ok b t₁ => rw [hm] at h; rw [hm'] at h'; exact hQ _ _ _ _ h h'
    | error f t₁ => rw [hm] at h; rw [hm'] at h'; exact hno _ _ _ _ h h'
  | error e s₁ =>
    cases hm' : m'.run t with
    | ok b t₁ => rw [hm] at h; rw [hm'] at h'; exact hX _ _ _ _ h h'
    | error f t₁ => rw [hm] at h; rw [hm'] at h'; exact hE _ _ _ _ h h'

/-- Where both runs return. -/
theorem wp₂_of_wp {P : α → σ → Prop} {P' : α' → σ' → Prop} (h : wp m P (fun _ _ => False) s)
    (h' : wp m' P' (fun _ _ => False) t) (hQ : ∀ a s b t, P a s → P' b t → Q a s b t) :
    wp₂ m m' Q E X s t :=
  wp₂_of_wps h h' hQ (fun _ _ _ _ h => h.elim) (fun _ _ _ _ h => h.elim) (fun _ _ _ _ _ h => h)

@[simp] theorem wp₂_pure (a : α) (b : α') :
    wp₂ (pure a : EStateM ε σ α) (pure b : EStateM ε σ' α') Q E X s t = Q a s b t := rfl

@[simp] theorem wp₂_throw (e f : ε) :
    wp₂ (throw e : EStateM ε σ α) (throw f : EStateM ε σ' α') Q E X s t = E e s f t := rfl

@[simp] theorem wp₂_throw_pure (e : ε) (b : α') :
    wp₂ (throw e : EStateM ε σ α) (pure b : EStateM ε σ' α') Q E X s t = X e s b t := rfl

/-- Where the first run goes on, so does the second; where only the first has
thrown, the second goes on alone. -/
theorem wp₂_bind {p : EStateM ε σ β} {p' : EStateM ε σ' β'} {f : β → EStateM ε σ α}
    {f' : β' → EStateM ε σ' α'}
    (h : wp₂ p p' (fun a s b t => wp₂ (f a) (f' b) Q E X s t) E
      (fun e s b t => wp (f' b) (X e s) (E e s) t) s t) :
    wp₂ (p >>= f) (p' >>= f') Q E X s t := by
  unfold wp₂ at h ⊢
  rw [EStateM.run_bind, EStateM.run_bind]
  cases hp : p.run s with
  | ok a s₁ =>
    cases hp' : p'.run t with
    | ok b t₁ => rw [hp, hp'] at h; exact h
    | error f t₁ => rw [hp, hp'] at h; exact h.elim
  | error e s₁ =>
    cases hp' : p'.run t with
    | ok b t₁ =>
      rw [hp, hp'] at h
      have hrest : wp (f' b) (X e s₁) (E e s₁) t₁ := h
      unfold wp at hrest
      cases hf : (f' b).run t₁ <;> rw [hf] at hrest <;> simp only [hf] <;> exact hrest
    | error f t₁ => rw [hp, hp'] at h; exact h

@[simp] theorem wp₂_fromExcept_ok (a : α) (b : α') :
    wp₂ (fromExcept (.ok a) : EStateM ε σ α) (fromExcept (.ok b) : EStateM ε σ' α') Q E X s t =
      Q a s b t := rfl

@[simp] theorem wp₂_fromExcept_error (e f : ε) :
    wp₂ (fromExcept (.error e) : EStateM ε σ α) (fromExcept (.error f) : EStateM ε σ' α') Q E X s t =
      E e s f t := rfl

@[simp] theorem wp₂_modify {g : σ → σ} {g' : σ' → σ'} {Q : PUnit → σ → PUnit → σ' → Prop}
    {X : ε → σ → PUnit → σ' → Prop} :
    wp₂ (modify g : EStateM ε σ PUnit) (modify g' : EStateM ε σ' PUnit) Q E X s t =
      Q ⟨⟩ (g s) ⟨⟩ (g' t) := rfl

@[simp] theorem wp₂_get {Q : σ → σ → σ' → σ' → Prop} {X : ε → σ → σ' → σ' → Prop} :
    wp₂ (get : EStateM ε σ σ) (get : EStateM ε σ' σ') Q E X s t = Q s s t t := rfl

@[simp] theorem wp₂_get_bind {f : σ → EStateM ε σ α} {f' : σ' → EStateM ε σ' α'} :
    wp₂ (get >>= f) (get >>= f') Q E X s t = wp₂ (f s) (f' t) Q E X s t := rfl

@[simp] theorem wp₂_set_bind {s₁ : σ} {t₁ : σ'} {f : PUnit → EStateM ε σ α}
    {f' : PUnit → EStateM ε σ' α'} :
    wp₂ (set s₁ >>= f) (set t₁ >>= f') Q E X s t = wp₂ (f ⟨⟩) (f' ⟨⟩) Q E X s₁ t₁ := rfl

@[simp] theorem wp₂_modify_bind {g : σ → σ} {g' : σ' → σ'} {f : PUnit → EStateM ε σ α}
    {f' : PUnit → EStateM ε σ' α'} :
    wp₂ (modify g >>= f) (modify g' >>= f') Q E X s t = wp₂ (f ⟨⟩) (f' ⟨⟩) Q E X (g s) (g' t) := rfl

theorem wp₂_ite {c c' : Prop} [Decidable c] [Decidable c'] {n : EStateM ε σ α}
    {n' : EStateM ε σ' α'} (hc : c ↔ c') (hm : c → wp₂ m m' Q E X s t)
    (hn : ¬ c → wp₂ n n' Q E X s t) :
    wp₂ (if c then m else n) (if c' then m' else n') Q E X s t := by
  by_cases h : c
  · rw [if_pos h, if_pos (hc.mp h)]
    exact hm h
  · rw [if_neg h, if_neg (fun h' => h (hc.mpr h'))]
    exact hn h

/-- The same result or exception on both sides. -/
theorem wp₂_fromExcept {x : Except ε β} {f : β → EStateM ε σ α} {f' : β → EStateM ε σ' α'}
    (hok : ∀ a, x = .ok a → wp₂ (f a) (f' a) Q E X s t) (herr : ∀ e, x = .error e → E e s e t) :
    wp₂ (fromExcept x >>= f) (fromExcept x >>= f') Q E X s t := by
  cases x with
  | ok a => exact wp₂_bind (hok a rfl)
  | error e => exact wp₂_bind (herr e rfl)

end

/-- One computation from one state goes one way. -/
theorem wp₂_self {m : EStateM ε σ α} {Q : α → σ → α → σ → Prop} {E : ε → σ → ε → σ → Prop}
    {X : ε → σ → α → σ → Prop} {s : σ} (hQ : ∀ a s', Q a s' a s') (hE : ∀ e s', E e s' e s') :
    wp₂ m m Q E X s s := by
  unfold wp₂
  cases m.run s with
  | ok a s' => exact hQ a s'
  | error e s' => exact hE e s'

/-- Two computations with a local variable, however they end. -/
theorem wp₂_withLocal {τ τ' : Type} {m : EStateM ε (σ × τ) α} {m' : EStateM ε (σ' × τ') α'}
    {Q : Except ε α × τ → σ → Except ε α' × τ' → σ' → Prop} {E : ε → σ → ε → σ' → Prop}
    {X : ε → σ → Except ε α' × τ' → σ' → Prop} {u : τ} {v : τ'} {s : σ} {t : σ'}
    (h : wp₂ m m' (fun a x b y => Q (.ok a, x.2) x.1 (.ok b, y.2) y.1)
      (fun e x f y => Q (.error e, x.2) x.1 (.error f, y.2) y.1)
      (fun e x b y => Q (.error e, x.2) x.1 (.ok b, y.2) y.1) (s, u) (t, v)) :
    wp₂ (withLocal u m) (withLocal v m') Q E X s t := by
  unfold wp₂ at h ⊢
  unfold withLocal
  cases hm : m.run (s, u) <;> cases hm' : m'.run (t, v) <;> rw [hm, hm'] at h <;>
    simp only [EStateM.run] at hm hm' h ⊢ <;> rw [hm, hm'] <;> exact h

/-- Two computations on components of the states. -/
theorem wp₂_zoom {τ τ' : Type} {get : σ → τ} {put : τ → σ → σ} {get' : σ' → τ'}
    {put' : τ' → σ' → σ'} {m : EStateM ε τ α} {m' : EStateM ε τ' α'}
    {Q : α → σ → α' → σ' → Prop} {E : ε → σ → ε → σ' → Prop} {X : ε → σ → α' → σ' → Prop}
    {s : σ} {t : σ'}
    (h : wp₂ m m' (fun a u b v => Q a (put u s) b (put' v t))
      (fun e u f v => E e (put u s) f (put' v t)) (fun e u b v => X e (put u s) b (put' v t))
      (get s) (get' t)) :
    wp₂ (zoom get put m) (zoom get' put' m') Q E X s t := by
  unfold wp₂ at h ⊢
  unfold zoom
  cases hm : m.run (get s) <;> cases hm' : m'.run (get' t) <;> rw [hm, hm'] at h <;>
    simp only [EStateM.run] at hm hm' h ⊢ <;> rw [hm, hm'] <;> exact h

/-- Two loops that leave in the same round. -/
theorem wp₂_loop {limit : ε} {body : β → EStateM ε σ (β ⊕ γ)} {body' : β' → EStateM ε σ' (β' ⊕ γ')}
    (I : β → σ → β' → σ' → Prop) (μ : β → σ → Nat) (μ' : β' → σ' → Nat)
    {Q : γ → σ → γ' → σ' → Prop} {E : ε → σ → ε → σ' → Prop} {X : ε → σ → γ' → σ' → Prop}
    (hbody : ∀ b s b' t, I b s b' t → wp₂ (body b) (body' b')
      (fun r s₁ r' t₁ =>
        (∃ c c', r = .inl c ∧ r' = .inl c' ∧ I c s₁ c' t₁ ∧ μ c s₁ < μ b s ∧ μ' c' t₁ < μ' b' t) ∨
        ∃ d d', r = .inr d ∧ r' = .inr d' ∧ Q d s₁ d' t₁)
      E (fun e s₁ r' t₁ => ∃ d, r' = .inr d ∧ X e s₁ d t₁) s t)
    {n n' : Nat} {b : β} {b' : β'} {s : σ} {t : σ'} (hI : I b s b' t) (hn : μ b s < n)
    (hn' : μ' b' t < n') :
    wp₂ (loop limit body n b) (loop limit body' n' b') Q E X s t := by
  induction n generalizing n' b b' s t with
  | zero => omega
  | succ n ih =>
    obtain ⟨k, rfl⟩ : ∃ k, n' = k + 1 := ⟨n' - 1, by omega⟩
    rw [loop, loop]
    apply wp₂_bind
    refine wp₂_mono (hbody b s b' t hI) ?_ (fun _ _ _ _ h => h) ?_
    · rintro r s₁ r' t₁ (⟨c, c', rfl, rfl, hc, hlt, hlt'⟩ | ⟨d, d', rfl, rfl, hq⟩)
      · exact ih hc (by omega) (by omega)
      · exact hq
    · rintro e s₁ r' t₁ ⟨d, rfl, hx⟩
      exact hx

/-! ## Runs that agree -/

/-- Related states give the same result or the same exception, and related
states. -/
def Agrees (R : σ → σ → Prop) (m : EStateM ε σ α) : Prop :=
  ∀ s t, R s t → wp₂ m m (fun a s₁ b t₁ => a = b ∧ R s₁ t₁) (fun e s₁ f t₁ => e = f ∧ R s₁ t₁)
    (fun _ _ _ _ => False) s t

section
variable {R : σ → σ → Prop}

theorem Agrees.pure (a : α) : Agrees R (Pure.pure a : EStateM ε σ α) := fun _ _ h => ⟨rfl, h⟩

theorem Agrees.throw (e : ε) : Agrees R (MonadExcept.throw e : EStateM ε σ α) := fun _ _ h => ⟨rfl, h⟩

theorem Agrees.update {f : σ → σ} (h : ∀ s t, R s t → R (f s) (f t)) :
    Agrees R (modify f : EStateM ε σ PUnit) := fun s t hst => ⟨rfl, h s t hst⟩

/-- After `get` the states are those that were read. -/
theorem Agrees.bind_get {f : σ → EStateM ε σ α}
    (hf : ∀ s t, R s t → wp₂ (f s) (f t) (fun a s₁ b t₁ => a = b ∧ R s₁ t₁)
      (fun e s₁ f t₁ => e = f ∧ R s₁ t₁) (fun _ _ _ _ => False) s t) :
    Agrees R ((MonadState.get : EStateM ε σ σ) >>= f) := fun s t hst => hf s t hst

theorem Agrees.ite {c : Prop} [Decidable c] {m n : EStateM ε σ α} (hm : Agrees R m)
    (hn : Agrees R n) : Agrees R (if c then m else n) := by
  split
  · exact hm
  · exact hn

theorem Agrees.fromExcept (x : Except ε α) : Agrees R (Exec.fromExcept x : EStateM ε σ α) := by
  cases x
  · exact Agrees.throw _
  · exact Agrees.pure _

theorem Agrees.bind {m : EStateM ε σ β} {f : β → EStateM ε σ α} (hm : Agrees R m)
    (hf : ∀ b, Agrees R (f b)) : Agrees R (m >>= f) := by
  intro s t hst
  apply wp₂_bind
  refine wp₂_mono (hm s t hst) ?_ (fun _ _ _ _ h => h) (fun _ _ _ _ h => h.elim)
  rintro a s₁ b t₁ ⟨rfl, hR⟩
  exact hf a s₁ t₁ hR

/-- What agrees may come first. -/
theorem Agrees.wp₂_bind {m : EStateM ε σ β} (hm : Agrees R m) {f f' : β → EStateM ε σ α}
    {Q : α → σ → α → σ → Prop} {E : ε → σ → ε → σ → Prop} {X : ε → σ → α → σ → Prop} {s t : σ}
    (hR : R s t) (hf : ∀ b s t, R s t → wp₂ (f b) (f' b) Q E X s t) (hE : ∀ e s t, R s t → E e s e t) :
    wp₂ (m >>= f) (m >>= f') Q E X s t := by
  apply Exec.wp₂_bind
  refine wp₂_mono (hm s t hR) ?_ ?_ (fun _ _ _ _ h => h.elim)
  · rintro b s₁ _ t₁ ⟨rfl, hR'⟩
    exact hf b s₁ t₁ hR'
  · rintro e s₁ _ t₁ ⟨rfl, hR'⟩
    exact hE e s₁ t₁ hR'

end

end Exec
