import Mathlib

/-! Weakest preconditions for computations that carry a state and can throw.
A throwing computation keeps the state it had reached, so a postcondition has
two parts: one for a result, one for an exception. The rules below let a
program be executed symbolically by `simp`, with `wp_mono` where a callee is
known by its own specification and `wp_loop` where the source loops. -/

namespace Exec

variable {ε σ τ α β γ ω : Type}

/-- Run from `s`, `m` ends in `Q` with a result or in `E` with an exception. -/
def wp (m : EStateM ε σ α) (Q : α → σ → Prop) (E : ε → σ → Prop) (s : σ) : Prop :=
  match m.run s with
  | .ok a s' => Q a s'
  | .error e s' => E e s'

theorem wp_mono {m : EStateM ε σ α} {Q Q' : α → σ → Prop} {E E' : ε → σ → Prop} {s : σ}
    (h : wp m Q E s) (hQ : ∀ a s', Q a s' → Q' a s') (hE : ∀ e s', E e s' → E' e s') :
    wp m Q' E' s := by
  unfold wp at h ⊢
  cases hm : m.run s with
  | ok a s' => rw [hm] at h; exact hQ a s' h
  | error e s' => rw [hm] at h; exact hE e s' h

theorem wp_and {m : EStateM ε σ α} {Q Q' : α → σ → Prop} {E E' : ε → σ → Prop} {s : σ}
    (h : wp m Q E s) (h' : wp m Q' E' s) :
    wp m (fun a t => Q a t ∧ Q' a t) (fun e t => E e t ∧ E' e t) s := by
  unfold wp at h h' ⊢
  cases hm : m.run s with
  | ok a s' => rw [hm] at h h'; exact ⟨h, h'⟩
  | error e s' => rw [hm] at h h'; exact ⟨h, h'⟩

/-- What a precondition proves of a run that returned. -/
theorem wp_ok {m : EStateM ε σ α} {Q : α → σ → Prop} {E : ε → σ → Prop} {s s' : σ} {a : α}
    (h : wp m Q E s) (hm : m.run s = .ok a s') : Q a s' := by
  unfold wp at h; rw [hm] at h; exact h

theorem wp_error {m : EStateM ε σ α} {Q : α → σ → Prop} {E : ε → σ → Prop} {s s' : σ} {e : ε}
    (h : wp m Q E s) (hm : m.run s = .error e s') : E e s' := by
  unfold wp at h; rw [hm] at h; exact h

/-- A run that cannot throw returns. -/
theorem exists_of_wp {m : EStateM ε σ α} {Q : α → σ → Prop} {s : σ}
    (h : wp m Q (fun _ _ => False) s) : ∃ a s', m.run s = .ok a s' ∧ Q a s' := by
  unfold wp at h
  cases hm : m.run s with
  | ok a s' => rw [hm] at h; exact ⟨a, s', rfl, h⟩
  | error e s' => rw [hm] at h; exact h.elim

/-- A run ends in some way. -/
theorem not_wp_false {m : EStateM ε σ α} {s : σ} :
    ¬ wp m (fun _ _ => False) (fun _ _ => False) s := by
  unfold wp
  cases m.run s <;> exact id

instance {m : EStateM ε σ α} {Q : α → σ → Prop} {E : ε → σ → Prop} {s : σ}
    [∀ a t, Decidable (Q a t)] [∀ e t, Decidable (E e t)] : Decidable (wp m Q E s) := by
  unfold wp
  split <;> infer_instance

/-! ## Symbolic execution -/

section Rules
variable (Q : α → σ → Prop) (E : ε → σ → Prop)

@[simp] theorem wp_pure (a : α) : wp (pure a : EStateM ε σ α) Q E = Q a := rfl

@[simp] theorem wp_bind (m : EStateM ε σ β) (f : β → EStateM ε σ α) :
    wp (m >>= f) Q E = wp m (fun b => wp (f b) Q E) E := by
  funext s
  simp only [wp, EStateM.run_bind]
  cases m.run s <;> rfl

@[simp] theorem wp_map (f : β → α) (m : EStateM ε σ β) :
    wp (f <$> m) Q E = wp m (fun b => Q (f b)) E := by
  funext s
  simp only [wp, EStateM.run_map]
  cases m.run s <;> rfl

@[simp] theorem wp_throw (e : ε) : wp (throw e : EStateM ε σ α) Q E = E e := rfl

@[simp] theorem wp_ite (c : Prop) [Decidable c] (m n : EStateM ε σ α) :
    wp (if c then m else n) Q E = fun s => if c then wp m Q E s else wp n Q E s := by
  split <;> rfl

end Rules

/-- `if (c) m;` -/
def when (c : Prop) [Decidable c] (m : EStateM ε σ Unit) : EStateM ε σ Unit :=
  if c then m else pure ()

@[simp] theorem wp_when (c : Prop) [Decidable c] (m : EStateM ε σ Unit) (Q : Unit → σ → Prop)
    (E : ε → σ → Prop) :
    wp (when c m) Q E = fun s => if c then wp m Q E s else Q () s := by
  simp only [when, wp_ite, wp_pure]

@[simp] theorem wp_get (Q : σ → σ → Prop) (E : ε → σ → Prop) :
    wp (get : EStateM ε σ σ) Q E = fun s => Q s s := rfl

@[simp] theorem wp_set (t : σ) (Q : PUnit → σ → Prop) (E : ε → σ → Prop) :
    wp (set t : EStateM ε σ PUnit) Q E = fun _ => Q ⟨⟩ t := rfl

@[simp] theorem wp_modify (f : σ → σ) (Q : PUnit → σ → Prop) (E : ε → σ → Prop) :
    wp (modify f : EStateM ε σ PUnit) Q E = fun s => Q ⟨⟩ (f s) := rfl

/-- The result or the exception `x`. -/
def fromExcept (x : Except ε α) : EStateM ε σ α :=
  match x with
  | .ok a => pure a
  | .error e => throw e

@[simp] theorem wp_fromExcept_ok (a : α) (Q : α → σ → Prop) (E : ε → σ → Prop) :
    wp (fromExcept (.ok a)) Q E = Q a := rfl

@[simp] theorem wp_fromExcept_error (e : ε) (Q : α → σ → Prop) (E : ε → σ → Prop) :
    wp (fromExcept (.error e)) Q E = E e := rfl

/-! ## A component of the state -/

/-- Run `m` on the component of the state that `get` reads and `put` writes. -/
def zoom (get : σ → τ) (put : τ → σ → σ) (m : EStateM ε τ α) : EStateM ε σ α := fun s =>
  match m.run (get s) with
  | .ok a t => .ok a (put t s)
  | .error e t => .error e (put t s)

@[simp] theorem wp_zoom (get : σ → τ) (put : τ → σ → σ) (m : EStateM ε τ α)
    (Q : α → σ → Prop) (E : ε → σ → Prop) :
    wp (zoom get put m) Q E =
      fun s => wp m (fun a t => Q a (put t s)) (fun e t => E e (put t s)) (get s) := by
  funext s
  unfold wp zoom
  cases hm : m.run (get s) <;> simp only [EStateM.run] at hm ⊢ <;> rw [hm]

/-! ## Exceptions as results -/

/-- Run `m` and return how it ended. -/
def attempt (m : EStateM ε σ α) : EStateM ε σ (Except ε α) := fun s =>
  match m.run s with
  | .ok a t => .ok (.ok a) t
  | .error e t => .ok (.error e) t

@[simp] theorem wp_attempt (m : EStateM ε σ α) (Q : Except ε α → σ → Prop)
    (E : ε → σ → Prop) :
    wp (attempt m) Q E = wp m (fun a => Q (.ok a)) (fun e => Q (.error e)) := by
  funext s
  unfold wp attempt
  cases hm : m.run s <;> simp only [EStateM.run] at hm ⊢ <;> rw [hm]

/-- `try m finally done`: `done` runs after `m` however `m` ends, and an
exception of `done` replaces that of `m`. -/
def ensuring (m : EStateM ε σ α) (done : EStateM ε σ Unit) : EStateM ε σ α := do
  match ← attempt m with
  | .ok a => do done; pure a
  | .error e => do done; throw e

@[simp] theorem wp_ensuring (m : EStateM ε σ α) (done : EStateM ε σ Unit)
    (Q : α → σ → Prop) (E : ε → σ → Prop) :
    wp (ensuring m done) Q E =
      wp m (fun a => wp done (fun _ => Q a) E) (fun e => wp done (fun _ => E e) E) := by
  simp only [ensuring, wp_bind, wp_attempt, wp_pure, wp_throw]

/-- Run `m` with a local variable that starts as `t`: how `m` ended, and what
the variable then held. -/
def withLocal (t : τ) (m : EStateM ε (σ × τ) α) : EStateM ε σ (Except ε α × τ) := fun s =>
  match m.run (s, t) with
  | .ok a u => .ok (.ok a, u.2) u.1
  | .error e u => .ok (.error e, u.2) u.1

@[simp] theorem wp_withLocal (t : τ) (m : EStateM ε (σ × τ) α)
    (Q : Except ε α × τ → σ → Prop) (E : ε → σ → Prop) :
    wp (withLocal t m) Q E = fun s =>
      wp m (fun a u => Q (.ok a, u.2) u.1) (fun e u => Q (.error e, u.2) u.1) (s, t) := by
  funext s
  unfold wp withLocal
  cases hm : m.run (s, t) <;> simp only [EStateM.run] at hm ⊢ <;> rw [hm]

/-! ## Loops -/

/-- A loop that runs `body` until it leaves with `.inr`, at most `n` times;
`limit` is thrown if `n` rounds were not enough. -/
def loop (limit : ε) (body : β → EStateM ε σ (β ⊕ γ)) : Nat → β → EStateM ε σ γ
  | 0, _ => throw limit
  | n + 1, b => do
    match ← body b with
    | .inl b' => loop limit body n b'
    | .inr c => pure c

/-- The loop rule: the invariant `I` is kept by every round that goes on, and
such a round makes the measure `μ` smaller. Enough rounds are then never more
than `μ` at the start, so `limit` is not thrown. -/
theorem wp_loop {limit : ε} {body : β → EStateM ε σ (β ⊕ γ)} (I : β → σ → Prop)
    (μ : β → σ → Nat) {Q : γ → σ → Prop} {E : ε → σ → Prop}
    (hbody : ∀ b s, I b s → wp (body b)
      (fun r s' => Sum.elim (fun b' => I b' s' ∧ μ b' s' < μ b s) (fun c => Q c s') r) E s)
    {n : Nat} {b : β} {s : σ} (hI : I b s) (hn : μ b s < n) :
    wp (loop limit body n b) Q E s := by
  induction n generalizing b s with
  | zero => omega
  | succ n ih =>
    rw [loop, wp_bind]
    refine wp_mono (hbody b s hI) ?_ (fun _ _ h => h)
    intro r s' hr
    cases r with
    | inl b' => exact ih hr.1 (by have := hr.2; omega)
    | inr c => exact hr

/-- The rounds of a loop, begun with `b` in `s`, get to `b'` in `s'`. -/
inductive Rounds (body : β → EStateM ε σ (β ⊕ γ)) (b : β) (s : σ) : β → σ → Prop
  | refl : Rounds body b s b s
  | round {b' b'' : β} {s' s'' : σ} (h : Rounds body b s b' s')
      (h' : (body b').run s' = .ok (.inl b'') s'') : Rounds body b s b'' s''

/-- What every round keeps that goes on, every reached round has before it. -/
theorem Rounds.invariant {body : β → EStateM ε σ (β ⊕ γ)} {I : β → σ → Prop}
    (hbody : ∀ b s, I b s → wp (body b)
      (fun r s' => Sum.elim (fun b' => I b' s') (fun _ => True) r) (fun _ _ => True) s)
    {b b' : β} {s s' : σ} (hI : I b s) (h : Rounds body b s b' s') : I b' s' := by
  induction h with
  | refl => exact hI
  | round _ h' ih =>
    have hr := wp_ok (hbody _ _ ih) h'
    exact hr

/-- A loop whose every reached round keeps `I`, and leaves `J` behind where it
throws. -/
theorem wp_loop_rounds {limit : ε} {body : β → EStateM ε σ (β ⊕ γ)} {I J : σ → Prop} {b : β} {s : σ}
    (hJ : ∀ s, I s → J s)
    (hbody : ∀ b' s', Rounds body b s b' s' → I s' → wp (body b') (fun _ => I) (fun _ => J) s')
    (hI : I s) (n : Nat) : wp (loop limit body n b) (fun _ => I) (fun _ => J) s := by
  have hrest : ∀ n b' s', Rounds body b s b' s' → I s' →
      wp (loop limit body n b') (fun _ => I) (fun _ => J) s' := by
    intro n
    induction n with
    | zero => exact fun _ s' _ hs => hJ s' hs
    | succ n ih =>
      intro b' s' hr hs
      have hround := hbody b' s' hr hs
      rw [loop, wp_bind]
      unfold wp at hround ⊢
      cases hrun : (body b').run s' with
      | error e t =>
        rw [hrun] at hround
        exact hround
      | ok r t =>
        rw [hrun] at hround
        cases r with
        | inl b'' => exact ih b'' t (.round hr hrun) hround
        | inr c => exact hround
  exact hrest n b s .refl hI

/-! ## Sequences of calls -/

/-- The calls `os` one after another, up to the first exception. -/
def runAll (step : ω → EStateM ε σ α) : List ω → EStateM ε σ (List α)
  | [] => pure []
  | o :: os => do
    let a ← step o
    let as ← runAll step os
    pure (a :: as)

/-- The calls `os` one after another, with their outcomes. An exception ends its
own call only, but a `fatal` one ends the run. -/
def runOn (fatal : ε → Prop) [DecidablePred fatal] (step : ω → EStateM ε σ α) :
    List ω → EStateM ε σ (List (Except ε α))
  | [] => pure []
  | o :: os => do
    match ← attempt (step o) with
    | .ok a => do
      let rs ← runOn fatal step os
      pure (.ok a :: rs)
    | .error e =>
      if fatal e then
        throw e
      else do
        let rs ← runOn fatal step os
        pure (.error e :: rs)

/-- An invariant kept by every call that returns, and turned into `E` by every
call that throws, holds after a run of calls. It may speak of a summary `g` of
the calls made so far, which `next` extends. -/
theorem wp_runAll {step : ω → EStateM ε σ α} {ok : ω → Prop} (I : γ → σ → Prop)
    (next : γ → ω → γ) {E : ε → σ → Prop}
    (hstep : ∀ g o s, ok o → I g s → wp (step o) (fun _ t => I (next g o) t) E s)
    {os : List ω} (hos : ∀ o ∈ os, ok o) {g : γ} {s : σ} (hI : I g s) :
    wp (runAll step os) (fun _ t => I (os.foldl next g) t) E s := by
  induction os generalizing g s with
  | nil => exact hI
  | cons o os ih =>
    simp only [runAll, wp_bind, wp_pure, List.foldl_cons]
    refine wp_mono (hstep g o s (hos o (by simp)) hI) ?_ (fun _ _ h => h)
    intro a t ht
    exact ih (fun o ho => hos o (by simp [ho])) ht

/-- Every call of a run has one result, related to it by `R`, under an invariant. -/
theorem wp_runAll_results {step : ω → EStateM ε σ α} {ok : ω → Prop} (I : σ → Prop)
    (R : ω → α → Prop) {E : ε → σ → Prop}
    (hstep : ∀ o s, ok o → I s → wp (step o) (fun a t => R o a ∧ I t) E s)
    {os : List ω} (hos : ∀ o ∈ os, ok o) {s : σ} (hI : I s) :
    wp (runAll step os)
      (fun as t => as.length = os.length ∧ (∀ a ∈ as, ∃ o ∈ os, R o a) ∧ I t) E s := by
  induction os generalizing s with
  | nil => exact ⟨rfl, by simp, hI⟩
  | cons o os ih =>
    simp only [runAll, wp_bind, wp_pure]
    refine wp_mono (hstep o s (hos o (by simp)) hI) ?_ (fun _ _ h => h)
    rintro a t ⟨ha, ht⟩
    refine wp_mono (ih (fun o ho => hos o (by simp [ho])) ht) ?_ (fun _ _ h => h)
    rintro as u ⟨hlen, has, hu⟩
    refine ⟨by simp [hlen], ?_, hu⟩
    intro x hx
    rcases List.mem_cons.mp hx with rfl | hx
    · exact ⟨o, by simp, ha⟩
    · obtain ⟨o', ho', hx⟩ := has x hx
      exact ⟨o', by simp [ho'], hx⟩

/-- An invariant kept by every call, whether it returns or throws, holds after a
run that goes on over exceptions, and `R` of every outcome. -/
theorem wp_runOn {fatal : ε → Prop} [DecidablePred fatal] {step : ω → EStateM ε σ α}
    {ok : ω → Prop} (I : σ → Prop) (R : Except ε α → Prop) {E : ε → σ → Prop}
    (hstep : ∀ o s, ok o → I s → wp (step o) (fun a t => R (.ok a) ∧ I t)
      (fun e t => if fatal e then E e t else R (.error e) ∧ I t) s)
    {os : List ω} (hos : ∀ o ∈ os, ok o) {s : σ} (hI : I s) :
    wp (runOn fatal step os) (fun rs t => (∀ r ∈ rs, R r) ∧ I t) E s := by
  induction os generalizing s with
  | nil => exact ⟨by simp, hI⟩
  | cons o os ih =>
    have hrest : ∀ (r : Except ε α) (t : σ), R r → I t →
        wp (runOn fatal step os) (fun rs t => (∀ r' ∈ r :: rs, R r') ∧ I t) E t := by
      intro r t hr ht
      refine wp_mono (ih (fun o ho => hos o (by simp [ho])) ht) ?_ (fun _ _ h => h)
      rintro rs u ⟨hrs, hu⟩
      refine ⟨?_, hu⟩
      intro r' hr'
      rcases List.mem_cons.mp hr' with rfl | hr'
      · exact hr
      · exact hrs r' hr'
    simp only [runOn, wp_bind, wp_attempt, wp_ite, wp_throw, wp_pure]
    refine wp_mono (hstep o s (hos o (by simp)) hI) ?_ ?_
    · intro a t h
      exact hrest _ t h.1 h.2
    · intro e t h
      split
      · rename_i hf
        rwa [if_pos hf] at h
      · rename_i hf
        rw [if_neg hf] at h
        exact hrest _ t h.1 h.2

/-- Calls none of which ends the run: each result is as its call promises. -/
theorem wp_runOn_forall₂ {fatal : ε → Prop} [DecidablePred fatal] {step : ω → EStateM ε σ α}
    (I : σ → Prop) (R : ω → Except ε α → Prop)
    (hstep : ∀ o s, I s → wp (step o) (fun a t => R o (.ok a) ∧ I t)
      (fun e t => ¬ fatal e ∧ R o (.error e) ∧ I t) s) (os : List ω) {s : σ} (hI : I s) :
    wp (runOn fatal step os) (fun rs t => List.Forall₂ R os rs ∧ I t) (fun _ _ => False) s := by
  induction os generalizing s with
  | nil => exact ⟨List.Forall₂.nil, hI⟩
  | cons o os ih =>
    simp only [runOn, wp_bind, wp_attempt, wp_ite, wp_throw, wp_pure]
    refine wp_mono (hstep o s hI) ?_ ?_
    · rintro a t ⟨hr, ht⟩
      exact wp_mono (ih ht) (fun _ _ hrs => ⟨.cons hr hrs.1, hrs.2⟩) (fun _ _ h => h)
    · rintro e t ⟨hfatal, hr, ht⟩
      rw [if_neg hfatal]
      exact wp_mono (ih ht) (fun _ _ hrs => ⟨.cons hr hrs.1, hrs.2⟩) (fun _ _ h => h)

/-- In the run of `os` from `s` each call, with the state it finds, is as `ok`
asks. -/
def Meets (fatal : ε → Prop) (step : ω → EStateM ε σ α) (ok : ω → σ → Prop) : List ω → σ → Prop
  | [], _ => True
  | o :: os, s => ok o s ∧ wp (step o) (fun _ t => Meets fatal step ok os t)
      (fun e t => ¬ fatal e → Meets fatal step ok os t) s

/-- An invariant that calls keep as long as they are as `ok` asks. -/
theorem wp_runOn_meets {fatal : ε → Prop} [DecidablePred fatal] {step : ω → EStateM ε σ α}
    {ok : ω → σ → Prop} {I : σ → Prop}
    (hstep : ∀ o s, ok o s → I s → wp (step o) (fun _ => I) (fun _ => I) s)
    {os : List ω} {s : σ} (hos : Meets fatal step ok os s) (hI : I s) :
    wp (runOn fatal step os) (fun _ => I) (fun _ => I) s := by
  induction os generalizing s with
  | nil => exact hI
  | cons o os ih =>
    obtain ⟨ho, hrest⟩ := hos
    simp only [runOn, wp_bind, wp_attempt, wp_ite, wp_throw, wp_pure]
    refine wp_mono (wp_and hrest (hstep o s ho hI)) ?_ ?_
    · rintro a t ⟨hmeets, ht⟩
      exact ih hmeets ht
    · rintro e t ⟨hmeets, ht⟩
      split
      · exact ht
      · rename_i hf
        exact ih (hmeets hf) ht

/-! ## Invariants

What no step of a computation breaks, however the computation ends. -/

/-- `m` keeps `I` where it returns, and leaves `J` behind where it throws. -/
def Upholds (I J : σ → Prop) (m : EStateM ε σ α) : Prop :=
  ∀ s, I s → wp m (fun _ => I) (fun _ => J) s

/-- `m` keeps `I`, whether it returns or throws. -/
def Keeps (I : σ → Prop) (m : EStateM ε σ α) : Prop :=
  ∀ s, I s → wp m (fun _ => I) (fun _ => I) s

section Invariants
variable {I J : σ → Prop}

theorem wp_true (m : EStateM ε σ α) (s : σ) : wp m (fun _ _ => True) (fun _ _ => True) s := by
  unfold wp
  cases m.run s <;> trivial

namespace Upholds

theorem pure (a : α) : Upholds I J (Pure.pure a : EStateM ε σ α) := fun _ h => h

theorem throw (hJ : ∀ s, I s → J s) (e : ε) : Upholds I J (throw e : EStateM ε σ α) := hJ

theorem get : Upholds I J (MonadState.get : EStateM ε σ σ) := fun _ h => h

theorem update {f : σ → σ} (h : ∀ s, I s → I (f s)) :
    Upholds I J (modify f : EStateM ε σ PUnit) := fun s hs => h s hs

theorem fromExcept (hJ : ∀ s, I s → J s) (x : Except ε α) :
    Upholds I J (Exec.fromExcept x : EStateM ε σ α) := by
  cases x
  · exact throw hJ _
  · exact pure _

theorem mono {J' : σ → Prop} {m : EStateM ε σ α} (h : Upholds I J m) (hJ : ∀ s, J s → J' s) :
    Upholds I J' m := fun s hs => wp_mono (h s hs) (fun _ _ ht => ht) (fun _ t ht => hJ t ht)

theorem bind {m : EStateM ε σ β} {f : β → EStateM ε σ α} (hm : Upholds I J m)
    (hf : ∀ b, Upholds I J (f b)) : Upholds I J (m >>= f) := by
  intro s hs
  rw [wp_bind]
  exact wp_mono (hm s hs) (fun b t ht => hf b t ht) (fun _ _ h => h)

/-- After `get` the state is the one that was read. -/
theorem bind_get {f : σ → EStateM ε σ α}
    (hf : ∀ s, I s → wp (f s) (fun _ => I) (fun _ => J) s) :
    Upholds I J ((MonadState.get : EStateM ε σ σ) >>= f) := by
  intro s hs
  rw [wp_bind]
  exact hf s hs

theorem map {f : β → α} {m : EStateM ε σ β} (hm : Upholds I J m) : Upholds I J (f <$> m) := by
  intro s hs
  rw [wp_map]
  exact hm s hs

theorem ite {c : Prop} [Decidable c] {m n : EStateM ε σ α} (hm : Upholds I J m)
    (hn : Upholds I J n) : Upholds I J (if c then m else n) := by
  split
  · exact hm
  · exact hn

theorem when {c : Prop} [Decidable c] {m : EStateM ε σ Unit} (hm : Upholds I J m) :
    Upholds I J (Exec.when c m) := ite hm (pure ())

/-- A computation on a component that `I` does not speak of. -/
theorem zoom (hJ : ∀ s, I s → J s) {get : σ → τ} {put : τ → σ → σ} (m : EStateM ε τ α)
    (h : ∀ s t, I s → I (put t s)) : Upholds I J (Exec.zoom get put m) := by
  intro s hs
  rw [wp_zoom]
  exact wp_mono (wp_true m _) (fun _ t _ => h s t hs) (fun _ t _ => hJ _ (h s t hs))

theorem loop (hJ : ∀ s, I s → J s) {limit : ε} {body : β → EStateM ε σ (β ⊕ γ)}
    (h : ∀ b, Upholds I J (body b)) (n : Nat) (b : β) :
    Upholds I J (Exec.loop limit body n b) := by
  induction n generalizing b with
  | zero => exact throw hJ limit
  | succ n ih =>
    refine bind (h b) ?_
    intro r
    cases r with
    | inl b' => exact ih b'
    | inr c => exact pure c

end Upholds

namespace Keeps

theorem pure (a : α) : Keeps I (Pure.pure a : EStateM ε σ α) := Upholds.pure a

theorem throw (e : ε) : Keeps I (throw e : EStateM ε σ α) := Upholds.throw (fun _ h => h) e

theorem get : Keeps I (MonadState.get : EStateM ε σ σ) := Upholds.get

theorem update {f : σ → σ} (h : ∀ s, I s → I (f s)) :
    Keeps I (modify f : EStateM ε σ PUnit) := Upholds.update h

theorem fromExcept (x : Except ε α) : Keeps I (Exec.fromExcept x : EStateM ε σ α) :=
  Upholds.fromExcept (fun _ h => h) x

theorem bind {m : EStateM ε σ β} {f : β → EStateM ε σ α} (hm : Keeps I m)
    (hf : ∀ b, Keeps I (f b)) : Keeps I (m >>= f) := Upholds.bind hm hf

theorem bind_get {f : σ → EStateM ε σ α} (hf : ∀ s, I s → wp (f s) (fun _ => I) (fun _ => I) s) :
    Keeps I ((MonadState.get : EStateM ε σ σ) >>= f) := Upholds.bind_get hf

theorem map {f : β → α} {m : EStateM ε σ β} (hm : Keeps I m) : Keeps I (f <$> m) := Upholds.map hm

theorem ite {c : Prop} [Decidable c] {m n : EStateM ε σ α} (hm : Keeps I m)
    (hn : Keeps I n) : Keeps I (if c then m else n) := Upholds.ite hm hn

theorem when {c : Prop} [Decidable c] {m : EStateM ε σ Unit} (hm : Keeps I m) :
    Keeps I (Exec.when c m) := Upholds.when hm

theorem zoom {get : σ → τ} {put : τ → σ → σ} (m : EStateM ε τ α)
    (h : ∀ s t, I s → I (put t s)) : Keeps I (Exec.zoom get put m) :=
  Upholds.zoom (fun _ h => h) m h

theorem loop {limit : ε} {body : β → EStateM ε σ (β ⊕ γ)} (h : ∀ b, Keeps I (body b))
    (n : Nat) (b : β) : Keeps I (Exec.loop limit body n b) := Upholds.loop (fun _ h => h) h n b

theorem and {m : EStateM ε σ α} (hI : Keeps I m) (hJ : Keeps J m) :
    Keeps (fun s => I s ∧ J s) m := fun s hs => wp_and (hI s hs.1) (hJ s hs.2)

theorem ensuring {m : EStateM ε σ α} {done : EStateM ε σ Unit} (hm : Keeps I m)
    (hdone : Keeps I done) : Keeps I (Exec.ensuring m done) := by
  intro s hs
  rw [wp_ensuring]
  exact wp_mono (hm s hs) (fun _ t ht => hdone t ht) (fun _ t ht => hdone t ht)

end Keeps

/-- An invariant of every call is an invariant of every run of calls. -/
theorem Keeps.runOn {fatal : ε → Prop} [DecidablePred fatal] {step : ω → EStateM ε σ α}
    (h : ∀ o, Keeps I (step o)) (os : List ω) : Keeps I (Exec.runOn fatal step os) := by
  intro s hs
  refine wp_mono (@wp_runOn _ _ _ _ fatal _ step (fun _ => True) I (fun _ => True) (fun _ => I)
    ?_ os (fun _ _ => trivial) s hs) (fun _ _ h => h.2) (fun _ _ h => h)
  intro o s _ hs
  refine wp_mono (h o s hs) (fun _ _ h => ⟨trivial, h⟩) ?_
  intro e t ht
  split
  · exact ht
  · exact ⟨trivial, ht⟩

/-- What the last call of a run makes of the invariant. -/
theorem wp_runOn_last {fatal : ε → Prop} [DecidablePred fatal] {step : ω → EStateM ε σ α}
    (h : ∀ o, Keeps I (step o)) {last : ω}
    (hlast : ∀ s, I s → wp (step last) (fun _ => J) (fun e t => ¬ fatal e → J t) s)
    {os : List ω} {s : σ} (hI : I s) :
    wp (Exec.runOn fatal step (os ++ [last])) (fun _ => J) (fun e _ => fatal e) s := by
  induction os generalizing s with
  | nil =>
    simp only [List.nil_append, Exec.runOn, wp_bind, wp_attempt, wp_ite, wp_throw, wp_pure]
    refine wp_mono (hlast s hI) (fun _ _ ht => ht) (fun e t ht => ?_)
    split
    · assumption
    · rename_i hfatal
      exact ht hfatal
  | cons o os ih =>
    simp only [List.cons_append, Exec.runOn, wp_bind, wp_attempt, wp_ite, wp_throw, wp_pure]
    refine wp_mono (h o s hI) (fun _ _ ht => ih ht) (fun e t ht => ?_)
    split
    · assumption
    · exact ih ht

end Invariants

end Exec
