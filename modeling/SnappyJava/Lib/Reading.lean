import SnappyJava.Lib.Exec

/-! What it means to read a sequence of elements call by call: every call hands
out the next elements, and reports the end exactly when none are left. -/

namespace Reading

variable {α : Type}

/-- What one call did: whether it had room for an element, what it handed out,
whether it reported the end, and how many elements it announced. -/
structure Answer (α : Type) where
  demands : Bool
  given : List α
  ended : Bool
  announced : Int
  deriving DecidableEq, Repr

/-- A call that finds `data` may answer `a`. -/
structure Serves (data : List α) (a : Answer α) : Prop where
  given_prefix : a.given <+: data
  ended_iff : a.ended = true ↔ a.demands = true ∧ data = []
  progress : a.demands = true → data ≠ [] → a.given ≠ []
  announced_nonneg : 0 ≤ a.announced
  announced_le : a.announced ≤ data.length

/-- The answers of successive calls that find `data`. -/
def Drains : List α → List (Answer α) → Prop
  | _, [] => True
  | data, a :: as => Serves data a ∧ Drains (data.drop a.given.length) as

/-- All elements the answers hand out. -/
def given (as : List (Answer α)) : List α := as.flatMap Answer.given

@[simp] theorem given_nil : given ([] : List (Answer α)) = [] := rfl

@[simp] theorem given_cons (a : Answer α) (as : List (Answer α)) :
    given (a :: as) = a.given ++ given as := rfl

theorem Serves.append_drop {data : List α} {a : Answer α} (h : Serves data a) :
    a.given ++ data.drop a.given.length = data := by
  obtain ⟨rest, rfl⟩ := h.given_prefix
  rw [List.drop_left]

/-- Nothing is handed out of turn. -/
theorem Drains.given_prefix {data : List α} {as : List (Answer α)} (h : Drains data as) :
    given as <+: data := by
  induction as generalizing data with
  | nil => exact List.nil_prefix
  | cons a as ih =>
    obtain ⟨ha, has⟩ := h
    rw [given_cons]
    have := (List.prefix_append_right_inj a.given).mpr (ih has)
    rwa [ha.append_drop] at this

/-- Once the end has been reported, everything has been handed out. -/
theorem Drains.given_eq_of_ended {data : List α} {as : List (Answer α)} (h : Drains data as)
    (hend : ∃ a ∈ as, a.ended = true) : given as = data := by
  induction as generalizing data with
  | nil =>
    obtain ⟨a, ha, -⟩ := hend
    cases ha
  | cons a as ih =>
    obtain ⟨ha, has⟩ := h
    obtain ⟨x, hx, hxe⟩ := hend
    rw [given_cons]
    rcases List.mem_cons.mp hx with rfl | hx
    · obtain ⟨-, rfl⟩ := ha.ended_iff.mp hxe
      exact List.prefix_nil.mp (@Drains.given_prefix _ [] (x :: as) ⟨ha, has⟩)
    · rw [ih has ⟨x, hx, hxe⟩, ha.append_drop]

/-- Enough calls with room reach the end. -/
theorem Drains.ended_of_length {data : List α} {as : List (Answer α)} (h : Drains data as)
    (hd : ∀ a ∈ as, a.demands = true) (hl : data.length < as.length) :
    ∃ a ∈ as, a.ended = true := by
  induction as generalizing data with
  | nil => simp at hl
  | cons a as ih =>
    obtain ⟨ha, has⟩ := h
    have hda := hd a (by simp)
    by_cases hdata : data = []
    · exact ⟨a, by simp, ha.ended_iff.mpr ⟨hda, hdata⟩⟩
    · have hg : 0 < a.given.length := List.length_pos_iff.mpr (ha.progress hda hdata)
      have hpos : 0 < data.length := List.length_pos_iff.mpr hdata
      obtain ⟨x, hx, hxe⟩ := ih has (fun y hy => hd y (by simp [hy]))
        (by simp at hl ⊢; omega)
      exact ⟨x, by simp [hx], hxe⟩

/-! ## Readers -/

open Exec in
/-- If each call of a reader that holds `data` serves it and then holds the
rest, a run of calls drains it. -/
theorem wp_runAll_drains {ε σ ω : Type} {step : ω → EStateM ε σ (Answer α)} {ok : ω → Prop}
    (Holds : List α → σ → Prop) {E : ε → σ → Prop}
    (hstep : ∀ o data s, ok o → Holds data s →
      wp (step o) (fun a t => Serves data a ∧ Holds (data.drop a.given.length) t) E s)
    {os : List ω} (hos : ∀ o ∈ os, ok o) {data : List α} {s : σ} (hs : Holds data s) :
    wp (runAll step os)
      (fun as t => Drains data as ∧ Holds (data.drop (given as).length) t) E s := by
  induction os generalizing data s with
  | nil => exact ⟨trivial, by simpa using hs⟩
  | cons o os ih =>
    simp only [runAll, wp_bind, wp_pure]
    refine wp_mono (hstep o data s (hos o (by simp)) hs) ?_ (fun _ _ h => h)
    rintro a t ⟨ha, ht⟩
    refine wp_mono (ih (fun o ho => hos o (by simp [ho])) ht) ?_ (fun _ _ h => h)
    rintro as u ⟨has, hu⟩
    refine ⟨⟨ha, has⟩, ?_⟩
    rwa [List.drop_drop, ← List.length_append, ← given_cons] at hu

/-! ## Schedules -/

/-- How reading comes to an end: a call reports it, or throws. -/
inductive Stop (ε : Type)
  | ended
  | failed (e : ε)
  deriving DecidableEq, Repr

section
open Exec

variable {ε σ ω : Type}

/-- What the calls hand out before the first that throws or reports the end, and
which of the two it has come to, if it has. -/
def tell (step : ω → EStateM ε σ (Answer α)) : List ω → σ → List α × Option (Stop ε)
  | [], _ => ([], none)
  | o :: os, s =>
    match (step o).run s with
    | .error e _ => ([], some (.failed e))
    | .ok a t =>
      if a.ended then ([], some .ended)
      else (a.given ++ (tell step os t).1, (tell step os t).2)

section
variable {step : ω → EStateM ε σ (Answer α)} {o : ω} {os : List ω} {s t : σ}

@[simp] theorem tell_nil : tell step [] s = ([], none) := rfl

theorem tell_of_error {e : ε} (h : (step o).run s = .error e t) :
    tell step (o :: os) s = ([], some (.failed e)) := by
  rw [tell, h]

theorem tell_of_ended {a : Answer α} (h : (step o).run s = .ok a t) (hended : a.ended = true) :
    tell step (o :: os) s = ([], some .ended) := by
  rw [tell, h]
  exact if_pos hended

theorem tell_of_ok {a : Answer α} (h : (step o).run s = .ok a t) (hended : a.ended = false) :
    tell step (o :: os) s = (a.given ++ (tell step os t).1, (tell step os t).2) := by
  rw [tell, h]
  exact if_neg (by simp [hended])

end

/-- No calls of the kind `ok` tell anything but `data` from its front; by the time
they come to an end, one of `ends`, they have told all of it, and more calls than
elements come to one. -/
def Tells (step : ω → EStateM ε σ (Answer α)) (ok : ω → Prop) (ends : Stop ε → Prop)
    (data : List α) (s : σ) : Prop :=
  ∀ os : List ω, (∀ o ∈ os, ok o) →
    (tell step os s).1 <+: data ∧
    (∀ stop, (tell step os s).2 = some stop → (tell step os s).1 = data ∧ ends stop) ∧
    (data.length < os.length → (tell step os s).2 ≠ none)

variable {step : ω → EStateM ε σ (Answer α)} {ok : ω → Prop} {ends : Stop ε → Prop}
  {data : List α} {s : σ}

/-- If each call of a reader that holds `data` hands out some of it, and throws or
reports the end only where none is left, then the calls tell `data`. -/
theorem tells_of_holds (Holds : List α → σ → Prop)
    (hstep : ∀ o data s, ok o → Holds data s →
      wp (step o)
        (fun a t => if a.ended then data = [] ∧ ends .ended
          else a.given ≠ [] ∧ a.given <+: data ∧ Holds (data.drop a.given.length) t)
        (fun e _ => data = [] ∧ ends (.failed e)) s)
    (hs : Holds data s) : Tells step ok ends data s := by
  intro os hos
  induction os generalizing data s with
  | nil => exact ⟨List.nil_prefix, by simp, by simp⟩
  | cons o os ih =>
    have hcall := hstep o data s (hos o (by simp)) hs
    cases hrun : (step o).run s with
    | error e t =>
      obtain ⟨rfl, hends⟩ := wp_error hcall hrun
      simp [tell_of_error hrun, hends]
    | ok a t =>
      have hanswer := wp_ok hcall hrun
      by_cases hended : a.ended = true
      · rw [if_pos hended] at hanswer
        obtain ⟨rfl, hends⟩ := hanswer
        simp [tell_of_ended hrun hended, hends]
      · rw [if_neg hended] at hanswer
        obtain ⟨hne, ⟨rest, rfl⟩, ht⟩ := hanswer
        rw [List.drop_left] at ht
        obtain ⟨hfront, hall, henough⟩ := ih ht (fun o ho => hos o (by simp [ho]))
        have hpos := List.length_pos_iff.mpr hne
        rw [tell_of_ok hrun (by simpa using hended)]
        refine ⟨(List.prefix_append_right_inj _).mpr hfront, fun stop h => ?_, fun h => ?_⟩
        · rw [(hall stop h).1]
          exact ⟨rfl, (hall stop h).2⟩
        · refine henough ?_
          rw [List.length_append, List.length_cons] at h
          omega

theorem Tells.mono {ok' : ω → Prop} (h : Tells step ok ends data s) (hok : ∀ o, ok' o → ok o) :
    Tells step ok' ends data s :=
  fun os hos => h os fun o ho => hok o (hos o ho)

/-- Enough calls tell all the elements and one of the ends. -/
theorem Tells.exists_stop (h : Tells step ok ends data s) {o : ω} (ho : ok o) {n : Nat}
    (hn : data.length < n) :
    ∃ stop, ends stop ∧ tell step (List.replicate n o) s = (data, some stop) := by
  obtain ⟨-, hall, henough⟩ := h (List.replicate n o) (by simp [ho])
  obtain ⟨stop, hstop⟩ := Option.ne_none_iff_exists'.mp (henough (by simpa using hn))
  exact ⟨stop, (hall stop hstop).2, Prod.ext (hall stop hstop).1 hstop⟩

/-- A reader tells one thing only. -/
theorem Tells.unique {ends' : Stop ε → Prop} {data' : List α} (h : Tells step ok ends data s)
    (h' : Tells step ok ends' data' s) {o : ω} (ho : ok o) :
    data = data' ∧ ∃ stop, ends stop ∧ ends' stop := by
  obtain ⟨stop, hs, heq⟩ := h.exists_stop ho (show data.length < data.length + data'.length + 1 by omega)
  obtain ⟨stop', hs', heq'⟩ := h'.exists_stop ho
    (show data'.length < data.length + data'.length + 1 by omega)
  rw [heq, Prod.mk.injEq, Option.some.injEq] at heq'
  obtain ⟨rfl, rfl⟩ := heq'
  exact ⟨rfl, stop, hs, hs'⟩

end

end Reading
