import Mathlib

/-! Objects lent by a pool. Every lease has a number of its own, and a log
tells what is done with it. The discipline of a borrower is that nothing is
done with an object once it has been given back. -/

namespace Leases

inductive Event
  | acquire (id : Nat)
  | use (id : Nat)
  | release (id : Nat)
  deriving DecidableEq, Repr

/-- After a lease is released it is neither used nor released again. -/
def Disciplined (log : List Event) : Prop :=
  ∀ id before after, log = before ++ Event.release id :: after →
    Event.use id ∉ after ∧ Event.release id ∉ after

theorem Disciplined.nil : Disciplined [] := by
  intro id before after h
  simp at h

/-- One more event, on a lease that has not been released. -/
theorem Disciplined.snoc {log : List Event} (h : Disciplined log) {e : Event}
    (he : ∀ id, e = .use id ∨ e = .release id → Event.release id ∉ log) :
    Disciplined (log ++ [e]) := by
  intro id before after heq
  rcases List.eq_nil_or_concat after with rfl | ⟨as, a, rfl⟩
  · simp
  · rw [List.concat_eq_append, ← List.cons_append, ← List.append_assoc] at heq
    obtain ⟨hlog, ha⟩ := List.append_inj' heq rfl
    obtain rfl : e = a := by simpa using ha
    obtain ⟨hu, hr⟩ := h id before as hlog
    have hmem : Event.release id ∈ log := by rw [hlog]; simp
    rw [List.concat_eq_append]
    constructor
    · intro hin
      rcases List.mem_append.mp hin with hin | hin
      · exact hu hin
      · exact he id (.inl (List.mem_singleton.mp hin).symm) hmem
    · intro hin
      rcases List.mem_append.mp hin with hin | hin
      · exact hr hin
      · exact he id (.inr (List.mem_singleton.mp hin).symm) hmem

/-! ## A borrower in good standing -/

/-- `held` are leases not given back yet, numbered below `next`, and all that
was ever done is in order. -/
structure Holding (log : List Event) (held : List Nat) (next : Nat) : Prop where
  disciplined : Disciplined log
  nodup : held.Nodup
  held_lt : ∀ id ∈ held, id < next
  not_released : ∀ id ∈ held, Event.release id ∉ log
  released_lt : ∀ id, Event.release id ∈ log → id < next

namespace Holding

variable {log : List Event} {held : List Nat} {next : Nat}

theorem nil : Holding [] [] 0 :=
  ⟨Disciplined.nil, by simp, by simp, by simp, by simp⟩

theorem acquire (h : Holding log held next) :
    Holding (log ++ [.acquire next]) (next :: held) (next + 1) := by
  refine ⟨h.disciplined.snoc (by simp), ?_, ?_, ?_, ?_⟩
  · exact List.nodup_cons.mpr ⟨fun hm => Nat.lt_irrefl _ (h.held_lt _ hm), h.nodup⟩
  · intro id hid
    rcases List.mem_cons.mp hid with rfl | hid
    · omega
    · have := h.held_lt id hid
      omega
  · intro id hid hrel
    have hrel' : Event.release id ∈ log := by simpa using hrel
    rcases List.mem_cons.mp hid with rfl | hid
    · exact Nat.lt_irrefl _ (h.released_lt _ hrel')
    · exact h.not_released id hid hrel'
  · intro id hrel
    have := h.released_lt id (by simpa using hrel)
    omega

/-- An allocation that failed has used up its number. -/
theorem skip (h : Holding log held next) : Holding log held (next + 1) :=
  ⟨h.disciplined, h.nodup, fun id hid => Nat.lt_succ_of_lt (h.held_lt id hid), h.not_released,
    fun id hid => Nat.lt_succ_of_lt (h.released_lt id hid)⟩

theorem use (h : Holding log held next) {id : Nat} (hid : id ∈ held) :
    Holding (log ++ [.use id]) held next := by
  refine ⟨h.disciplined.snoc ?_, h.nodup, h.held_lt, ?_, ?_⟩
  · rintro j (hj | hj)
    · cases hj
      exact h.not_released id hid
    · cases hj
  · intro j hj hrel
    exact h.not_released j hj (by simpa using hrel)
  · intro j hrel
    exact h.released_lt j (by simpa using hrel)

theorem release (h : Holding log held next) {id : Nat} (hid : id ∈ held) :
    Holding (log ++ [.release id]) (held.erase id) next := by
  refine ⟨h.disciplined.snoc ?_, h.nodup.erase _, ?_, ?_, ?_⟩
  · rintro j (hj | hj)
    · cases hj
    · cases hj
      exact h.not_released id hid
  · exact fun j hj => h.held_lt j (List.mem_of_mem_erase hj)
  · intro j hj hrel
    rcases List.mem_append.mp hrel with hrel | hrel
    · exact h.not_released j (List.mem_of_mem_erase hj) hrel
    · have heq : j = id := by simpa using hrel
      subst heq
      exact (h.nodup.not_mem_erase) hj
  · intro j hrel
    rcases List.mem_append.mp hrel with hrel | hrel
    · exact h.released_lt j hrel
    · have heq : j = id := by simpa using hrel
      subst heq
      exact h.held_lt j hid

/-- Forgetting a lease, or listing them in another order, does no harm. -/
theorem subset (h : Holding log held next) {held' : List Nat} (hnodup : held'.Nodup)
    (hsub : ∀ id ∈ held', id ∈ held) : Holding log held' next :=
  ⟨h.disciplined, hnodup, fun id hid => h.held_lt id (hsub id hid),
    fun id hid => h.not_released id (hsub id hid), h.released_lt⟩

end Holding

/-! ## A borrower that loses nothing -/

/-- Whatever was acquired is among `kept`, or has been given back. -/
def Accounts (log : List Event) (kept : List Nat) : Prop :=
  ∀ id, Event.acquire id ∈ log → id ∈ kept ∨ Event.release id ∈ log

namespace Accounts

variable {log : List Event} {kept : List Nat}

theorem nil : Accounts [] [] := fun _ h => absurd h List.not_mem_nil

theorem mono (h : Accounts log kept) {kept' : List Nat} (hsub : ∀ id ∈ kept, id ∈ kept') :
    Accounts log kept' := fun id hid => (h id hid).imp_left (hsub id)

theorem acquire (h : Accounts log kept) (id : Nat) :
    Accounts (log ++ [.acquire id]) (id :: kept) := by
  intro j hj
  rcases List.mem_append.mp hj with hj | hj
  · exact (h j hj).imp (List.mem_cons_of_mem _) (List.mem_append_left _)
  · obtain rfl : j = id := by simpa using hj
    exact .inl List.mem_cons_self

theorem use (h : Accounts log kept) (id : Nat) : Accounts (log ++ [.use id]) kept := by
  intro j hj
  exact (h j (by simpa using hj)).imp_right (List.mem_append_left _)

theorem release {id : Nat} (h : Accounts log (id :: kept)) :
    Accounts (log ++ [.release id]) kept := by
  intro j hj
  rcases h j (by simpa using hj) with hin | hin
  · rcases List.mem_cons.mp hin with rfl | hin
    · exact .inr (by simp)
    · exact .inl hin
  · exact .inr (List.mem_append_left _ hin)

theorem releaseAll {ids : List Nat} (h : Accounts log (ids ++ kept)) :
    Accounts (log ++ ids.map .release) kept := by
  induction ids generalizing log with
  | nil => simpa using h
  | cons id ids ih =>
    rw [List.map_cons, List.append_cons]
    exact ih (Accounts.release h)

end Accounts

end Leases
