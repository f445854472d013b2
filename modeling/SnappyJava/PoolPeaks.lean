import SnappyJava.CachingBufferPool
import SnappyJava.CachedBufferAllocator

/-! What the two caches keep: never more than was once in use at the same time. -/

namespace SnappyJava.CachedBufferAllocator

open Ownership Steps

/-- How many arrays of the allocator `a` a stream has. -/
def Phase.taken (a : Allocator) : Phase → Nat
  | .allocateOutput _ ia _ _ => if ia = a then 1 else 0
  | .opened _ ia oa _ _ => (if ia = a then 1 else 0) + if oa = a then 1 else 0
  | .releaseInput ia oa _ _ => (if ia = a then 1 else 0) + if oa = a then 1 else 0
  | .releaseOutput oa _ => if oa = a then 1 else 0
  | _ => 0

theorem getAllocator_queue {ι : Type} (s : State ι) (a : Allocator) (k : Nat) :
    (getAllocator s k).2.streams = s.streams ∧
      ((getAllocator s k).2.bufferQueue a).length ≤ (s.bufferQueue a).length := by
  unfold getAllocator
  split
  · exact ⟨rfl, Nat.le_refl _⟩
  · refine ⟨rfl, ?_⟩
    simp only [Function.update_apply]
    split
    · exact Nat.zero_le _
    · exact Nat.le_refl _

section
variable {ι : Type} [Fintype ι]

/-- How many arrays of the allocator `a` the streams have. -/
def State.inUse (a : Allocator) (s : State ι) : Nat := ∑ i, (s.streams i).taken a

/-- How many of its arrays there are, the free ones included. -/
def State.total (a : Allocator) (s : State ι) : Nat := (s.bufferQueue a).length + s.inUse a

variable [DecidableEq ι] {s t : State ι} {i : ι} {a a' : Allocator}

theorem inUse_goto (p : Phase) :
    (s.goto i p).inUse a + (s.streams i).taken a = s.inUse a + p.taken a :=
  sum_update_change (Phase.taken a) s.streams i p

/-- A stream goes on with no more than it had. -/
theorem total_goto (h : t.streams = s.streams)
    (hqueue : (t.bufferQueue a).length ≤ (s.bufferQueue a).length) {p : Phase}
    (hp : p.taken a ≤ (s.streams i).taken a) : (t.goto i p).total a ≤ s.total a := by
  have hsum := @inUse_goto _ _ _ t i a p
  have hsame : t.inUse a = s.inUse a := by rw [State.inUse, h, State.inUse]
  rw [h] at hsum
  have hgoto : ((t.goto i p).bufferQueue a).length = (t.bufferQueue a).length := rfl
  rw [State.total, State.total, hgoto]
  omega

/-- A new array only if none is free. -/
theorem total_allocate {size : Nat} {p : Buffer → Phase}
    (hp : ∀ b, (p b).taken a = (s.streams i).taken a + if a' = a then 1 else 0) :
    ((allocate s a' size).2.goto i (p (allocate s a' size).1)).total a ≤ s.total a ∨
      ((allocate s a' size).2.goto i (p (allocate s a' size).1)).total a ≤
        ((allocate s a' size).2.goto i (p (allocate s a' size).1)).inUse a := by
  set t := (allocate s a' size).2 with ht
  set b := (allocate s a' size).1
  have hstreams : t.streams = s.streams := by
    rw [ht, allocate]
    split <;> rfl
  have hsum := @inUse_goto _ _ _ t i a (p b)
  have hsame : t.inUse a = s.inUse a := by rw [State.inUse, hstreams, State.inUse]
  rw [hstreams, hsame, hp b] at hsum
  have hgoto : ((t.goto i (p b)).bufferQueue a).length = (t.bufferQueue a).length := rfl
  by_cases haa : a' = a
  · subst haa
    rw [if_pos rfl] at hsum
    cases hq : s.bufferQueue a' with
    | nil =>
      have hempty : t.bufferQueue a' = [] := by
        rw [ht, allocate, hq]
        exact hq
      rw [hempty] at hgoto
      right
      rw [State.total, hgoto, List.length_nil, Nat.zero_add]
    | cons x rest =>
      have hrest : t.bufferQueue a' = rest := by
        rw [ht, allocate, hq]
        exact Function.update_self ..
      rw [hrest] at hgoto
      left
      rw [State.total, State.total, hgoto, hq, List.length_cons]
      omega
  · have hkept : t.bufferQueue a = s.bufferQueue a := by
      rw [ht, allocate]
      split
      · rfl
      · exact Function.update_of_ne (fun heq => haa heq.symm) _ _
    rw [if_neg haa] at hsum
    left
    rw [State.total, State.total, hgoto, hkept]
    omega

/-- An array given back changes its place only. -/
theorem total_release {b : Buffer} {p : Phase}
    (hp : (s.streams i).taken a = p.taken a + if a' = a then 1 else 0) :
    ((release s a' b).goto i p).total a ≤ s.total a := by
  have hsum := @inUse_goto _ _ _ (release s a' b) i a p
  have hsame : (release s a' b).inUse a = s.inUse a := rfl
  have hstreams : (release s a' b).streams = s.streams := rfl
  have hqueue : ((release s a' b).bufferQueue a).length =
      (s.bufferQueue a).length + if a' = a then 1 else 0 := by
    simp only [release, Function.update_apply]
    split
    · rename_i heq
      rw [heq, List.length_append, if_pos rfl]
      rfl
    · rename_i hne
      rw [if_neg fun heq => hne heq.symm]
      rfl
  rw [hsame, hstreams, hp] at hsum
  have hgoto : (((release s a' b).goto i p).bufferQueue a).length =
    ((release s a' b).bufferQueue a).length := rfl
  rw [State.total, State.total, hgoto, hqueue]
  omega

theorem total_step (a : Allocator) {e : Event ι} (h : step s e = some t) :
    t.total a ≤ s.total a ∨ t.total a ≤ t.inUse a := by
  cases e with
  | construct j blockSize =>
    simp only [step] at h
    split at h
    · cases h
      exact .inl (total_goto rfl (Nat.le_refl _) (Nat.zero_le _))
    · cases h
  | advance j =>
    simp only [step, advance] at h
    cases hj : s.streams j with
    | getInput blockSize =>
      simp only [hj, Option.some.injEq] at h
      subst h
      obtain ⟨hstreams, hqueue⟩ := getAllocator_queue s a (inputSize blockSize).toNat
      exact .inl (total_goto hstreams hqueue (Nat.zero_le _))
    | getOutput blockSize ia =>
      simp only [hj, Option.some.injEq] at h
      subst h
      obtain ⟨hstreams, hqueue⟩ := getAllocator_queue s a (outputSize blockSize).toNat
      exact .inl (total_goto hstreams hqueue (Nat.zero_le _))
    | allocateInput blockSize ia oa =>
      simp only [hj, Option.some.injEq] at h
      subst h
      exact total_allocate fun b => by rw [hj]; simp [Phase.taken]
    | allocateOutput blockSize ia oa input =>
      simp only [hj, Option.some.injEq] at h
      subst h
      exact total_allocate fun b => by rw [hj]; simp [Phase.taken]
    | releaseInput ia oa input output =>
      simp only [hj, Option.some.injEq] at h
      subst h
      exact .inl (total_release (by rw [hj]; simp only [Phase.taken]; omega))
    | releaseOutput oa output =>
      simp only [hj, Option.some.injEq] at h
      subst h
      exact .inl (total_release (by rw [hj]; simp [Phase.taken]))
    | _ =>
      rw [hj] at h
      cases h
  | outOfMemory j =>
    simp only [step] at h
    split at h
    · cases h
      exact .inl (total_goto rfl (Nat.le_refl _) (Nat.zero_le _))
    · cases h
      exact .inl (total_goto rfl (Nat.le_refl _) (Nat.zero_le _))
    · cases h
  | use j =>
    simp only [step] at h
    split at h
    · cases h
      exact .inl (Nat.le_refl _)
    · cases h
      exact .inl (Nat.le_refl _)
    · cases h
  | close j =>
    simp only [step] at h
    split at h
    · rename_i hj
      cases h
      refine .inl (total_goto rfl (Nat.le_refl _) ?_)
      rw [hj]
      exact Nat.le_refl _
    · cases h
      exact .inl (Nat.le_refl _)
    · cases h
  | collect k =>
    cases h
    exact .inl (Nat.le_refl _)

/-- However streams are opened, used and closed, an allocator never has more arrays,
in use and free, than streams had of it at some one moment. -/
theorem kept_le_peak {events : List (Event ι)} (h : run step initial events = some s)
    (a : Allocator) :
    ∃ before u, before <+: events ∧ run step initial before = some u ∧
      (s.bufferQueue a).length + s.inUse a ≤ u.inUse a := by
  rcases exists_peak (fun _ => True) (State.total a) (State.inUse a) (fun _ _ _ _ _ => trivial)
    (fun _ _ _ _ hstep => total_step a hstep) trivial h with hle | hpeak
  · have hzero : (initial : State ι).total a = (initial : State ι).inUse a := Nat.zero_add _
    exact ⟨[], initial, List.nil_prefix, rfl, hle.trans (Nat.le_of_eq hzero)⟩
  · exact hpeak

end

/-- A stream is closed, and the next one gets its arrays. -/
def reopened : List (Event (Fin 2)) :=
  .construct 0 4096 :: List.replicate 4 (.advance 0) ++ (.close 0 :: List.replicate 2 (.advance 0)) ++
    (.construct 1 4096 :: List.replicate 4 (.advance 1))

theorem kept_le_peak_reopened :
    ∃ s, run step initial reopened = some s ∧
      ∃ before u, before <+: reopened ∧ run step initial before = some u ∧
        (s.bufferQueue ⟨4096, 0⟩).length + s.inUse ⟨4096, 0⟩ ≤ u.inUse ⟨4096, 0⟩ := by
  have hrun : (run step initial reopened).isSome = true := by decide +kernel
  obtain ⟨s, hs⟩ := Option.isSome_iff_exists.mp hrun
  exact ⟨s, hs, kept_le_peak hs ⟨4096, 0⟩⟩

end SnappyJava.CachedBufferAllocator

namespace SnappyJava.CachingBufferPool

open Ownership Steps

/-! ## The classes -/

def InClass (kind : Kind) (key : Nat) (b : Buffer) : Prop := b.kind = kind ∧ b.capacity = key

instance (kind : Kind) (key : Nat) : DecidablePred (InClass kind key) := fun _ =>
  inferInstanceAs (Decidable (_ ∧ _))

def Request.InClass {ι : Type} (kind : Kind) (key : Nat) (req : Request ι) : Prop :=
  req.kind = kind ∧ req.adjustedSize = key

instance {ι : Type} (kind : Kind) (key : Nat) : DecidablePred (@Request.InClass ι kind key) :=
  fun _ => inferInstanceAs (Decidable (_ ∧ _))

/-- How many buffers of the class a thread is about to hand out, to create or to put
back. -/
def Call.moving {ι : Type} (kind : Kind) (key : Nat) : Call ι → Nat
  | .entryGet req _ _ => if req.InClass kind key then 1 else 0
  | .create req => if req.InClass kind key then 1 else 0
  | .clear value => if InClass kind key value then 1 else 0
  | .getQueue value => if InClass kind key value then 1 else 0
  | .addFirst value _ => if InClass kind key value then 1 else 0
  | _ => 0

/-- The deque of a thread is the one in the map. -/
def Call.Linked {ι : Type} (map : Kind → Nat → Option Deque) : Call ι → Prop
  | .pollFirst req queue => map req.kind req.adjustedSize = some queue
  | .entryGet req queue _ => map req.kind req.adjustedSize = some queue
  | .addFirst value queue => map value.kind value.capacity = some queue
  | _ => True

/-- How many entries the deque of the class has, cleared ones included. -/
def State.pooled {ι τ : Type} (kind : Kind) (key : Nat) (s : State ι τ) : Nat :=
  match s.map kind key with
  | none => 0
  | some queue => (s.queues queue).length

def State.Linked {ι τ : Type} (s : State ι τ) : Prop := ∀ t, (s.calls t).Linked s.map

section
variable {ι τ : Type} {s s' : State ι τ} {t : τ}

theorem Call.Linked.mono {map map' : Kind → Nat → Option Deque} {c : Call ι} (h : c.Linked map)
    (hmap : ∀ kind key queue, map kind key = some queue → map' kind key = some queue) :
    c.Linked map' := by
  cases c with
  | pollFirst | entryGet | addFirst => exact hmap _ _ _ h
  | _ => trivial

theorem Call.Linked.reads {c c' : Call ι} (h : c.Linked s.map) (hreads : Reads s c c') :
    c'.Linked s.map := by
  cases hreads with
  | get hmap | getAgain hmap | getQueue hmap => exact hmap
  | entryCleared => exact h
  | _ => trivial

variable [DecidableEq τ]

/-- The map is only ever extended. -/
theorem State.Linked.update (h : s.Linked) {c : Call ι} (hcalls : s'.calls = Function.update s.calls t c)
    (hmap : ∀ kind key queue, s.map kind key = some queue → s'.map kind key = some queue)
    (hc : c.Linked s'.map) : s'.Linked := by
  intro t'
  rw [hcalls, Function.update_apply]
  split
  · exact hc
  · exact (h t').mono hmap

theorem Linked.advance [DecidableEq ι] (h : s.Linked) (hstep : advance s t = some s') : s'.Linked := by
  have ht := h t
  rcases advance_cases hstep with ⟨c, hreads, rfl⟩ | hwrites
  · exact h.update rfl (fun _ _ _ hm => hm) (ht.reads hreads)
  cases hwrites with
  | putIfAbsent hcall hnone =>
    refine h.update rfl (fun kind key queue hm => ?_) trivial
    show Function.update s.map _ _ kind key = some queue
    simp only [Function.update_apply]
    split
    · rename_i hkind
      subst hkind
      simp only [Function.update_apply]
      split
      · rename_i hkey
        rw [hkey, hnone] at hm
        cases hm
      · exact hm
    · exact hm
  | pollFirst hcall hqueue =>
    rw [hcall] at ht
    exact h.update rfl (fun _ _ _ hm => hm) ht
  | _ => exact h.update rfl (fun _ _ _ hm => hm) trivial

theorem Linked.step [DecidableEq ι] (h : s.Linked) {e : Event ι τ} (hstep : step s e = some s') :
    s'.Linked := by
  cases e with
  | allocate t c kind size =>
    simp only [CachingBufferPool.step] at hstep
    split at hstep
    · split at hstep
      · cases hstep
        exact h.update rfl (fun _ _ _ hm => hm) trivial
      · cases hstep
        exact h
    · cases hstep
  | release t c kind buffer =>
    simp only [CachingBufferPool.step] at hstep
    split at hstep
    · split at hstep
      · cases hstep
        exact h
      · split at hstep
        · cases hstep
          refine h.update rfl (fun _ _ _ hm => hm) ?_
          split <;> trivial
        · cases hstep
    · cases hstep
  | advance t => exact Linked.advance h hstep
  | outOfMemory t =>
    simp only [CachingBufferPool.step] at hstep
    split at hstep
    · cases hstep
      exact h.update rfl (fun _ _ _ hm => hm) trivial
    · cases hstep
  | use c b position limit =>
    simp only [CachingBufferPool.step] at hstep
    split at hstep
    · cases hstep
      exact h
    · cases hstep
  | collect entry =>
    cases hstep
    exact h

end

/-! ## Counting -/

section
variable {ι τ : Type} {s s' : State ι τ} {kind : Kind} {key : Nat}

/-- One deque is replaced. -/
theorem pooled_update {queue : Deque} {entries : List SoftReference} (hmap : s'.map = s.map)
    (hqueues : s'.queues = Function.update s.queues queue entries) :
    s'.pooled kind key =
      if s.map kind key = some queue then entries.length else s.pooled kind key := by
  simp only [State.pooled, hmap, hqueues]
  cases s.map kind key with
  | none => rfl
  | some q =>
    simp only [Option.some.injEq, Function.update_apply]
    split <;> rfl

theorem pooled_shrink {queue : Deque} {entries : List SoftReference}
    (hle : entries.length ≤ (s.queues queue).length) (hmap : s'.map = s.map)
    (hqueues : s'.queues = Function.update s.queues queue entries) :
    s'.pooled kind key ≤ s.pooled kind key := by
  rw [pooled_update hmap hqueues]
  split
  · rename_i hq
    rw [State.pooled, hq]
    exact hle
  · exact Nat.le_refl _

/-- The deques of two classes are different ones. -/
theorem Inv.inClass_of_map (h : Inv s) {kind' : Kind} {key' : Nat} {queue : Deque}
    (hq : s.map kind key = some queue) (hq' : s.map kind' key' = some queue) :
    kind' = kind ∧ key' = key := by
  obtain ⟨hkind, hkey⟩ := h.map_ok _ _ _ hq
  obtain ⟨hkind', hkey'⟩ := h.map_ok _ _ _ hq'
  exact ⟨hkind'.symm.trans hkind, hkey'.symm.trans hkey⟩

/-- A new deque is empty. -/
theorem pooled_putIfAbsent (kind' : Kind) (key' : Nat) (queue : Deque) (n : Nat) :
    State.pooled kind key { s with
      map := Function.update s.map kind' (Function.update (s.map kind') key' (some queue))
      queues := Function.update s.queues queue []
      serial := n } ≤ s.pooled kind key := by
  by_cases hclass : kind = kind' ∧ key = key'
  · obtain ⟨rfl, rfl⟩ := hclass
    simp [State.pooled]
  · have hmap : Function.update s.map kind' (Function.update (s.map kind') key' (some queue)) kind key =
        s.map kind key := by
      by_cases hkind : kind = kind'
      · subst hkind
        rw [Function.update_self, Function.update_of_ne fun hkey => hclass ⟨rfl, hkey⟩]
      · rw [Function.update_of_ne hkind]
    simp only [State.pooled, hmap]
    cases s.map kind key with
    | none => exact Nat.le_refl _
    | some q =>
      simp only [Function.update_apply]
      split
      · exact Nat.zero_le _
      · exact Nat.le_refl _

/-- A thread that reads has no more under way after it, but where it finds the deque of
the class empty. -/
theorem moving_of_reads (kind : Kind) (key : Nat) {c c' : Call ι} (hlinked : c.Linked s.map)
    (hreads : Reads s c c') :
    c'.moving kind key ≤ c.moving kind key ∨ s.pooled kind key = 0 := by
  cases hreads with
  | @pollNone req queue hempty =>
    by_cases hclass : req.InClass kind key
    · obtain ⟨rfl, rfl⟩ := hclass
      have hmap : s.map req.kind req.adjustedSize = some queue := hlinked
      right
      rw [State.pooled, hmap]
      exact congrArg List.length hempty
    · left
      rw [Call.moving, if_neg hclass]
      exact Nat.zero_le _
  | getQueue => exact .inl (Nat.le_refl _)
  | _ => exact .inl (Nat.zero_le _)

end

section
variable {ι τ : Type} [Fintype ι] [Fintype τ]

/-- How many buffers of the class are with a client or under way. -/
def State.out (kind : Kind) (key : Nat) (s : State ι τ) : Nat :=
  (∑ c, (s.held c).countP (InClass kind key)) + ∑ t, (s.calls t).moving kind key

def State.total (kind : Kind) (key : Nat) (s : State ι τ) : Nat := s.pooled kind key + s.out kind key

variable [DecidableEq τ] {s s' : State ι τ} {t : τ} {kind : Kind} {key : Nat}

theorem out_goto (c : Call ι) :
    (s.goto t c).out kind key + (s.calls t).moving kind key =
      s.out kind key + c.moving kind key := by
  have hsum := sum_update_change (Call.moving kind key) s.calls t c
  show (∑ c', (s.held c').countP (InClass kind key)) +
    (∑ t', (Function.update s.calls t c t').moving kind key) + _ = _
  rw [State.out]
  omega

/-- A thread goes on with no more than it had under way. -/
theorem total_goto (hheld : s'.held = s.held) (hcalls : s'.calls = s.calls)
    (hpooled : s'.pooled kind key ≤ s.pooled kind key) {c : Call ι}
    (hc : c.moving kind key ≤ (s.calls t).moving kind key) :
    (s'.goto t c).total kind key ≤ s.total kind key := by
  have hsum := @out_goto _ _ _ _ _ s' t kind key c
  have hsame : s'.out kind key = s.out kind key := by rw [State.out, State.out, hheld, hcalls]
  have hpool : (s'.goto t c).pooled kind key = s'.pooled kind key := rfl
  rw [hcalls, hsame] at hsum
  rw [State.total, State.total, hpool]
  omega

theorem out_grant [DecidableEq ι] (req : Request ι) (b : Buffer) :
    (s.grant t req b).out kind key + (s.calls t).moving kind key =
      s.out kind key + if InClass kind key b then 1 else 0 := by
  have hcalls := sum_update_change (Call.moving kind key) s.calls t .idle
  have hheld := sum_update_change (List.countP (InClass kind key)) s.held req.client
    (b :: s.held req.client)
  have hcons : (b :: s.held req.client).countP (InClass kind key) =
      (s.held req.client).countP (InClass kind key) + if InClass kind key b then 1 else 0 := by
    rw [List.countP_cons]
    simp only [decide_eq_true_eq]
  show (∑ c, (Function.update s.held req.client (b :: s.held req.client) c).countP (InClass kind key)) +
    (∑ t', (Function.update s.calls t .idle t').moving kind key) + _ = _
  have hidle : (Call.idle : Call ι).moving kind key = 0 := rfl
  rw [State.out]
  omega

/-- What a thread had under way is handed out. -/
theorem total_grant [DecidableEq ι] (hheld : s'.held = s.held) (hcalls : s'.calls = s.calls)
    (hpooled : s'.pooled kind key = s.pooled kind key) {req : Request ι} {b : Buffer}
    (hb : (if InClass kind key b then 1 else 0) ≤ (s.calls t).moving kind key) :
    (s'.grant t req b).total kind key ≤ s.total kind key := by
  have hsum := @out_grant _ _ _ _ _ s' t kind key _ req b
  have hsame : s'.out kind key = s.out kind key := by rw [State.out, State.out, hheld, hcalls]
  have hpool : (s'.grant t req b).pooled kind key = s'.pooled kind key := rfl
  rw [hcalls, hsame] at hsum
  rw [State.total, State.total, hpool]
  omega

/-- A polled entry is under way. -/
theorem total_pollFirst (h : Inv s) (hlinked : s.Linked) {req : Request ι} {queue : Deque}
    (hcall : s.calls t = .pollFirst req queue) {entry : SoftReference} {rest : List SoftReference}
    (hqueue : s.queues queue = entry :: rest) :
    ({ s with queues := Function.update s.queues queue rest }.goto t
      (.entryGet req queue entry)).total kind key ≤ s.total kind key := by
  have hq : s.map req.kind req.adjustedSize = some queue := by
    have ht := hlinked t
    rwa [hcall] at ht
  have hsum := @out_goto _ _ _ _ _ { s with queues := Function.update s.queues queue rest } t kind key
    (.entryGet req queue entry)
  have hpool := @pooled_update _ _ s { s with queues := Function.update s.queues queue rest } kind key
    queue rest rfl rfl
  have hout : State.out kind key { s with queues := Function.update s.queues queue rest } =
    s.out kind key := rfl
  have hmoving : (s.calls t).moving kind key = 0 := by rw [hcall]; rfl
  rw [hout, hmoving, Call.moving] at hsum
  show State.pooled kind key { s with queues := Function.update s.queues queue rest } + _ ≤ _
  rw [hpool, State.total]
  by_cases hclass : req.InClass kind key
  · obtain ⟨rfl, rfl⟩ := hclass
    have hpooled : s.pooled req.kind req.adjustedSize = rest.length + 1 := by
      rw [State.pooled, hq]
      exact congrArg List.length hqueue
    rw [if_pos ⟨rfl, rfl⟩] at hsum
    rw [if_pos hq, hpooled]
    omega
  · rw [if_neg hclass] at hsum
    rw [if_neg fun hmap => hclass (h.inClass_of_map hmap hq)]
    omega

/-- What is given back is pooled. -/
theorem total_addFirst (h : Inv s) (hlinked : s.Linked) {value : Buffer} {queue : Deque}
    (hcall : s.calls t = .addFirst value queue) (entry : SoftReference) :
    ({ s with
      queues := Function.update s.queues queue (entry :: s.queues queue)
      serial := s.serial + 1 }.goto t (.peekLast queue)).total kind key ≤ s.total kind key := by
  have hq : s.map value.kind value.capacity = some queue := by
    have ht := hlinked t
    rwa [hcall] at ht
  set s₁ : State ι τ := { s with
    queues := Function.update s.queues queue (entry :: s.queues queue), serial := s.serial + 1 } with hs₁
  have hsum := @out_goto _ _ _ _ _ s₁ t kind key (.peekLast queue)
  have hpool := @pooled_update _ _ s s₁ kind key queue _ rfl rfl
  have hout : s₁.out kind key = s.out kind key := rfl
  have hmoving : (s₁.calls t).moving kind key = if InClass kind key value then 1 else 0 := by
    show (s.calls t).moving kind key = _
    rw [hcall, Call.moving]
  have hpeek : (Call.peekLast queue : Call ι).moving kind key = 0 := rfl
  rw [hout, hmoving, hpeek] at hsum
  show s₁.pooled kind key + _ ≤ _
  rw [hpool, State.total]
  by_cases hclass : InClass kind key value
  · obtain ⟨rfl, rfl⟩ := hclass
    have hpooled : s.pooled value.kind value.capacity = (s.queues queue).length := by
      rw [State.pooled, hq]
    rw [if_pos ⟨rfl, rfl⟩] at hsum
    rw [if_pos hq, hpooled, List.length_cons]
    omega
  · rw [if_neg hclass] at hsum
    rw [if_neg fun hmap => hclass (h.inClass_of_map hmap hq)]
    omega

variable [DecidableEq ι]

theorem total_advance (h : Inv s) (hlinked : s.Linked) (kind : Kind) (key : Nat)
    (hstep : advance s t = some s') :
    s'.total kind key ≤ s.total kind key ∨ s'.total kind key ≤ s'.out kind key := by
  have hok := h.call_ok t
  rcases advance_cases hstep with ⟨c, hreads, rfl⟩ | hwrites
  · rcases moving_of_reads kind key (hlinked t) hreads with hle | hempty
    · exact .inl (total_goto rfl rfl (Nat.le_refl _) hle)
    · right
      have hpool : (s.goto t c).pooled kind key = 0 := hempty
      rw [State.total, hpool, Nat.zero_add]
  left
  cases hwrites with
  | putIfAbsent hcall hnone =>
    refine total_goto ?_ ?_ (pooled_putIfAbsent _ _ _ _) ?_
    · rfl
    · rfl
    · exact Nat.zero_le _
  | pollFirst hcall hqueue => exact total_pollFirst h hlinked hcall hqueue
  | @entryGet req queue entry hcall hcleared =>
    rw [hcall] at hok
    obtain ⟨⟨hkind, hkey⟩, hentry⟩ := hok
    refine total_grant rfl rfl rfl (Nat.le_of_eq ?_)
    have hclass : InClass kind key entry.referent ↔ req.InClass kind key := by
      rw [InClass, Request.InClass, hentry.kind_eq, hentry.capacity_eq, hkind, hkey]
    rw [hcall, Call.moving]
    exact if_congr hclass rfl rfl
  | create hcall =>
    refine @total_grant _ _ _ _ _ s _ t kind key _ rfl rfl rfl _ _ (Nat.le_of_eq ?_)
    rw [hcall]
    rfl
  | clear hcall =>
    refine @total_goto _ _ _ _ _ s _ t kind key rfl rfl (Nat.le_refl _) _ (Nat.le_of_eq ?_)
    rw [hcall]
    rfl
  | addFirst hcall => exact total_addFirst h hlinked hcall _
  | @removeLastOccurrence queue entry hcall =>
    have hle : (removeLastOccurrence entry (s.queues queue)).length ≤ (s.queues queue).length := by
      rw [removeLastOccurrence, List.length_reverse]
      exact (List.erase_sublist.length_le).trans (Nat.le_of_eq List.length_reverse)
    refine total_goto ?_ ?_ ?_ ?_
    · rfl
    · rfl
    · exact pooled_shrink hle rfl rfl
    · exact Nat.zero_le _

/-- What is given back goes from the client to the thread. -/
theorem total_release {c : ι} {b : Buffer} (hb : b ∈ s.held c) (hidle : s.calls t = .idle)
    {call : Call ι} (hcall : call.moving kind key = if InClass kind key b then 1 else 0) :
    ({ s with held := Function.update s.held c ((s.held c).erase b) }.goto t call).total kind key ≤
      s.total kind key := by
  set s₁ : State ι τ := { s with held := Function.update s.held c ((s.held c).erase b) } with hs₁
  have hsum := @out_goto _ _ _ _ _ s₁ t kind key call
  have hheld := sum_update_change (List.countP (InClass kind key)) s.held c ((s.held c).erase b)
  have herase : (s.held c).countP (InClass kind key) =
      ((s.held c).erase b).countP (InClass kind key) + if InClass kind key b then 1 else 0 := by
    rw [(List.perm_cons_erase hb).countP_eq, List.countP_cons]
    simp only [decide_eq_true_eq]
  have hout : s₁.out kind key + (s.held c).countP (InClass kind key) =
      s.out kind key + ((s.held c).erase b).countP (InClass kind key) := by
    show (∑ c', (Function.update s.held c ((s.held c).erase b) c').countP (InClass kind key)) +
      (∑ t', (s.calls t').moving kind key) + _ = _
    rw [State.out]
    omega
  have hmoving : (s₁.calls t).moving kind key = 0 := by
    show (s.calls t).moving kind key = 0
    rw [hidle]
    rfl
  have hpool : (s₁.goto t call).pooled kind key = s.pooled kind key := rfl
  rw [hmoving, hcall] at hsum
  rw [State.total, State.total, hpool]
  omega

theorem total_step (h : Inv s) (hlinked : s.Linked) (kind : Kind) (key : Nat) {e : Event ι τ}
    (hstep : step s e = some s') :
    s'.total kind key ≤ s.total kind key ∨ s'.total kind key ≤ s'.out kind key := by
  cases e with
  | allocate t c kind size =>
    simp only [CachingBufferPool.step] at hstep
    split at hstep
    · split at hstep
      · cases hstep
        exact .inl (total_goto rfl rfl (Nat.le_refl _) (Nat.zero_le _))
      · cases hstep
        exact .inl (Nat.le_refl _)
    · cases hstep
  | release t c kind buffer =>
    simp only [CachingBufferPool.step] at hstep
    split at hstep
    · rename_i hidle
      split at hstep
      · cases hstep
        exact .inl (Nat.le_refl _)
      · split at hstep
        · rename_i hb
          cases hstep
          refine .inl (total_release hb.1 hidle ?_)
          split <;> rfl
        · cases hstep
    · cases hstep
  | advance t => exact total_advance h hlinked kind key hstep
  | outOfMemory t =>
    simp only [CachingBufferPool.step] at hstep
    split at hstep
    · cases hstep
      exact .inl (total_goto rfl rfl (Nat.le_refl _) (Nat.zero_le _))
    · cases hstep
  | use c b position limit =>
    simp only [CachingBufferPool.step] at hstep
    split at hstep
    · cases hstep
      exact .inl (Nat.le_refl _)
    · cases hstep
  | collect entry =>
    cases hstep
    exact .inl (Nat.le_refl _)

/-- However threads are interleaved, the buffers of a class, pooled, held and under
way, are never more than were held and under way at some one moment. -/
theorem pooled_le_peak {events : List (Event ι τ)} (h : run step initial events = some s)
    (kind : Kind) (key : Nat) :
    ∃ before u, before <+: events ∧ run step initial before = some u ∧
      s.pooled kind key + s.out kind key ≤ u.out kind key := by
  rcases exists_peak (fun s : State ι τ => Inv s ∧ s.Linked) (State.total kind key) (State.out kind key)
    (fun _ _ _ hs hstep => ⟨hs.1.step hstep, Linked.step hs.2 hstep⟩)
    (fun _ _ _ hs hstep => total_step hs.1 hs.2 kind key hstep)
    ⟨inv_initial, fun _ => trivial⟩ h with hle | hpeak
  · have hzero : (initial : State ι τ).total kind key = (initial : State ι τ).out kind key :=
      Nat.zero_add _
    exact ⟨[], initial, List.nil_prefix, rfl, hle.trans (Nat.le_of_eq hzero)⟩
  · exact hpeak

end

/-- One thread gives an array back and another one gets it, for two clients. -/
def handedOn : List (Event (Fin 2) (Fin 2)) :=
  [.allocate 0 0 .array 5000] ++ List.replicate 5 (.advance 0) ++
    [.release 0 0 .array (some ⟨.array, 6144, 1⟩)] ++ List.replicate 2 (.advance 0) ++
    [.allocate 1 1 .array 6000] ++ List.replicate 3 (.advance 1)

theorem pooled_le_peak_handedOn :
    ∃ s, run step initial handedOn = some s ∧
      ∃ before u, before <+: handedOn ∧ run step initial before = some u ∧
        s.pooled .array 6144 + s.out .array 6144 ≤ u.out .array 6144 := by
  have hrun : (run step initial handedOn).isSome = true := by decide +kernel
  obtain ⟨s, hs⟩ := Option.isSome_iff_exists.mp hrun
  exact ⟨s, hs, pooled_le_peak hs .array 6144⟩

end SnappyJava.CachingBufferPool
