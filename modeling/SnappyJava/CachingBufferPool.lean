import SnappyJava.BufferPool
import SnappyJava.Lib.Ownership
import SnappyJava.Lib.Steps

/-! `CachingBufferPool` shared by any number of clients and threads. The steps
are the single operations on the maps and deques, which are atomic, and what a
thread does between two of them; the garbage collector may clear references
between any two steps. -/

namespace SnappyJava.CachingBufferPool

open Ownership

/-! ## The objects -/

inductive Kind
  | array | direct
  deriving DecidableEq, Repr

/-- The identity of a `byte[]` or of a direct `ByteBuffer`, whose length or
capacity never changes. -/
structure Buffer where
  kind : Kind
  capacity : Nat
  serial : Nat
  deriving DecidableEq, Repr

/-- The identity of a `SoftReference` and what it was created for. -/
structure SoftReference where
  referent : Buffer
  serial : Nat
  deriving DecidableEq, Repr

/-- The identity of a `ConcurrentLinkedDeque` and the key it was created for. -/
structure Deque where
  kind : Kind
  key : Nat
  serial : Nat
  deriving DecidableEq, Repr

/-- A call of `allocateArray` or `allocateDirect` that has passed its check. -/
structure Request (ι : Type) where
  client : ι
  kind : Kind
  size : Int32
  pos : 0 < size.toInt
  deriving DecidableEq

def Request.adjustedSize {ι : Type} (req : Request ι) : Nat := (adjustSize req.size.toInt.toNat).toNat

/-- Where a thread stands: the operation it performs next. The first ones are
those of `optimisticGetEntry` and `getOrCreate`, the others those of
`releaseDirect` and `returnValue`. -/
inductive Call (ι : Type)
  | idle
  | get (req : Request ι)
  | putIfAbsent (req : Request ι)
  | getAgain (req : Request ι)
  | pollFirst (req : Request ι) (queue : Deque)
  | entryGet (req : Request ι) (queue : Deque) (entry : SoftReference)
  | create (req : Request ι)
  | clear (value : Buffer)
  | getQueue (value : Buffer)
  | addFirst (value : Buffer) (queue : Deque)
  | peekLast (queue : Deque)
  | testLast (queue : Deque) (entry : SoftReference)
  | removeLastOccurrence (queue : Deque) (entry : SoftReference)
  deriving DecidableEq

/-- What an allocation has returned: the buffer, with its position and limit
at that moment. -/
structure Grant (ι : Type) where
  req : Request ι
  buffer : Buffer
  view : Nat × Nat

/-- The pool, its clients and its threads. `view` is the position and the limit
of a direct buffer. `grants` records what allocations returned and `purged` the
entries removed by purge loops, with whether they had been cleared. -/
structure State (ι τ : Type) where
  map : Kind → Nat → Option Deque
  queues : Deque → List SoftReference
  cleared : SoftReference → Bool
  view : Buffer → Nat × Nat
  held : ι → List Buffer
  calls : τ → Call ι
  serial : Nat
  grants : List (Grant ι)
  purged : List (SoftReference × Bool)

variable {ι τ : Type}

def initial : State ι τ where
  map _ _ := none
  queues _ := []
  cleared _ := false
  view _ := (0, 0)
  held _ := []
  calls _ := .idle
  serial := 0
  grants := []
  purged := []

/-! ## The steps -/

section
variable [DecidableEq ι] [DecidableEq τ]

def State.goto (s : State ι τ) (t : τ) (c : Call ι) : State ι τ :=
  { s with calls := Function.update s.calls t c }

/-- The call of `t` returns `b`. -/
def State.grant (s : State ι τ) (t : τ) (req : Request ι) (b : Buffer) : State ι τ :=
  { s with
    calls := Function.update s.calls t .idle
    held := Function.update s.held req.client (b :: s.held req.client)
    grants := s.grants ++ [⟨req, b, s.view b⟩] }

def removeLastOccurrence (entry : SoftReference) (queue : List SoftReference) :
    List SoftReference := (queue.reverse.erase entry).reverse

/-- The next operation of the thread `t`. -/
def advance (s : State ι τ) (t : τ) : Option (State ι τ) :=
  match s.calls t with
  | .idle => none
  | .get req =>
    match s.map req.kind req.adjustedSize with
    | some queue => some (s.goto t (.pollFirst req queue))
    | none => some (s.goto t (.putIfAbsent req))
  | .putIfAbsent req =>
    match s.map req.kind req.adjustedSize with
    | some _ => some (s.goto t (.getAgain req))
    | none =>
      let queue : Deque := ⟨req.kind, req.adjustedSize, s.serial⟩
      some ({ s with
        map := Function.update s.map req.kind
          (Function.update (s.map req.kind) req.adjustedSize (some queue))
        queues := Function.update s.queues queue []
        serial := s.serial + 1 }.goto t (.getAgain req))
  | .getAgain req =>
    match s.map req.kind req.adjustedSize with
    | some queue => some (s.goto t (.pollFirst req queue))
    -- a null pointer exception
    | none => some (s.goto t .idle)
  | .pollFirst req queue =>
    match s.queues queue with
    | [] => some (s.goto t (.create req))
    | entry :: rest =>
      some ({ s with queues := Function.update s.queues queue rest }.goto t
        (.entryGet req queue entry))
  | .entryGet req queue entry =>
    if s.cleared entry then
      some (s.goto t (.pollFirst req queue))
    else
      some (s.grant t req entry.referent)
  | .create req =>
    let b : Buffer := ⟨req.kind, req.adjustedSize, s.serial⟩
    some ({ s with
      view := Function.update s.view b (0, b.capacity), serial := s.serial + 1 }.grant t req b)
  | .clear value =>
    some ({ s with view := Function.update s.view value (0, value.capacity) }.goto t
      (.getQueue value))
  | .getQueue value =>
    match s.map value.kind value.capacity with
    | some queue => some (s.goto t (.addFirst value queue))
    | none => some (s.goto t .idle)
  | .addFirst value queue =>
    some ({ s with
      queues := Function.update s.queues queue (⟨value, s.serial⟩ :: s.queues queue)
      serial := s.serial + 1 }.goto t (.peekLast queue))
  | .peekLast queue =>
    match (s.queues queue).getLast? with
    | none => some (s.goto t .idle)
    | some entry => some (s.goto t (.testLast queue entry))
  | .testLast queue entry =>
    if s.cleared entry then
      some (s.goto t (.removeLastOccurrence queue entry))
    else
      some (s.goto t .idle)
  | .removeLastOccurrence queue entry =>
    some ({ s with
      queues := Function.update s.queues queue (removeLastOccurrence entry (s.queues queue))
      purged := if entry ∈ s.queues queue then s.purged ++ [(entry, s.cleared entry)]
        else s.purged }.goto t (.peekLast queue))

inductive Event (ι τ : Type)
  /-- A thread calls `allocateArray` or `allocateDirect` for a client. -/
  | allocate (t : τ) (c : ι) (kind : Kind) (size : Int32)
  /-- A thread calls `releaseArray` or `releaseDirect` for a client. -/
  | release (t : τ) (c : ι) (kind : Kind) (buffer : Option Buffer)
  | advance (t : τ)
  /-- The new array or buffer of `create` cannot be had. -/
  | outOfMemory (t : τ)
  /-- A client moves the position and the limit of a direct buffer. -/
  | use (c : ι) (b : Buffer) (position limit : Nat)
  /-- The garbage collector clears a reference. That it spares buffers in use
  plays no part below. -/
  | collect (entry : SoftReference)

/-- A client releases only what it holds, and then no longer holds it. A call
with a bad argument throws and changes nothing. -/
def step (s : State ι τ) : Event ι τ → Option (State ι τ)
  | .allocate t c kind size =>
    if s.calls t = .idle then
      if h : 0 < size.toInt then some (s.goto t (.get ⟨c, kind, size, h⟩)) else some s
    else none
  | .release t c kind buffer =>
    if s.calls t = .idle then
      match buffer with
      | none => some s
      | some b =>
        if b ∈ s.held c ∧ b.kind = kind then
          some ({ s with held := Function.update s.held c ((s.held c).erase b) }.goto t
            (if kind = Kind.direct then .clear b else .getQueue b))
        else none
    else none
  | .advance t => advance s t
  | .outOfMemory t =>
    match s.calls t with
    | .create _ => some (s.goto t .idle)
    | _ => none
  | .use c b position limit =>
    if b ∈ s.held c ∧ position ≤ limit ∧ limit ≤ b.capacity then
      some { s with view := Function.update s.view b (position, limit) }
    else none
  | .collect entry => some { s with cleared := Function.update s.cleared entry true }

end

/-! ## What an operation can do -/

section
/-- The operations that only read, from one call of a thread to the next. -/
inductive Reads (s : State ι τ) : Call ι → Call ι → Prop
  | get {req queue} (hmap : s.map req.kind req.adjustedSize = some queue) :
    Reads s (.get req) (.pollFirst req queue)
  | getNone {req} : Reads s (.get req) (.putIfAbsent req)
  | putIfAbsent {req} : Reads s (.putIfAbsent req) (.getAgain req)
  | getAgain {req queue} (hmap : s.map req.kind req.adjustedSize = some queue) :
    Reads s (.getAgain req) (.pollFirst req queue)
  | getAgainNone {req} : Reads s (.getAgain req) .idle
  | pollNone {req queue} (hempty : s.queues queue = []) :
    Reads s (.pollFirst req queue) (.create req)
  | entryCleared {req queue entry} :
    Reads s (.entryGet req queue entry) (.pollFirst req queue)
  | getQueue {value queue} (hmap : s.map value.kind value.capacity = some queue) :
    Reads s (.getQueue value) (.addFirst value queue)
  | getQueueNone {value} : Reads s (.getQueue value) .idle
  | peekLast {queue entry} : Reads s (.peekLast queue) (.testLast queue entry)
  | peekNone {queue} : Reads s (.peekLast queue) .idle
  | lastCleared {queue entry} (hcleared : s.cleared entry = true) :
    Reads s (.testLast queue entry) (.removeLastOccurrence queue entry)
  | lastHeld {queue entry} : Reads s (.testLast queue entry) .idle

variable [DecidableEq ι] [DecidableEq τ]

/-- The operations of the thread `t` that change more than where it stands. -/
inductive Writes (s : State ι τ) (t : τ) : State ι τ → Prop
  | putIfAbsent {req} (hcall : s.calls t = .putIfAbsent req)
    (hnone : s.map req.kind req.adjustedSize = none) :
    Writes s t ({ s with
      map := Function.update s.map req.kind
        (Function.update (s.map req.kind) req.adjustedSize (some ⟨req.kind, req.adjustedSize, s.serial⟩))
      queues := Function.update s.queues ⟨req.kind, req.adjustedSize, s.serial⟩ []
      serial := s.serial + 1 }.goto t (.getAgain req))
  | pollFirst {req queue entry rest} (hcall : s.calls t = .pollFirst req queue)
    (hqueue : s.queues queue = entry :: rest) :
    Writes s t ({ s with queues := Function.update s.queues queue rest }.goto t
      (.entryGet req queue entry))
  | entryGet {req queue entry} (hcall : s.calls t = .entryGet req queue entry)
    (hcleared : s.cleared entry = false) : Writes s t (s.grant t req entry.referent)
  | create {req} (hcall : s.calls t = .create req) :
    Writes s t ({ s with
      view := Function.update s.view ⟨req.kind, req.adjustedSize, s.serial⟩ (0, req.adjustedSize)
      serial := s.serial + 1 }.grant t req ⟨req.kind, req.adjustedSize, s.serial⟩)
  | clear {value} (hcall : s.calls t = .clear value) :
    Writes s t ({ s with view := Function.update s.view value (0, value.capacity) }.goto t
      (.getQueue value))
  | addFirst {value queue} (hcall : s.calls t = .addFirst value queue) :
    Writes s t ({ s with
      queues := Function.update s.queues queue (⟨value, s.serial⟩ :: s.queues queue)
      serial := s.serial + 1 }.goto t (.peekLast queue))
  | removeLastOccurrence {queue entry} (hcall : s.calls t = .removeLastOccurrence queue entry) :
    Writes s t ({ s with
      queues := Function.update s.queues queue (removeLastOccurrence entry (s.queues queue))
      purged := if entry ∈ s.queues queue then s.purged ++ [(entry, s.cleared entry)]
        else s.purged }.goto t (.peekLast queue))

theorem advance_cases {s s' : State ι τ} {t : τ} (h : advance s t = some s') :
    (∃ c, Reads s (s.calls t) c ∧ s' = s.goto t c) ∨ Writes s t s' := by
  unfold advance at h
  cases hcall : s.calls t with
  | idle =>
    rw [hcall] at h
    cases h
  | get req =>
    simp only [hcall] at h
    split at h
    · rename_i hmap
      cases h
      exact .inl ⟨_, .get hmap, rfl⟩
    · cases h
      exact .inl ⟨_, .getNone, rfl⟩
  | putIfAbsent req =>
    simp only [hcall] at h
    split at h
    · cases h
      exact .inl ⟨_, .putIfAbsent, rfl⟩
    · rename_i hnone
      cases h
      exact .inr (.putIfAbsent hcall hnone)
  | getAgain req =>
    simp only [hcall] at h
    split at h
    · rename_i hmap
      cases h
      exact .inl ⟨_, .getAgain hmap, rfl⟩
    · cases h
      exact .inl ⟨_, .getAgainNone, rfl⟩
  | pollFirst req queue =>
    simp only [hcall] at h
    split at h
    · rename_i hempty
      cases h
      exact .inl ⟨_, .pollNone hempty, rfl⟩
    · rename_i hqueue
      cases h
      exact .inr (.pollFirst hcall hqueue)
  | entryGet req queue entry =>
    simp only [hcall] at h
    split at h
    · cases h
      exact .inl ⟨_, .entryCleared, rfl⟩
    · rename_i hcleared
      cases h
      exact .inr (.entryGet hcall (Bool.eq_false_of_not_eq_true hcleared))
  | create req =>
    simp only [hcall] at h
    cases h
    exact .inr (.create hcall)
  | clear value =>
    simp only [hcall] at h
    cases h
    exact .inr (.clear hcall)
  | getQueue value =>
    simp only [hcall] at h
    split at h
    · rename_i hmap
      cases h
      exact .inl ⟨_, .getQueue hmap, rfl⟩
    · cases h
      exact .inl ⟨_, .getQueueNone, rfl⟩
  | addFirst value queue =>
    simp only [hcall] at h
    cases h
    exact .inr (.addFirst hcall)
  | peekLast queue =>
    simp only [hcall] at h
    split at h
    · cases h
      exact .inl ⟨_, .peekNone, rfl⟩
    · cases h
      exact .inl ⟨_, .peekLast, rfl⟩
  | testLast queue entry =>
    simp only [hcall] at h
    split at h
    · rename_i hcleared
      cases h
      exact .inl ⟨_, .lastCleared hcleared, rfl⟩
    · cases h
      exact .inl ⟨_, .lastHeld, rfl⟩
  | removeLastOccurrence queue entry =>
    simp only [hcall] at h
    cases h
    exact .inr (.removeLastOccurrence hcall)

end

/-! ## Who has a buffer -/

inductive Owner (ι τ : Type)
  | client (c : ι)
  | thread (t : τ)
  | queue (q : Deque)

/-- The buffers that can still be had through these references. -/
def live (cleared : SoftReference → Bool) (entries : List SoftReference) : List Buffer :=
  (entries.filter fun entry => !cleared entry).map SoftReference.referent

/-- The buffer a thread is about to hand out or to give back. -/
def Call.carried (cleared : SoftReference → Bool) : Call ι → List Buffer
  | .entryGet _ _ entry => live cleared [entry]
  | .clear value => [value]
  | .getQueue value => [value]
  | .addFirst value _ => [value]
  | _ => []

def State.owned (s : State ι τ) : Owner ι τ → List Buffer
  | .client c => s.held c
  | .thread t => (s.calls t).carried s.cleared
  | .queue q => live s.cleared (s.queues q)

/-- A direct buffer stands at its beginning, its limit at its capacity. -/
def Rewound (view : Buffer → Nat × Nat) (b : Buffer) : Prop :=
  b.kind = .direct → view b = (0, b.capacity)

/-- An entry of a queue: of the kind and the size of the queue, and ready to be
handed out unless it has been cleared. -/
structure Entry (cleared : SoftReference → Bool) (view : Buffer → Nat × Nat) (q : Deque)
    (entry : SoftReference) : Prop where
  kind_eq : entry.referent.kind = q.kind
  capacity_eq : entry.referent.capacity = q.key
  rewound : cleared entry = false → Rewound view entry.referent

/-- What a thread relies on at each operation. -/
def Call.Ok (cleared : SoftReference → Bool) (view : Buffer → Nat × Nat) : Call ι → Prop
  | .pollFirst req q => q.kind = req.kind ∧ q.key = req.adjustedSize
  | .entryGet req q entry =>
    (q.kind = req.kind ∧ q.key = req.adjustedSize) ∧ Entry cleared view q entry
  | .getQueue value => Rewound view value
  | .addFirst value q => (value.kind = q.kind ∧ value.capacity = q.key) ∧ Rewound view value
  | .removeLastOccurrence _ entry => cleared entry = true
  | _ => True

/-- What a caller is promised. -/
structure Grant.Ok (g : Grant ι) : Prop where
  kind_eq : g.buffer.kind = g.req.kind
  capacity_eq : (g.buffer.capacity : Int) = adjustSize g.req.size.toInt.toNat
  size_le : g.req.size.toInt ≤ g.buffer.capacity
  rewound : g.buffer.kind = .direct → g.view = (0, g.buffer.capacity)

structure Inv (s : State ι τ) : Prop where
  exclusive : Exclusive s.owned
  serial_lt : ∀ o, ∀ b ∈ s.owned o, b.serial < s.serial
  map_ok : ∀ kind key q, s.map kind key = some q → q.kind = kind ∧ q.key = key
  entry_ok : ∀ q, ∀ entry ∈ s.queues q, Entry s.cleared s.view q entry
  call_ok : ∀ t, (s.calls t).Ok s.cleared s.view
  grant_ok : ∀ g ∈ s.grants, g.Ok
  purged_ok : ∀ p ∈ s.purged, p.2 = true

theorem inv_initial : Inv (initial : State ι τ) where
  exclusive := by
    refine Exclusive.nil.shrink fun o => ?_
    cases o <;> exact List.Subperm.refl _
  serial_lt := by
    intro o b hb
    cases o <;> exact absurd hb (List.not_mem_nil)
  map_ok := by simp [initial]
  entry_ok := by simp [initial]
  call_ok := fun _ => trivial
  grant_ok := by simp [initial]
  purged_ok := by simp [initial]

/-! ## Small facts -/

@[simp] theorem live_nil (cleared : SoftReference → Bool) : live cleared [] = [] := rfl

theorem live_cons (cleared : SoftReference → Bool) (entry : SoftReference)
    (entries : List SoftReference) :
    live cleared (entry :: entries) = live cleared [entry] ++ live cleared entries := by
  simp only [live, List.filter_cons]
  split <;> simp

theorem live_of_cleared {cleared : SoftReference → Bool} {entry : SoftReference}
    (h : cleared entry = true) : live cleared [entry] = [] := by
  simp [live, h]

theorem live_of_not_cleared {cleared : SoftReference → Bool} {entry : SoftReference}
    (h : cleared entry = false) : live cleared [entry] = [entry.referent] := by
  simp [live, h]

theorem live_sublist {cleared : SoftReference → Bool} {es es' : List SoftReference}
    (h : es.Sublist es') : (live cleared es).Sublist (live cleared es') :=
  (h.filter _).map _

theorem mem_live {cleared : SoftReference → Bool} {entries : List SoftReference}
    {entry : SoftReference} (h : entry ∈ entries) (hc : cleared entry = false) :
    entry.referent ∈ live cleared entries :=
  List.mem_map_of_mem (List.mem_filter.mpr ⟨h, by simp [hc]⟩)

theorem adjustedSize_eq (req : Request ι) :
    (req.adjustedSize : Int) = adjustSize req.size.toInt.toNat ∧
      req.size.toInt ≤ req.adjustedSize := by
  have hlt := req.size.toInt_lt
  have hpos := req.pos
  have hmax := @max_le_adjustSize req.size.toInt.toNat (by omega) (by omega)
  simp only [Request.adjustedSize]
  omega

/-! ## What changes hands -/

section
variable {s s' : State ι τ}

/-- An owner no step touches has what it had. -/
theorem subperm_of_eq (hcleared : s'.cleared = s.cleared) {o : Owner ι τ}
    (hheld : ∀ c, o = .client c → s'.held c = s.held c)
    (hcalls : ∀ t, o = .thread t → s'.calls t = s.calls t)
    (hqueues : ∀ q, o = .queue q → s'.queues q = s.queues q) :
    (s'.owned o).Subperm (s.owned o) := by
  have heq : s'.owned o = s.owned o := by
    cases o with
    | client c => exact hheld c rfl
    | thread t => simp only [State.owned, hcalls t rfl, hcleared]
    | queue q => simp only [State.owned, hqueues q rfl, hcleared]
  rw [heq]

theorem Inv.shrink (h : Inv s) (hsub : ∀ o, (s'.owned o).Subperm (s.owned o))
    (hserial : s.serial ≤ s'.serial) :
    Exclusive s'.owned ∧ ∀ o, ∀ b ∈ s'.owned o, b.serial < s'.serial := by
  refine ⟨h.exclusive.shrink hsub, ?_⟩
  intro o b hb
  exact Nat.lt_of_lt_of_le (h.serial_lt o b ((hsub o).subset hb)) hserial

theorem Inv.transfer (h : Inv s) {o₁ o₂ : Owner ι τ} (hne : o₁ ≠ o₂) {b : Buffer}
    (h₁ : (b :: s'.owned o₁).Subperm (s.owned o₁)) (h₂ : (s'.owned o₂).Subperm (b :: s.owned o₂))
    (hrest : ∀ o, o ≠ o₁ → o ≠ o₂ → (s'.owned o).Subperm (s.owned o))
    (hserial : s.serial ≤ s'.serial) :
    Exclusive s'.owned ∧ ∀ o, ∀ b ∈ s'.owned o, b.serial < s'.serial := by
  refine ⟨h.exclusive.transfer hne h₁ h₂ hrest, ?_⟩
  have hb := h.serial_lt o₁ b (h₁.subset List.mem_cons_self)
  intro o x hx
  refine Nat.lt_of_lt_of_le ?_ hserial
  by_cases ho₁ : o = o₁
  · subst ho₁
    exact h.serial_lt o x (h₁.subset (List.mem_cons_of_mem _ hx))
  · by_cases ho₂ : o = o₂
    · subst ho₂
      rcases List.mem_cons.mp (h₂.subset hx) with rfl | hx
      · exact hb
      · exact h.serial_lt o x hx
    · exact h.serial_lt o x ((hrest o ho₁ ho₂).subset hx)

/-- A new object belongs to nobody yet. -/
theorem Inv.insert (h : Inv s) {o₁ : Owner ι τ} {b : Buffer} (hb : b.serial = s.serial)
    (h₁ : (s'.owned o₁).Subperm (b :: s.owned o₁))
    (hrest : ∀ o, o ≠ o₁ → (s'.owned o).Subperm (s.owned o)) (hserial : s.serial < s'.serial) :
    Exclusive s'.owned ∧ ∀ o, ∀ b ∈ s'.owned o, b.serial < s'.serial := by
  constructor
  · refine h.exclusive.insert (fun o hmem => ?_) h₁ hrest
    exact absurd (h.serial_lt o b hmem) (by omega)
  · intro o x hx
    by_cases ho : o = o₁
    · subst ho
      rcases List.mem_cons.mp (h₁.subset hx) with rfl | hx
      · omega
      · exact Nat.lt_trans (h.serial_lt o x hx) hserial
    · exact Nat.lt_trans (h.serial_lt o x ((hrest o ho).subset hx)) hserial

theorem Rewound.update {view : Buffer → Nat × Nat} {b : Buffer} (h : Rewound view b) (v : Buffer) :
    Rewound (Function.update view v (0, v.capacity)) b := by
  intro hb
  by_cases hv : b = v
  · rw [hv, Function.update_self]
  · rw [Function.update_of_ne hv]
    exact h hb

theorem Entry.mono {cleared cleared' : SoftReference → Bool} {view view' : Buffer → Nat × Nat}
    {q : Deque} {entry : SoftReference} (h : Entry cleared view q entry)
    (hview : cleared' entry = false → cleared entry = false ∧
      (Rewound view entry.referent → Rewound view' entry.referent)) :
    Entry cleared' view' q entry :=
  ⟨h.kind_eq, h.capacity_eq, fun hc => (hview hc).2 (h.rewound (hview hc).1)⟩

/-- A call relies on nothing but what it carries. -/
theorem Call.Ok.mono {cleared cleared' : SoftReference → Bool} {view view' : Buffer → Nat × Nat}
    {c : Call ι} (h : c.Ok cleared view) (hcleared : ∀ e, cleared e = true → cleared' e = true)
    (hview : ∀ b ∈ c.carried cleared, Rewound view b → Rewound view' b) :
    c.Ok cleared' view' := by
  cases c with
  | entryGet req q entry =>
    refine ⟨h.1, h.2.mono fun hc => ?_⟩
    have hc' : cleared entry = false := by
      by_contra hne
      rw [hcleared entry (by simpa using hne)] at hc
      cases hc
    exact ⟨hc', hview _ (mem_live (List.mem_singleton_self _) hc')⟩
  | pollFirst => exact h
  | getQueue value => exact hview value (List.mem_singleton_self _) h
  | addFirst value q => exact ⟨h.1, hview value (List.mem_singleton_self _) h.2⟩
  | removeLastOccurrence q entry => exact hcleared entry h
  | _ => trivial

end

/-! ## The steps keep the invariant -/

section
variable [DecidableEq τ] {t : τ}

/-- The other threads stand where they stood. -/
theorem ok_update {cleared : SoftReference → Bool} {view : Buffer → Nat × Nat} {c : Call ι}
    {calls : τ → Call ι} (hc : c.Ok cleared view) (hrest : ∀ t', (calls t').Ok cleared view)
    (t' : τ) : (Function.update calls t c t').Ok cleared view := by
  by_cases ht : t' = t
  · subst ht
    rwa [Function.update_self]
  · rw [Function.update_of_ne ht]
    exact hrest t'

theorem carried_update {cleared : SoftReference → Bool} {c : Call ι} {calls : τ → Call ι}
    (hc : (c.carried cleared).Subperm ((calls t).carried cleared)) (t' : τ) :
    ((Function.update calls t c t').carried cleared).Subperm ((calls t').carried cleared) := by
  by_cases ht : t' = t
  · subst ht
    rwa [Function.update_self]
  · rw [Function.update_of_ne ht]

end

section
variable {s : State ι τ}

/-- A new deque is empty. -/
theorem Inv.putIfAbsent (h : Inv s) {kind : Kind} {key : Nat} {queue : Deque}
    (hqueue : queue.kind = kind ∧ queue.key = key) :
    Inv { s with
      map := Function.update s.map kind (Function.update (s.map kind) key (some queue))
      queues := Function.update s.queues queue []
      serial := s.serial + 1 } := by
  set s' : State ι τ := { s with
      map := Function.update s.map kind (Function.update (s.map kind) key (some queue))
      queues := Function.update s.queues queue []
      serial := s.serial + 1 } with hs'
  have howned : ∀ o, (s'.owned o).Subperm (s.owned o) := by
    intro o
    by_cases ho : o = .queue queue
    · subst ho
      simp only [hs', State.owned, Function.update_self, live_nil]
      exact List.nil_subperm
    · exact @subperm_of_eq _ _ s s' rfl o (fun _ _ => rfl) (fun _ _ => rfl)
        (fun q hq => Function.update_of_ne (fun heq => ho (by rw [hq, heq])) _ _)
  obtain ⟨hex, hlt⟩ := h.shrink howned (Nat.le_succ _)
  refine { h with exclusive := hex, serial_lt := hlt, map_ok := ?_, entry_ok := ?_ }
  · intro kind' key' q hq
    simp only [hs', Function.update_apply] at hq
    split at hq
    · rename_i hkind
      subst hkind
      simp only [Function.update_apply] at hq
      split at hq
      · rename_i hkey
        cases hq
        exact ⟨hqueue.1, hqueue.2.trans hkey.symm⟩
      · exact h.map_ok _ _ _ hq
    · exact h.map_ok _ _ _ hq
  · intro q entry hentry
    simp only [hs', Function.update_apply] at hentry
    split at hentry
    · exact absurd hentry (List.not_mem_nil)
    · exact h.entry_ok q entry hentry

/-- `ByteBuffer.clear`. -/
theorem Inv.clear (h : Inv s) (value : Buffer) :
    Inv { s with view := Function.update s.view value (0, value.capacity) } := by
  refine { h with exclusive := ?_, serial_lt := ?_, entry_ok := ?_, call_ok := ?_ }
  · exact h.exclusive.shrink fun o => by cases o <;> exact List.Subperm.refl _
  · intro o b hb
    exact h.serial_lt o b (by cases o <;> exact hb)
  · intro q entry hentry
    exact (h.entry_ok q entry hentry).mono fun hc => ⟨hc, fun hr => hr.update value⟩
  · intro t'
    exact (h.call_ok t').mono (fun _ h => h) fun b _ hr => hr.update value

/-- The purge loop takes a cleared entry out of its queue. -/
theorem Inv.removeLastOccurrence (h : Inv s) {queue : Deque} {entry : SoftReference}
    (hcleared : s.cleared entry = true) :
    Inv { s with
      queues := Function.update s.queues queue
        (CachingBufferPool.removeLastOccurrence entry (s.queues queue))
      purged := if entry ∈ s.queues queue then s.purged ++ [(entry, s.cleared entry)]
        else s.purged } := by
  set s' : State ι τ := { s with
      queues := Function.update s.queues queue
        (CachingBufferPool.removeLastOccurrence entry (s.queues queue))
      purged := if entry ∈ s.queues queue then s.purged ++ [(entry, s.cleared entry)]
        else s.purged } with hs'
  have hsub : (CachingBufferPool.removeLastOccurrence entry (s.queues queue)).Sublist
      (s.queues queue) := by
    have hrev := (List.erase_sublist (a := entry) (l := (s.queues queue).reverse)).reverse
    rwa [List.reverse_reverse] at hrev
  have howned : ∀ o, (s'.owned o).Subperm (s.owned o) := by
    intro o
    by_cases ho : o = .queue queue
    · subst ho
      simp only [hs', State.owned, Function.update_self]
      exact (live_sublist hsub).subperm
    · exact @subperm_of_eq _ _ s s' rfl o (fun _ _ => rfl) (fun _ _ => rfl)
        (fun q hq => Function.update_of_ne (fun heq => ho (by rw [hq, heq])) _ _)
  obtain ⟨hex, hlt⟩ := h.shrink howned (Nat.le_refl _)
  refine { h with exclusive := hex, serial_lt := hlt, entry_ok := ?_, purged_ok := ?_ }
  · intro q e he
    simp only [hs', Function.update_apply] at he
    split at he
    · rename_i heq
      subst heq
      exact h.entry_ok q e (hsub.subset he)
    · exact h.entry_ok q e he
  · intro p hp
    simp only [hs'] at hp
    split at hp
    · rcases List.mem_append.mp hp with hp | hp
      · exact h.purged_ok p hp
      · rw [List.mem_singleton.mp hp]
        exact hcleared
    · exact h.purged_ok p hp

/-- The collector may clear any reference at any time. -/
theorem Inv.collect (h : Inv s) (entry : SoftReference) :
    Inv { s with cleared := Function.update s.cleared entry true } := by
  have hmono : ∀ {e}, Function.update s.cleared entry true e = false → s.cleared e = false := by
    intro e he
    rw [Function.update_apply] at he
    split at he
    · cases he
    · exact he
  have hlive : ∀ es, (live (Function.update s.cleared entry true) es).Sublist
      (live s.cleared es) := by
    intro es
    refine List.Sublist.map _ (List.monotone_filter_right es fun e he => ?_)
    simp only [Bool.not_eq_true'] at he ⊢
    exact hmono he
  have hcarried : ∀ call : Call ι, (call.carried (Function.update s.cleared entry true)).Sublist
      (call.carried s.cleared) := by
    intro call
    cases call with
    | entryGet => exact hlive _
    | _ => exact List.Sublist.refl _
  obtain ⟨hex, hlt⟩ := @Inv.shrink _ _ s
    { s with cleared := Function.update s.cleared entry true } h (fun o => by
      cases o with
      | client c => exact List.Subperm.refl _
      | thread t => exact (hcarried _).subperm
      | queue q => exact (hlive _).subperm) (Nat.le_refl _)
  refine { h with exclusive := hex, serial_lt := hlt, entry_ok := ?_, call_ok := ?_ }
  · intro q e he
    exact (h.entry_ok q e he).mono fun hc => ⟨hmono hc, fun hr => hr⟩
  · intro t
    refine (h.call_ok t).mono (fun e he => ?_) (fun _ _ hr => hr)
    by_contra hne
    rw [hmono (by simpa using hne)] at he
    cases he

/-- A client moves the position and the limit of a buffer it holds: nobody else
has it. -/
theorem Inv.use (h : Inv s) {c : ι} {b : Buffer} (hb : b ∈ s.held c) (p : Nat × Nat) :
    Inv { s with view := Function.update s.view b p } := by
  have hne : ∀ {o : Owner ι τ} {x : Buffer}, (∀ c, o ≠ .client c) → x ∈ s.owned o →
      Rewound s.view x → Rewound (Function.update s.view b p) x := by
    intro o x ho hx hr hd
    have hxb : x ≠ b := by
      rintro rfl
      exact ho c (@Exclusive.unique _ _ _ h.exclusive o (.client c) x hx hb)
    rw [Function.update_of_ne hxb]
    exact hr hd
  refine { h with exclusive := ?_, serial_lt := ?_, entry_ok := ?_, call_ok := ?_ }
  · exact h.exclusive.shrink fun o => by cases o <;> exact List.Subperm.refl _
  · intro o x hx
    exact h.serial_lt o x (by cases o <;> exact hx)
  · intro q e he
    refine (h.entry_ok q e he).mono fun hc => ⟨hc, ?_⟩
    exact hne (o := .queue q) (by simp) (mem_live he hc)
  · intro t
    refine (h.call_ok t).mono (fun _ he => he) fun x hx => ?_
    exact hne (o := .thread t) (by simp) hx

end

section
variable [DecidableEq τ] {s : State ι τ} {t : τ}

/-- A thread goes on with no more than it carried. -/
theorem Inv.goto (h : Inv s) {c : Call ι}
    (hcarried : (c.carried s.cleared).Subperm ((s.calls t).carried s.cleared))
    (hok : c.Ok s.cleared s.view) : Inv (s.goto t c) := by
  have howned : ∀ o, ((s.goto t c).owned o).Subperm (s.owned o) := by
    intro o
    cases o with
    | client c' => exact List.Subperm.refl _
    | thread t' => exact carried_update hcarried t'
    | queue q => exact List.Subperm.refl _
  obtain ⟨hex, hlt⟩ := h.shrink howned (Nat.le_refl _)
  exact { h with exclusive := hex, serial_lt := hlt, call_ok := ok_update hok h.call_ok }

/-- The first entry of a queue goes to the thread that polls. -/
theorem Inv.pollFirst (h : Inv s) {req : Request ι} {queue : Deque}
    (hcall : s.calls t = .pollFirst req queue) {entry : SoftReference} {rest : List SoftReference}
    (hqueue : s.queues queue = entry :: rest) :
    Inv ({ s with queues := Function.update s.queues queue rest }.goto t
      (.entryGet req queue entry)) := by
  set s' := { s with queues := Function.update s.queues queue rest }.goto t
    (.entryGet req queue entry) with hs'
  have hthread : s'.owned (.thread t) = live s.cleared [entry] := by
    simp only [hs', State.owned, State.goto, Function.update_self, Call.carried]
  have hq : s'.owned (.queue queue) = live s.cleared rest := by
    simp only [hs', State.owned, State.goto, Function.update_self]
  have hq₀ : s.owned (.queue queue) = live s.cleared [entry] ++ live s.cleared rest := by
    rw [State.owned, hqueue, live_cons]
  have hrest : ∀ o, o ≠ .queue queue → o ≠ .thread t → (s'.owned o).Subperm (s.owned o) :=
    fun o ho₁ ho₂ => @subperm_of_eq _ _ s s' rfl o (fun _ _ => rfl)
      (fun t' ht => Function.update_of_ne (fun heq => ho₂ (by rw [ht, heq])) _ _)
      (fun q hq => Function.update_of_ne (fun heq => ho₁ (by rw [hq, heq])) _ _)
  have hboth : Exclusive s'.owned ∧ ∀ o, ∀ b ∈ s'.owned o, b.serial < s'.serial := by
    cases hc : s.cleared entry with
    | true =>
      refine h.shrink (fun o => ?_) (Nat.le_refl _)
      by_cases ho₁ : o = .queue queue
      · subst ho₁
        rw [hq, hq₀]
        exact (List.sublist_append_right _ _).subperm
      · by_cases ho₂ : o = .thread t
        · subst ho₂
          rw [hthread, live_of_cleared hc]
          exact List.nil_subperm
        · exact hrest o ho₁ ho₂
    | false =>
      have hlive := live_of_not_cleared hc
      refine @Inv.transfer _ _ s s' h (.queue queue) (.thread t) (by simp) entry.referent
        ?_ ?_ hrest (Nat.le_refl _)
      · rw [hq, hq₀, hlive]
        exact List.Subperm.refl _
      · rw [hthread, hlive]
        exact (List.sublist_append_left [entry.referent] _).subperm
  have hpoll := h.call_ok t
  rw [hcall] at hpoll
  refine { h with exclusive := hboth.1, serial_lt := hboth.2, entry_ok := ?_, call_ok := ?_ }
  · intro q e he
    simp only [hs', State.goto, Function.update_apply] at he
    split at he
    · rename_i heq
      subst heq
      exact h.entry_ok q e (by rw [hqueue]; exact List.mem_cons_of_mem _ he)
    · exact h.entry_ok q e he
  · refine ok_update ⟨hpoll, ?_⟩ h.call_ok
    exact h.entry_ok queue entry (by rw [hqueue]; exact List.mem_cons_self)

/-- A buffer given back goes to the front of its queue. -/
theorem Inv.addFirst (h : Inv s) {value : Buffer} {queue : Deque}
    (hcall : s.calls t = .addFirst value queue) {entry : SoftReference}
    (hentry : entry.referent = value) :
    Inv ({ s with
      queues := Function.update s.queues queue (entry :: s.queues queue)
      serial := s.serial + 1 }.goto t (.peekLast queue)) := by
  set s' := { s with
      queues := Function.update s.queues queue (entry :: s.queues queue)
      serial := s.serial + 1 }.goto t (.peekLast queue) with hs'
  have hok := h.call_ok t
  rw [hcall] at hok
  have hnew : Entry s.cleared s.view queue entry := by
    refine ⟨?_, ?_, fun _ => ?_⟩
    · rw [hentry]; exact hok.1.1
    · rw [hentry]; exact hok.1.2
    · rw [hentry]; exact hok.2
  have hthread : s'.owned (.thread t) = [] := by
    simp only [hs', State.owned, State.goto, Function.update_self, Call.carried]
  have hthread₀ : s.owned (.thread t) = [value] := by
    simp only [State.owned, hcall, Call.carried]
  have hq : s'.owned (.queue queue) = live s.cleared [entry] ++ s.owned (.queue queue) := by
    simp only [hs', State.owned, State.goto, Function.update_self]
    exact live_cons _ _ _
  have hlive : (live s.cleared [entry]).Sublist [value] := by
    rw [← hentry]
    exact (List.filter_sublist (l := [entry])).map SoftReference.referent
  have hrest : ∀ o, o ≠ .thread t → o ≠ .queue queue → (s'.owned o).Subperm (s.owned o) :=
    fun o ho₁ ho₂ => @subperm_of_eq _ _ s s' rfl o (fun _ _ => rfl)
      (fun t' ht => Function.update_of_ne (fun heq => ho₁ (by rw [ht, heq])) _ _)
      (fun q hq => Function.update_of_ne (fun heq => ho₂ (by rw [hq, heq])) _ _)
  obtain ⟨hex, hlt⟩ := @Inv.transfer _ _ s s' h (.thread t) (.queue queue) (by simp) value
    (by rw [hthread, hthread₀]) (by rw [hq]; exact (hlive.append_right _).subperm)
    hrest (Nat.le_succ _)
  refine { h with
    exclusive := hex, serial_lt := hlt, entry_ok := ?_, call_ok := ok_update trivial h.call_ok }
  intro q e he
  simp only [hs', State.goto, Function.update_apply] at he
  split at he
  · rename_i heq
    subst heq
    rcases List.mem_cons.mp he with rfl | he
    · exact hnew
    · exact h.entry_ok q e he
  · exact h.entry_ok q e he

end

theorem Grant.ok_of_size {req : Request ι} {b : Buffer} {view : Nat × Nat}
    (hkind : b.kind = req.kind) (hcapacity : b.capacity = req.adjustedSize)
    (hview : b.kind = .direct → view = (0, b.capacity)) : (⟨req, b, view⟩ : Grant ι).Ok where
  kind_eq := hkind
  capacity_eq := by rw [hcapacity]; exact (adjustedSize_eq req).1
  size_le := by rw [hcapacity]; exact (adjustedSize_eq req).2
  rewound := hview

theorem mem_grants {g : Grant ι} {gs : List (Grant ι)} (hg : g.Ok) (h : ∀ g' ∈ gs, g'.Ok) :
    ∀ g' ∈ gs ++ [g], g'.Ok := by
  intro g' hg'
  rcases List.mem_append.mp hg' with hg' | hg'
  · exact h g' hg'
  · rw [List.mem_singleton.mp hg']
    exact hg

/-- What a thread relies on where it goes, and that it carries nothing new. -/
theorem Inv.reads {s : State ι τ} (h : Inv s) {c c' : Call ι} (hok : c.Ok s.cleared s.view)
    (hreads : Reads s c c') :
    c'.Ok s.cleared s.view ∧ (c'.carried s.cleared).Subperm (c.carried s.cleared) := by
  cases hreads with
  | get hmap | getAgain hmap => exact ⟨h.map_ok _ _ _ hmap, List.nil_subperm⟩
  | entryCleared => exact ⟨hok.1, List.nil_subperm⟩
  | getQueue hmap =>
    obtain ⟨hkind, hkey⟩ := h.map_ok _ _ _ hmap
    exact ⟨⟨⟨hkind.symm, hkey.symm⟩, hok⟩, List.Subperm.refl _⟩
  | lastCleared hcleared => exact ⟨hcleared, List.nil_subperm⟩
  | _ => exact ⟨trivial, List.nil_subperm⟩

section
variable [DecidableEq ι] [DecidableEq τ] {s : State ι τ} {t : τ}

/-- A call of `releaseArray` or `releaseDirect` begins. -/
theorem Inv.release (h : Inv s) {c : ι} {b : Buffer} (hb : b ∈ s.held c) {call : Call ι}
    (hcarried : call.carried s.cleared = [b]) (hok : call.Ok s.cleared s.view) :
    Inv ({ s with held := Function.update s.held c ((s.held c).erase b) }.goto t call) := by
  set s' := { s with held := Function.update s.held c ((s.held c).erase b) }.goto t call with hs'
  have hclient : s'.owned (.client c) = (s.held c).erase b := Function.update_self ..
  have hthread : s'.owned (.thread t) = [b] := by
    simp only [hs', State.owned, State.goto, Function.update_self, hcarried]
  have hrest : ∀ o, o ≠ .client c → o ≠ .thread t → (s'.owned o).Subperm (s.owned o) :=
    fun o ho₁ ho₂ => @subperm_of_eq _ _ s s' rfl o
      (fun c' hc => Function.update_of_ne (fun heq => ho₁ (by rw [hc, heq])) _ _)
      (fun t' ht => Function.update_of_ne (fun heq => ho₂ (by rw [ht, heq])) _ _) (fun _ _ => rfl)
  obtain ⟨hex, hlt⟩ := @Inv.transfer _ _ s s' h (.client c) (.thread t) (by simp) b
    (by rw [hclient]; exact (List.perm_cons_erase hb).symm.subperm)
    (by rw [hthread]; exact (List.sublist_append_left [b] _).subperm) hrest (Nat.le_refl _)
  exact { h with exclusive := hex, serial_lt := hlt, call_ok := ok_update hok h.call_ok }

/-- What `grant` does to the client and to the thread. -/
theorem owned_grant (s : State ι τ) (t : τ) (req : Request ι) (b : Buffer) :
    (s.grant t req b).owned (.client req.client) = b :: s.owned (.client req.client) ∧
      (s.grant t req b).owned (.thread t) = [] ∧
      ∀ o, o ≠ .client req.client → o ≠ .thread t →
        ((s.grant t req b).owned o).Subperm (s.owned o) := by
  refine ⟨Function.update_self .., ?_, fun o ho₁ ho₂ => ?_⟩
  · simp only [State.owned, State.grant, Function.update_self, Call.carried]
  · exact @subperm_of_eq _ _ s (s.grant t req b) rfl o
      (fun c' hc => Function.update_of_ne (fun heq => ho₁ (by rw [hc, heq])) _ _)
      (fun t' ht => Function.update_of_ne (fun heq => ho₂ (by rw [ht, heq])) _ _) (fun _ _ => rfl)

/-- A pooled buffer goes to the client. -/
theorem Inv.grant (h : Inv s) {req : Request ι} {queue : Deque} {entry : SoftReference}
    (hcall : s.calls t = .entryGet req queue entry) (hc : s.cleared entry = false) :
    Inv (s.grant t req entry.referent) := by
  have hok := h.call_ok t
  rw [hcall] at hok
  obtain ⟨⟨hkind, hkey⟩, hentry⟩ := hok
  obtain ⟨hclient, hthread, hrest⟩ := owned_grant s t req entry.referent
  have hthread₀ : s.owned (.thread t) = [entry.referent] := by
    simp only [State.owned, hcall, Call.carried, live_of_not_cleared hc]
  obtain ⟨hex, hlt⟩ := @Inv.transfer _ _ s (s.grant t req entry.referent) h (.thread t)
    (.client req.client) (by simp) entry.referent (by rw [hthread, hthread₀]) (by rw [hclient])
    (fun o ho₁ ho₂ => hrest o ho₂ ho₁) (Nat.le_refl _)
  refine { h with
    exclusive := hex, serial_lt := hlt, grant_ok := mem_grants ?_ h.grant_ok
    call_ok := ok_update trivial h.call_ok }
  exact Grant.ok_of_size (hentry.kind_eq.trans hkind) (hentry.capacity_eq.trans hkey)
    (hentry.rewound hc)

/-- A new buffer goes to the client. -/
theorem Inv.create (h : Inv s) {req : Request ι} {b : Buffer} (hkind : b.kind = req.kind)
    (hcapacity : b.capacity = req.adjustedSize) (hserial : b.serial = s.serial) :
    Inv ({ s with
      view := Function.update s.view b (0, b.capacity), serial := s.serial + 1 }.grant t req b) := by
  have h₁ := h.clear b
  set s₁ : State ι τ := { s with
    view := Function.update s.view b (0, b.capacity), serial := s.serial + 1 } with hs₁
  obtain ⟨hclient, hthread, hrest⟩ := owned_grant s₁ t req b
  have hsame : ∀ o, s₁.owned o = s.owned o := fun o => by cases o <;> rfl
  obtain ⟨hex, hlt⟩ := @Inv.insert _ _ s (s₁.grant t req b) h (.client req.client) b hserial
    (by rw [hclient, hsame])
    (fun o ho => by
      by_cases ht : o = .thread t
      · subst ht
        rw [hthread]
        exact List.nil_subperm
      · have := hrest o ho ht
        rwa [hsame] at this) (Nat.lt_succ_self _)
  refine { h₁ with
    exclusive := hex, serial_lt := hlt, grant_ok := mem_grants ?_ h.grant_ok
    call_ok := ok_update trivial h₁.call_ok }
  refine Grant.ok_of_size hkind hcapacity fun _ => ?_
  simp only [hs₁, Function.update_self]

/-- Every operation of a thread keeps the invariant. -/
theorem Inv.advance (h : Inv s) {s' : State ι τ} (hstep : advance s t = some s') : Inv s' := by
  have hok := h.call_ok t
  rcases advance_cases hstep with ⟨c, hreads, rfl⟩ | hwrites
  · obtain ⟨hc, hcarried⟩ := h.reads hok hreads
    exact h.goto hcarried hc
  cases hwrites with
  | @putIfAbsent req hcall hnone =>
    have hput := @Inv.putIfAbsent _ _ s h req.kind req.adjustedSize
      ⟨req.kind, req.adjustedSize, s.serial⟩ ⟨rfl, rfl⟩
    exact hput.goto List.nil_subperm trivial
  | pollFirst hcall hqueue => exact h.pollFirst hcall hqueue
  | entryGet hcall hcleared => exact h.grant hcall hcleared
  | create hcall => exact h.create rfl rfl rfl
  | @clear value hcall =>
    refine (h.clear value).goto ?_ fun _ => Function.update_self ..
    simp only [hcall, Call.carried]
    exact List.Subperm.refl _
  | addFirst hcall => exact h.addFirst hcall rfl
  | removeLastOccurrence hcall =>
    rw [hcall] at hok
    exact (h.removeLastOccurrence hok).goto List.nil_subperm trivial

/-- Every step of the system does. -/
theorem Inv.step (h : Inv s) {e : Event ι τ} {s' : State ι τ} (hstep : step s e = some s') :
    Inv s' := by
  cases e with
  | allocate t c kind size =>
    simp only [CachingBufferPool.step] at hstep
    split at hstep
    · split at hstep
      · cases hstep
        exact h.goto List.nil_subperm trivial
      · cases hstep
        exact h
    · cases hstep
  | release t c kind buffer =>
    simp only [CachingBufferPool.step] at hstep
    split at hstep
    · split at hstep
      · cases hstep
        exact h
      · rename_i b
        split at hstep
        · rename_i hb
          obtain ⟨hheld, hkind⟩ := hb
          cases hstep
          by_cases hd : kind = .direct
          · rw [if_pos hd]
            exact h.release hheld rfl trivial
          · rw [if_neg hd]
            exact h.release hheld rfl fun hd' => absurd (hkind.symm.trans hd') hd
        · cases hstep
    · cases hstep
  | advance t => exact h.advance hstep
  | outOfMemory t =>
    simp only [CachingBufferPool.step] at hstep
    split at hstep
    · cases hstep
      exact h.goto List.nil_subperm trivial
    · cases hstep
  | use c b position limit =>
    simp only [CachingBufferPool.step] at hstep
    split at hstep
    · rename_i hb
      cases hstep
      exact h.use hb.1 _
    · cases hstep
  | collect entry =>
    cases hstep
    exact h.collect entry

end

/-! ## What the clients see -/

/-- No buffer is held twice, every allocation has returned what was asked for,
and purging has removed nothing but cleared references. -/
structure Safe (s : State ι τ) : Prop where
  one_holder : ∀ c c' b, b ∈ s.held c → b ∈ s.held c' → c = c'
  once : ∀ c, (s.held c).Nodup
  granted : ∀ g ∈ s.grants, g.Ok
  purged : ∀ p ∈ s.purged, p.2 = true

theorem Inv.safe {s : State ι τ} (h : Inv s) : Safe s where
  one_holder c c' b hb hb' := by
    have heq := @Exclusive.unique _ _ _ h.exclusive (.client c) (.client c') b hb hb'
    cases heq
    rfl
  once c := h.exclusive.nodup (.client c)
  granted := h.grant_ok
  purged := h.purged_ok

/-- Whatever clients do with the buffers they hold, however their threads are
interleaved and whatever the collector clears, the pool is safe. -/
theorem safe_of_run {ι τ : Type} [DecidableEq ι] [DecidableEq τ] {events : List (Event ι τ)}
    {s : State ι τ} (h : Steps.run step initial events = some s) : Safe s :=
  (Steps.run_invariant Inv (fun _ _ _ hs hstep => hs.step hstep) inv_initial h).safe

/-- One client gives an array back and another one gets it. -/
def reuse : List (Event Nat Nat) :=
  [.allocate 0 0 .array 5000] ++ List.replicate 5 (.advance 0) ++
    [.release 0 0 .array (some ⟨.array, 6144, 1⟩)] ++ List.replicate 2 (.advance 0) ++
    [.allocate 1 1 .array 6000] ++ List.replicate 3 (.advance 1) ++ [.advance 0]

theorem safe_of_run_reuse :
    ∃ s, Steps.run step initial reuse = some s ∧ s.held 1 = [⟨.array, 6144, 1⟩] ∧ Safe s := by
  have hrun : (Steps.run step initial reuse).map (fun s => s.held 1) =
      some [⟨.array, 6144, 1⟩] := by decide +kernel
  obtain ⟨s, hs, hheld⟩ := Option.map_eq_some_iff.mp hrun
  exact ⟨s, hs, hheld, safe_of_run hs⟩

end SnappyJava.CachingBufferPool
