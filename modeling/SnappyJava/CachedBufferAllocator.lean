import SnappyJava.Lib.Ownership
import SnappyJava.Lib.Steps
import SnappyJava.SnappyOutputStream

/-! `CachedBufferAllocator` and the block writers that take their buffers from
it. Constructors and `close` are several calls of allocators, each atomic by
its lock; those of different streams are interleaved in any way, and the
calls on one stream come one after another. -/

namespace SnappyJava.CachedBufferAllocator

open Ownership

/-! ## The objects -/

/-- The identity of a `byte[]`. -/
structure Buffer where
  length : Nat
  serial : Nat
  deriving DecidableEq, Repr

/-- The identity of a `CachedBufferAllocator`. -/
structure Allocator where
  bufferSize : Nat
  serial : Nat
  deriving DecidableEq, Repr

def inputSize (blockSize : Int) : Int := blockSize

def outputSize (blockSize : Int) : Int :=
  SnappyCodec.headerSize + 4 + Snappy.maxCompressedLength blockSize

/-- The constructor takes the block size and Java the two array sizes. -/
def Accepted (blockSize : Int) : Prop :=
  max (SnappyOutputStream.minBlockSize : Int) blockSize ≤ SnappyOutputStream.maxBlockSize ∧
    0 ≤ inputSize blockSize ∧ 0 ≤ outputSize blockSize

instance (blockSize : Int) : Decidable (Accepted blockSize) := inferInstanceAs (Decidable (_ ∧ _))

/-- Where a stream is in its life. -/
inductive Phase
  | unborn
  /-- In the constructor, before the call that is named. -/
  | getInput (blockSize : Int)
  | getOutput (blockSize : Int) (inputAllocator : Allocator)
  | allocateInput (blockSize : Int) (inputAllocator outputAllocator : Allocator)
  | allocateOutput (blockSize : Int) (inputAllocator outputAllocator : Allocator) (input : Buffer)
  | opened (blockSize : Int) (inputAllocator outputAllocator : Allocator) (input output : Buffer)
  /-- In the `finally` block of `close`, `closed` being set. -/
  | releaseInput (inputAllocator outputAllocator : Allocator) (input output : Buffer)
  | releaseOutput (outputAllocator : Allocator) (output : Buffer)
  | closed
  deriving DecidableEq, Repr

/-- `queueTable` without the references that have been cleared, the queue of
each allocator and the phase of each stream. -/
structure State (ι : Type) where
  queueTable : Nat → Option Allocator
  bufferQueue : Allocator → List Buffer
  streams : ι → Phase
  serial : Nat

variable {ι : Type}

def initial : State ι where
  queueTable _ := none
  bufferQueue _ := []
  streams _ := .unborn
  serial := 0

/-! ## The steps -/

def getAllocator (s : State ι) (bufferSize : Nat) : Allocator × State ι :=
  match s.queueTable bufferSize with
  | some result => (result, s)
  | none =>
    let result : Allocator := ⟨bufferSize, s.serial⟩
    (result, { s with
      queueTable := Function.update s.queueTable bufferSize (some result)
      bufferQueue := Function.update s.bufferQueue result []
      serial := s.serial + 1 })

/-- A pooled array is handed out whatever its size. -/
def allocate (s : State ι) (a : Allocator) (size : Nat) : Buffer × State ι :=
  match s.bufferQueue a with
  | [] => (⟨size, s.serial⟩, { s with serial := s.serial + 1 })
  | b :: rest => (b, { s with bufferQueue := Function.update s.bufferQueue a rest })

def release (s : State ι) (a : Allocator) (b : Buffer) : State ι :=
  { s with bufferQueue := Function.update s.bufferQueue a (s.bufferQueue a ++ [b]) }

inductive Event (ι : Type)
  | construct (i : ι) (blockSize : Int)
  /-- The next allocator call of a constructor or a `close`. -/
  | advance (i : ι)
  /-- An array cannot be had: the constructor throws. -/
  | outOfMemory (i : ι)
  /-- A write or a flush, which returns or throws: neither assigns the buffers. -/
  | use (i : ι)
  /-- `close`; on an open stream its flush returns or throws. -/
  | close (i : ι)
  /-- A reference of `queueTable` is cleared. -/
  | collect (bufferSize : Nat)

section
variable [DecidableEq ι]

def State.goto (s : State ι) (i : ι) (p : Phase) : State ι :=
  { s with streams := Function.update s.streams i p }

def advance (s : State ι) (i : ι) : Option (State ι) :=
  match s.streams i with
  | .getInput blockSize =>
    let (a, s) := getAllocator s (inputSize blockSize).toNat
    some (s.goto i (.getOutput blockSize a))
  | .getOutput blockSize inputAllocator =>
    let (a, s) := getAllocator s (outputSize blockSize).toNat
    some (s.goto i (.allocateInput blockSize inputAllocator a))
  | .allocateInput blockSize inputAllocator outputAllocator =>
    let (b, s) := allocate s inputAllocator (inputSize blockSize).toNat
    some (s.goto i (.allocateOutput blockSize inputAllocator outputAllocator b))
  | .allocateOutput blockSize inputAllocator outputAllocator input =>
    let (b, s) := allocate s outputAllocator (outputSize blockSize).toNat
    some (s.goto i (.opened blockSize inputAllocator outputAllocator input b))
  | .releaseInput inputAllocator outputAllocator input output =>
    some ((release s inputAllocator input).goto i (.releaseOutput outputAllocator output))
  | .releaseOutput outputAllocator output =>
    some ((release s outputAllocator output).goto i .closed)
  | _ => none

def step (s : State ι) : Event ι → Option (State ι)
  | .construct i blockSize =>
    if s.streams i = .unborn ∧ Accepted blockSize then some (s.goto i (.getInput blockSize))
    else none
  | .advance i => advance s i
  | .outOfMemory i =>
    match s.streams i with
    | .allocateInput _ _ _ => some (s.goto i .unborn)
    | .allocateOutput _ _ _ _ => some (s.goto i .unborn)
    | _ => none
  | .use i =>
    match s.streams i with
    | .opened _ _ _ _ _ => some s
    | .closed => some s
    | _ => none
  | .close i =>
    match s.streams i with
    | .opened _ inputAllocator outputAllocator input output =>
      some (s.goto i (.releaseInput inputAllocator outputAllocator input output))
    | .closed => some s
    | _ => none
  | .collect bufferSize =>
    some { s with queueTable := Function.update s.queueTable bufferSize none }

end

/-! ## Who has a buffer -/

inductive Owner (ι : Type)
  | stream (i : ι)
  | queue (a : Allocator)

def Phase.buffers : Phase → List Buffer
  | .allocateOutput _ _ _ input => [input]
  | .opened _ _ _ input output => [input, output]
  | .releaseInput _ _ input output => [input, output]
  | .releaseOutput _ output => [output]
  | _ => []

def State.owned (s : State ι) : Owner ι → List Buffer
  | .stream i => (s.streams i).buffers
  | .queue a => s.bufferQueue a

/-- The allocators and the buffers of a stream have the sizes it asked for. -/
def Phase.Sized : Phase → Prop
  | .getOutput blockSize ia => ia.bufferSize = (inputSize blockSize).toNat
  | .allocateInput blockSize ia oa =>
    ia.bufferSize = (inputSize blockSize).toNat ∧ oa.bufferSize = (outputSize blockSize).toNat
  | .allocateOutput blockSize ia oa input =>
    (ia.bufferSize = (inputSize blockSize).toNat ∧ oa.bufferSize = (outputSize blockSize).toNat) ∧
      input.length = ia.bufferSize
  | .opened blockSize ia oa input output =>
    (ia.bufferSize = (inputSize blockSize).toNat ∧ oa.bufferSize = (outputSize blockSize).toNat) ∧
      input.length = ia.bufferSize ∧ output.length = oa.bufferSize
  | .releaseInput ia oa input output =>
    input.length = ia.bufferSize ∧ output.length = oa.bufferSize
  | .releaseOutput oa output => output.length = oa.bufferSize
  | _ => True

structure Inv (s : State ι) : Prop where
  exclusive : Exclusive s.owned
  serial_lt : ∀ o, ∀ b ∈ s.owned o, b.serial < s.serial
  table_ok : ∀ k a, s.queueTable k = some a → a.bufferSize = k
  queue_ok : ∀ a, ∀ b ∈ s.bufferQueue a, b.length = a.bufferSize
  phase_ok : ∀ i, (s.streams i).Sized

theorem inv_initial : Inv (initial : State ι) where
  exclusive := by
    refine Exclusive.nil.shrink fun o => ?_
    cases o <;> exact List.Subperm.refl _
  serial_lt := by
    intro o b hb
    cases o <;> exact absurd hb (List.not_mem_nil)
  table_ok := by simp [initial]
  queue_ok := by simp [initial]
  phase_ok := fun _ => trivial

/-! ## The calls of an allocator -/

section
variable {s : State ι}

/-- `getAllocator` gives an allocator of the size asked for, and hands out no
buffer. -/
theorem Inv.getAllocator (h : Inv s) (k : Nat) :
    (CachedBufferAllocator.getAllocator s k).1.bufferSize = k ∧
      Inv (CachedBufferAllocator.getAllocator s k).2 ∧
      (CachedBufferAllocator.getAllocator s k).2.streams = s.streams := by
  unfold CachedBufferAllocator.getAllocator
  split
  · rename_i a ha
    exact ⟨h.table_ok k a ha, h, rfl⟩
  · refine ⟨rfl, ?_, rfl⟩
    have hsub : ∀ a b, b ∈ Function.update s.bufferQueue ⟨k, s.serial⟩ [] a →
        b ∈ s.bufferQueue a := by
      intro a b hb
      rw [Function.update_apply] at hb
      split at hb
      · exact absurd hb (List.not_mem_nil)
      · exact hb
    refine ⟨h.exclusive.shrink fun o => ?_, ?_, ?_, fun a b hb => h.queue_ok a b (hsub a b hb),
      h.phase_ok⟩
    · cases o with
      | stream i => exact List.Subperm.refl _
      | queue a =>
        simp only [State.owned, Function.update_apply]
        split
        · exact List.nil_subperm
        · exact List.Subperm.refl _
    · intro o b hb
      refine Nat.lt_succ_of_lt (h.serial_lt o b ?_)
      cases o with
      | stream i => exact hb
      | queue a => exact hsub a b hb
    · intro k' a ha
      simp only [Function.update_apply] at ha
      split at ha
      · rename_i hk
        cases ha
        exact hk.symm
      · exact h.table_ok k' a ha

/-- An owner no step touches has what it had. -/
theorem subperm_of_eq {s' : State ι} {o : Owner ι}
    (hstreams : ∀ i, o = .stream i → s'.streams i = s.streams i)
    (hqueues : ∀ a, o = .queue a → s'.bufferQueue a = s.bufferQueue a) :
    (s'.owned o).Subperm (s.owned o) := by
  have heq : s'.owned o = s.owned o := by
    cases o with
    | stream i => rw [State.owned, hstreams i rfl, State.owned]
    | queue a => exact hqueues a rfl
  rw [heq]

end

section
variable [DecidableEq ι] {s : State ι} {i : ι}

theorem sized_update {streams : ι → Phase} {p : Phase} (hp : p.Sized)
    (hrest : ∀ j, (streams j).Sized) (j : ι) : (Function.update streams i p j).Sized := by
  rw [Function.update_apply]
  split
  · exact hp
  · exact hrest j

/-- A stream goes on with no more than it had. -/
theorem Inv.goto (h : Inv s) {p : Phase} (hbuffers : p.buffers.Subperm (s.streams i).buffers)
    (hp : p.Sized) : Inv (s.goto i p) := by
  have hsub : ∀ o, ((s.goto i p).owned o).Subperm (s.owned o) := by
    intro o
    cases o with
    | stream j =>
      simp only [State.owned, State.goto, Function.update_apply]
      split
      · rename_i hj
        rwa [hj]
      · exact List.Subperm.refl _
    | queue a => exact List.Subperm.refl _
  exact { h with
    exclusive := h.exclusive.shrink hsub
    serial_lt := fun o b hb => h.serial_lt o b ((hsub o).subset hb)
    phase_ok := sized_update hp h.phase_ok }

/-- An array from the queue or a new one goes to the stream. -/
theorem Inv.allocate (h : Inv s) {a : Allocator} {size : Nat} (ha : a.bufferSize = size)
    {p : Buffer → Phase} (hbuffers : ∀ b, (p b).buffers.Subperm (b :: (s.streams i).buffers))
    (hp : ∀ b, b.length = a.bufferSize → (p b).Sized) :
    Inv ((CachedBufferAllocator.allocate s a size).2.goto i
      (p (CachedBufferAllocator.allocate s a size).1)) := by
  have hstream : ∀ (s₁ : State ι) b, (s₁.goto i (p b)).owned (.stream i) = (p b).buffers := by
    intro s₁ b
    simp only [State.owned, State.goto, Function.update_self]
  have hother : ∀ {s₁ : State ι} {b : Buffer} {o : Owner ι}, s₁.streams = s.streams →
      o ≠ .stream i → (∀ a', o = .queue a' → s₁.bufferQueue a' = s.bufferQueue a') →
      ((s₁.goto i (p b)).owned o).Subperm (s.owned o) := by
    intro s₁ b o hs₁ ho hq
    refine @subperm_of_eq _ s (s₁.goto i (p b)) o (fun j hj => ?_) hq
    rw [← hs₁]
    exact Function.update_of_ne (fun heq => ho (by rw [hj, heq])) _ _
  unfold CachedBufferAllocator.allocate
  split
  · rename_i hnil
    set b : Buffer := ⟨size, s.serial⟩ with hb
    have hfresh : ∀ o, b ∉ s.owned o := fun o hmem => absurd (h.serial_lt o b hmem) (by simp [hb])
    refine ⟨?_, ?_, h.table_ok, h.queue_ok, sized_update (hp b ha.symm) h.phase_ok⟩
    · refine @Exclusive.insert _ _ _ _ (.stream i) b h.exclusive hfresh ?_ ?_
      · rw [hstream]
        exact hbuffers b
      · exact fun o ho => hother rfl ho (fun _ _ => rfl)
    · intro o x hx
      by_cases ho : o = .stream i
      · subst ho
        rw [hstream] at hx
        rcases List.mem_cons.mp ((hbuffers b).subset hx) with rfl | hx
        · exact Nat.lt_succ_self _
        · exact Nat.lt_succ_of_lt (h.serial_lt (.stream i) x hx)
      · exact Nat.lt_succ_of_lt (h.serial_lt o x ((hother rfl ho (fun _ _ => rfl)).subset hx))
  · rename_i b rest hqueue
    set s₁ : State ι := { s with bufferQueue := Function.update s.bufferQueue a rest } with hs₁
    have hqueue₁ : (s₁.goto i (p b)).owned (.queue a) = rest := by
      simp only [hs₁, State.owned, State.goto, Function.update_self]
    have hqueue₀ : s.owned (.queue a) = b :: rest := hqueue
    have hrest : ∀ o, o ≠ .queue a → o ≠ .stream i →
        ((s₁.goto i (p b)).owned o).Subperm (s.owned o) := by
      intro o ho₁ ho₂
      refine hother rfl ho₂ fun a' ha' => Function.update_of_ne (fun heq => ho₁ ?_) _ _
      rw [ha', heq]
    have hb : b.length = a.bufferSize := h.queue_ok a b (by rw [hqueue]; exact List.mem_cons_self)
    refine ⟨?_, ?_, h.table_ok, ?_, sized_update (hp b hb) h.phase_ok⟩
    · refine @Exclusive.transfer _ _ _ _ (.queue a) (.stream i) b h.exclusive (by simp) ?_ ?_ hrest
      · rw [hqueue₁, hqueue₀]
      · rw [hstream]
        exact hbuffers b
    · intro o x hx
      by_cases ho₁ : o = .queue a
      · subst ho₁
        rw [hqueue₁] at hx
        exact h.serial_lt (.queue a) x (by rw [hqueue₀]; exact List.mem_cons_of_mem _ hx)
      · by_cases ho₂ : o = .stream i
        · subst ho₂
          rw [hstream] at hx
          rcases List.mem_cons.mp ((hbuffers b).subset hx) with rfl | hx
          · exact h.serial_lt (.queue a) x (by rw [hqueue₀]; exact List.mem_cons_self)
          · exact h.serial_lt (.stream i) x hx
        · exact h.serial_lt o x ((hrest o ho₁ ho₂).subset hx)
    · intro a' x hx
      simp only [hs₁, State.goto, Function.update_apply] at hx
      split at hx
      · rename_i heq
        rw [heq]
        exact h.queue_ok a x (by rw [hqueue]; exact List.mem_cons_of_mem _ hx)
      · exact h.queue_ok a' x hx

/-- An array goes from the stream to the end of the queue. -/
theorem Inv.release (h : Inv s) {a : Allocator} {b : Buffer} {p : Phase}
    (hbuffers : (s.streams i).buffers = b :: p.buffers) (hb : b.length = a.bufferSize)
    (hp : p.Sized) : Inv ((CachedBufferAllocator.release s a b).goto i p) := by
  set s₁ := CachedBufferAllocator.release s a b with hs₁
  have hqueue : (s₁.goto i p).owned (.queue a) = s.owned (.queue a) ++ [b] := by
    simp only [hs₁, CachedBufferAllocator.release, State.owned, State.goto, Function.update_self]
  have hstream : (s₁.goto i p).owned (.stream i) = p.buffers := by
    simp only [State.owned, State.goto, Function.update_self]
  have hstream₀ : s.owned (.stream i) = b :: p.buffers := hbuffers
  have hrest : ∀ o, o ≠ .stream i → o ≠ .queue a →
      ((s₁.goto i p).owned o).Subperm (s.owned o) := by
    intro o ho₁ ho₂
    refine @subperm_of_eq _ s (s₁.goto i p) o (fun j hj => ?_) (fun a' ha' => ?_)
    · exact Function.update_of_ne (fun heq => ho₁ (by rw [hj, heq])) _ _
    · exact Function.update_of_ne (fun heq => ho₂ (by rw [ha', heq])) _ _
  refine ⟨?_, ?_, h.table_ok, ?_, sized_update hp h.phase_ok⟩
  · refine @Exclusive.transfer _ _ _ _ (.stream i) (.queue a) b h.exclusive (by simp) ?_ ?_ hrest
    · rw [hstream, hstream₀]
    · rw [hqueue]
      exact (List.perm_append_singleton b _).subperm
  · intro o x hx
    by_cases ho₁ : o = .stream i
    · subst ho₁
      rw [hstream] at hx
      exact h.serial_lt (.stream i) x (by rw [hstream₀]; exact List.mem_cons_of_mem _ hx)
    · by_cases ho₂ : o = .queue a
      · subst ho₂
        rw [hqueue] at hx
        rcases List.mem_append.mp hx with hx | hx
        · exact h.serial_lt (.queue a) x hx
        · rw [List.mem_singleton.mp hx]
          exact h.serial_lt (.stream i) b (by rw [hstream₀]; exact List.mem_cons_self)
      · exact h.serial_lt o x ((hrest o ho₁ ho₂).subset hx)
  · intro a' x hx
    simp only [hs₁, CachedBufferAllocator.release, State.goto, Function.update_apply] at hx
    split at hx
    · rename_i heq
      rw [heq]
      rcases List.mem_append.mp hx with hx | hx
      · exact h.queue_ok a x hx
      · rw [List.mem_singleton.mp hx]
        exact hb
    · exact h.queue_ok a' x hx

/-! ## The steps keep the invariant -/

theorem Inv.advance (h : Inv s) {s' : State ι} (hstep : advance s i = some s') : Inv s' := by
  have hp := h.phase_ok i
  unfold CachedBufferAllocator.advance at hstep
  cases hi : s.streams i with
  | getInput blockSize =>
    simp only [hi, Option.some.injEq] at hstep
    subst hstep
    obtain ⟨hsize, hinv, hstreams⟩ := h.getAllocator (inputSize blockSize).toNat
    refine hinv.goto ?_ hsize
    rw [hstreams, hi]
    exact List.Subperm.refl _
  | getOutput blockSize ia =>
    rw [hi] at hp
    simp only [hi, Option.some.injEq] at hstep
    subst hstep
    obtain ⟨hsize, hinv, hstreams⟩ := h.getAllocator (outputSize blockSize).toNat
    refine hinv.goto ?_ ⟨hp, hsize⟩
    rw [hstreams, hi]
    exact List.Subperm.refl _
  | allocateInput blockSize ia oa =>
    rw [hi] at hp
    simp only [hi, Option.some.injEq] at hstep
    subst hstep
    refine h.allocate hp.1 (fun b => ?_) (fun b hb => ⟨hp, hb⟩)
    rw [hi]
    exact List.Subperm.refl _
  | allocateOutput blockSize ia oa input =>
    rw [hi] at hp
    simp only [hi, Option.some.injEq] at hstep
    subst hstep
    refine h.allocate hp.1.2 (fun b => ?_) (fun b hb => ⟨hp.1, hp.2, hb⟩)
    rw [hi]
    exact (List.Perm.swap b input []).subperm
  | releaseInput ia oa input output =>
    rw [hi] at hp
    simp only [hi, Option.some.injEq] at hstep
    subst hstep
    exact h.release (by rw [hi]; rfl) hp.1 hp.2
  | releaseOutput oa output =>
    rw [hi] at hp
    simp only [hi, Option.some.injEq] at hstep
    subst hstep
    exact h.release (by rw [hi]; rfl) hp trivial
  | _ =>
    rw [hi] at hstep
    cases hstep

theorem Inv.step (h : Inv s) {e : Event ι} {s' : State ι} (hstep : step s e = some s') :
    Inv s' := by
  cases e with
  | construct i blockSize =>
    simp only [CachedBufferAllocator.step] at hstep
    split at hstep
    · cases hstep
      exact h.goto List.nil_subperm trivial
    · cases hstep
  | advance i => exact h.advance hstep
  | outOfMemory i =>
    simp only [CachedBufferAllocator.step] at hstep
    split at hstep
    · cases hstep
      exact h.goto List.nil_subperm trivial
    · cases hstep
      exact h.goto List.nil_subperm trivial
    · cases hstep
  | use i =>
    simp only [CachedBufferAllocator.step] at hstep
    split at hstep
    · cases hstep
      exact h
    · cases hstep
      exact h
    · cases hstep
  | close i =>
    have hp := h.phase_ok i
    simp only [CachedBufferAllocator.step] at hstep
    split at hstep
    · rename_i hi
      rw [hi] at hp
      cases hstep
      refine h.goto ?_ hp.2
      rw [hi]
      exact List.Subperm.refl _
    · cases hstep
      exact h
    · cases hstep
  | collect k =>
    cases hstep
    refine ⟨h.exclusive.shrink fun o => ?_, ?_, ?_, h.queue_ok, h.phase_ok⟩
    · cases o <;> exact List.Subperm.refl _
    · intro o b hb
      exact h.serial_lt o b (by cases o <;> exact hb)
    · intro k' a ha
      simp only [Function.update_apply] at ha
      split at ha
      · cases ha
      · exact h.table_ok k' a ha

end

/-! ## What the streams see -/

/-- Stream `i` is open, with these buffers. -/
def IsOpen (s : State ι) (i : ι) (blockSize : Int) (input output : Buffer) : Prop :=
  ∃ ia oa, s.streams i = .opened blockSize ia oa input output

/-- Open streams share no array with each other, with themselves or with a
free queue, and all arrays have the size they are kept or used for. -/
structure Separate (s : State ι) : Prop where
  apart : ∀ i j bs bs' input output input' output', i ≠ j → IsOpen s i bs input output →
    IsOpen s j bs' input' output' →
    input ≠ input' ∧ input ≠ output' ∧ output ≠ input' ∧ output ≠ output'
  two_buffers : ∀ i bs input output, IsOpen s i bs input output → input ≠ output
  not_free : ∀ i bs input output a, IsOpen s i bs input output →
    input ∉ s.bufferQueue a ∧ output ∉ s.bufferQueue a
  queue_sized : ∀ a, ∀ b ∈ s.bufferQueue a, b.length = a.bufferSize
  table_sized : ∀ k a, s.queueTable k = some a → a.bufferSize = k
  stream_sized : ∀ i bs input output, IsOpen s i bs input output →
    input.length = (inputSize bs).toNat ∧ output.length = (outputSize bs).toNat

theorem Inv.separate {s : State ι} (h : Inv s) : Separate s := by
  have howned : ∀ {i bs input output}, IsOpen s i bs input output →
      s.owned (.stream i) = [input, output] := by
    rintro i bs input output ⟨ia, oa, hi⟩
    rw [State.owned, hi]
    rfl
  have hsame : ∀ {i : ι} {o : Owner ι} {b}, b ∈ s.owned (.stream i) → b ∈ s.owned o →
      .stream i = o := fun hb hb' => h.exclusive.unique hb hb'
  refine ⟨?_, ?_, ?_, h.queue_ok, h.table_ok, ?_⟩
  · intro i j bs bs' input output input' output' hij hi hj
    have hno : ∀ b ∈ [input, output], ∀ b' ∈ [input', output'], b ≠ b' := by
      rintro b hb b' hb' rfl
      rw [← howned hi] at hb
      rw [← howned hj] at hb'
      have heq := hsame hb hb'
      cases heq
      exact hij rfl
    exact ⟨hno _ (by simp) _ (by simp), hno _ (by simp) _ (by simp), hno _ (by simp) _ (by simp),
      hno _ (by simp) _ (by simp)⟩
  · intro i bs input output hi
    have hnodup := h.exclusive.nodup (.stream i)
    rw [howned hi] at hnodup
    simpa using hnodup
  · intro i bs input output a hi
    have hno : ∀ b ∈ [input, output], b ∉ s.bufferQueue a := by
      intro b hb hq
      rw [← howned hi] at hb
      have heq := @hsame i (.queue a) b hb hq
      cases heq
    exact ⟨hno _ (by simp), hno _ (by simp)⟩
  · rintro i bs input output ⟨ia, oa, hi⟩
    have hp := h.phase_ok i
    rw [hi] at hp
    exact ⟨hp.2.1.trans hp.1.1, hp.2.2.trans hp.1.2⟩

/-- However constructions, writes and closes of any number of streams are
interleaved, and whatever references are cleared, open streams are separate. -/
theorem separate_of_run {ι : Type} [DecidableEq ι] {events : List (Event ι)} {s : State ι}
    (h : Steps.run step initial events = some s) : Separate s :=
  (Steps.run_invariant Inv (fun _ _ _ hs hstep => hs.step hstep) inv_initial h).separate

/-- Construct a stream, or close it. -/
def construction (i : Nat) : List (Event Nat) := .construct i 4096 :: List.replicate 4 (.advance i)
def closing (i : Nat) : List (Event Nat) := .close i :: List.replicate 2 (.advance i)

/-- The first stream is closed twice, the second time when the second stream
has its buffers; then a third stream is opened. -/
theorem separate_of_run_closedTwice :
    ∃ s, Steps.run step initial
        (construction 0 ++ closing 0 ++ construction 1 ++ [.close 0] ++ construction 2) = some s ∧
      Separate s := by
  have hrun : (Steps.run step initial (construction 0 ++ closing 0 ++ construction 1 ++
      [.close 0] ++ construction 2)).isSome = true := by decide +kernel
  obtain ⟨s, hs⟩ := Option.isSome_iff_exists.mp hrun
  exact ⟨s, hs, separate_of_run hs⟩

end SnappyJava.CachedBufferAllocator
