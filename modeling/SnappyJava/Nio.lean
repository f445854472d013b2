import SnappyJava.Java

/-! `java.nio` as far as the framed streams use it: a `ByteBuffer` with its
position and limit, and a `WritableByteChannel` with a schedule of how much it
takes and where it fails. -/

namespace SnappyJava

open Exec Memory

/-- A buffer over `array`; what counts is between the position and the limit. -/
@[ext] structure ByteBuffer where
  array : Bytes
  position : Nat
  limit : Nat
  position_le : position ≤ limit
  limit_le : limit ≤ array.length
  deriving DecidableEq, Repr

namespace ByteBuffer

def capacity (b : ByteBuffer) : Nat := b.array.length

def remaining (b : ByteBuffer) : Nat := b.limit - b.position

/-- The bytes from the position to the limit. -/
def content (b : ByteBuffer) : Bytes := slice b.array b.position b.remaining

/-- `ByteBuffer.wrap(array)`, or a direct buffer just obtained. -/
def wrap (array : Bytes) : ByteBuffer := ⟨array, 0, array.length, Nat.zero_le _, Nat.le_refl _⟩

def clear (b : ByteBuffer) : ByteBuffer := wrap b.array

def flip (b : ByteBuffer) : ByteBuffer :=
  ⟨b.array, 0, b.position, Nat.zero_le _, Nat.le_trans b.position_le b.limit_le⟩

/-- `limit(int)`, which moves a position beyond the new limit back to it. -/
def setLimit (b : ByteBuffer) (newLimit : Int) : Except Throwable ByteBuffer :=
  if h : 0 ≤ newLimit ∧ newLimit ≤ b.capacity then
    .ok ⟨b.array, min b.position newLimit.toNat, newLimit.toNat, Nat.min_le_right _ _, by
      have := h.2
      unfold capacity at this
      omega⟩
  else
    .error (.illegalArgumentException
      (if newLimit > b.capacity then
        "newLimit > capacity: (" ++ toString newLimit ++ " > " ++ toString b.capacity ++ ")"
      else "newLimit < 0: (" ++ toString newLimit ++ " < 0)"))

/-- `position(int)`. -/
def setPosition (b : ByteBuffer) (newPosition : Int) : Except Throwable ByteBuffer :=
  if h : 0 ≤ newPosition ∧ newPosition ≤ b.limit then
    .ok ⟨b.array, newPosition.toNat, b.limit, by omega, b.limit_le⟩
  else
    .error (.illegalArgumentException
      (if newPosition > b.limit then
        "newPosition > limit: (" ++ toString newPosition ++ " > " ++ toString b.limit ++ ")"
      else "newPosition < 0: (" ++ toString newPosition ++ " < 0)"))

/-- The bytes `xs` stored from the position on. -/
def store (b : ByteBuffer) (xs : Bytes) (h : xs.length ≤ b.remaining) : ByteBuffer :=
  have hle : b.position + xs.length ≤ b.limit := by
    have := b.position_le
    unfold remaining at h
    omega
  ⟨splice b.array b.position xs, b.position + xs.length, b.limit, hle, by
    rw [length_splice (Nat.le_trans hle b.limit_le)]
    exact b.limit_le⟩

/-- `put`, of one byte or of many. -/
def put (b : ByteBuffer) (xs : Bytes) : Except Throwable ByteBuffer :=
  if h : xs.length ≤ b.remaining then .ok (b.store xs h) else .error .bufferOverflowException

/-- `n` bytes from the position on, and the position after them. -/
def take (b : ByteBuffer) (n : Nat) (h : n ≤ b.remaining) : ByteBuffer :=
  ⟨b.array, b.position + n, b.limit, by
    have := b.position_le
    unfold remaining at h
    omega, b.limit_le⟩

/-- `get` of `n` bytes. -/
def get (b : ByteBuffer) (n : Nat) : Except Throwable (Bytes × ByteBuffer) :=
  if h : n ≤ b.remaining then .ok (slice b.array b.position n, b.take n h)
  else .error .bufferUnderflowException

/-- `limit(position())`. -/
def limited (b : ByteBuffer) : ByteBuffer :=
  ⟨b.array, b.position, b.position, Nat.le_refl _, Nat.le_trans b.position_le b.limit_le⟩

/-- `position(limit())`. -/
def ended (b : ByteBuffer) : ByteBuffer := ⟨b.array, b.limit, b.limit, Nat.le_refl _, b.limit_le⟩

theorem setPosition_limit (b : ByteBuffer) : b.setPosition b.limit = .ok b.ended := by
  rw [setPosition, dif_pos ⟨by omega, by omega⟩]
  exact congrArg Except.ok (ByteBuffer.ext rfl (by simp [ended]) rfl)

@[simp] theorem position_wrap (a : Bytes) : (wrap a).position = 0 := rfl
@[simp] theorem remaining_wrap (a : Bytes) : (wrap a).remaining = a.length := rfl
@[simp] theorem capacity_wrap (a : Bytes) : (wrap a).capacity = a.length := rfl

/-- A limit within the array and not before the position. -/
theorem setLimit_of_le {b : ByteBuffer} {n : Nat} (h : b.position ≤ n) (h' : n ≤ b.capacity) :
    b.setLimit n = .ok ⟨b.array, b.position, n, h, h'⟩ := by
  rw [setLimit, dif_pos ⟨by omega, by omega⟩]
  exact congrArg Except.ok (ByteBuffer.ext rfl (by simp [h]) (by simp))

theorem setLimit_wrap {a : Bytes} {n : Nat} (h : n ≤ a.length) :
    (wrap a).setLimit n = .ok ⟨a, 0, n, Nat.zero_le _, h⟩ :=
  setLimit_of_le (Nat.zero_le n) h

theorem setLimit_position (b : ByteBuffer) : b.setLimit b.position = .ok b.limited :=
  setLimit_of_le (Nat.le_refl _) (Nat.le_trans b.position_le b.limit_le)

theorem setLimit_of_neg (b : ByteBuffer) {n : Int} (h : n < 0) :
    ∃ message, b.setLimit n = .error (.illegalArgumentException message) := by
  rw [setLimit, dif_neg (by omega)]
  exact ⟨_, rfl⟩

/-- A limit beyond the array: the message names the two. -/
theorem setLimit_of_lt {b : ByteBuffer} {n : Nat} (h : b.capacity < n) :
    b.setLimit n = .error (.illegalArgumentException
      ("newLimit > capacity: (" ++ toString (n : Int) ++ " > " ++ toString b.capacity ++ ")")) := by
  rw [setLimit, dif_neg (by omega), if_pos (by omega)]

theorem setLimit_wrap_error {a : Bytes} {n : Nat} (h : a.length < n) :
    (wrap a).setLimit n = .error (.illegalArgumentException
      ("newLimit > capacity: (" ++ toString (n : Int) ++ " > " ++ toString a.length ++ ")")) :=
  setLimit_of_lt h

theorem setPosition_wrap {a : Bytes} {k : Nat} (h : k ≤ a.length) :
    (wrap a).setPosition k = .ok ⟨a, k, a.length, h, Nat.le_refl _⟩ := by
  have hlimit : (wrap a).limit = a.length := rfl
  rw [setPosition, dif_pos ⟨by omega, by omega⟩]
  rfl

theorem setPosition_wrap_error {a : Bytes} {k : Nat} (h : a.length < k) :
    (wrap a).setPosition k = .error (.illegalArgumentException
      ("newPosition > limit: (" ++ toString (k : Int) ++ " > " ++ toString a.length ++ ")")) := by
  have hlimit : (wrap a).limit = a.length := rfl
  rw [setPosition, dif_neg (by omega), if_pos (by omega), hlimit]

/-- A view of `n` bytes from `k` on. -/
theorem view_of_le {a : Bytes} {k n : Nat} (h : k + n ≤ a.length) :
    ((wrap a).setPosition k >>= fun b => b.setLimit ((k : Int) + (n : Int))) =
      .ok ⟨a, k, k + n, Nat.le_add_right k n, h⟩ := by
  have hk : k ≤ a.length := Nat.le_trans (Nat.le_add_right k n) h
  rw [setPosition_wrap hk, ← Int.natCast_add]
  exact setLimit_of_le (Nat.le_add_right k n) h

/-- A view past the end is refused, with an exception that depends on the length only. -/
theorem view_of_lt {a a' : Bytes} {k n : Nat} (hlen : a.length = a'.length) (h : a.length < k + n) :
    ∃ e, ((wrap a).setPosition k >>= fun b => b.setLimit ((k : Int) + (n : Int))) = .error e ∧
      ((wrap a').setPosition k >>= fun b => b.setLimit ((k : Int) + (n : Int))) = .error e := by
  have h' : a'.length < k + n := hlen ▸ h
  rcases Nat.lt_or_ge a.length k with hk | hk
  · rw [setPosition_wrap_error hk, @setPosition_wrap_error a' k (hlen ▸ hk), hlen]
    exact ⟨_, rfl, rfl⟩
  · rw [setPosition_wrap hk, @setPosition_wrap a' k (hlen ▸ hk), ← Int.natCast_add]
    refine ⟨_, setLimit_of_lt h, ?_⟩
    exact (setLimit_of_lt h').trans (by simp only [capacity, hlen])

theorem view_ok {a : Bytes} {k : Nat} {n : Int} {b : ByteBuffer} (hn : 0 ≤ n)
    (h : ((wrap a).setPosition k >>= fun b => b.setLimit (k + n)) = .ok b) :
    b.array = a ∧ b.position = k ∧ b.limit = k + n.toNat := by
  obtain ⟨m, rfl⟩ := Int.eq_ofNat_of_zero_le hn
  rcases Nat.lt_or_ge a.length (k + m) with hm | hm
  · obtain ⟨e, he, -⟩ := @view_of_lt a a k m rfl hm
    cases he.symm.trans h
  · rw [view_of_le hm] at h
    obtain rfl := Except.ok.inj h
    exact ⟨rfl, rfl, rfl⟩

/-- The first bytes of the content. -/
theorem slice_eq_take_content {b : ByteBuffer} {n : Nat} (hn : n ≤ b.remaining) :
    slice b.array b.position n = b.content.take n := by
  rw [content, slice, slice, List.take_take, Nat.min_eq_left hn]

theorem length_content (b : ByteBuffer) : b.content.length = b.remaining := by
  have h₁ := b.position_le
  have h₂ := b.limit_le
  exact length_slice _ (by unfold remaining; omega)

theorem remaining_flip (b : ByteBuffer) : b.flip.remaining = b.position := rfl

theorem content_flip (b : ByteBuffer) : b.flip.content = b.array.take b.position := rfl

@[simp] theorem capacity_store (b : ByteBuffer) (xs : Bytes) (h : xs.length ≤ b.remaining) :
    (b.store xs h).capacity = b.capacity := by
  have h₁ := b.position_le
  have h₂ := b.limit_le
  unfold remaining at h
  exact length_splice (by omega)

theorem remaining_store (b : ByteBuffer) (xs : Bytes) (h : xs.length ≤ b.remaining) :
    (b.store xs h).remaining = b.remaining - xs.length := by
  simp only [remaining, store]
  omega

/-- Storing in two steps is storing at once. -/
theorem store_store (b : ByteBuffer) (xs ys : Bytes) (h : xs.length ≤ b.remaining)
    (h' : ys.length ≤ (b.store xs h).remaining) :
    (b.store xs h).store ys h' = b.store (xs ++ ys)
      (by rw [remaining_store] at h'; rw [List.length_append]; omega) := by
  have h₁ := b.position_le
  have h₂ := b.limit_le
  refine ByteBuffer.ext ?_ ?_ rfl
  · exact splice_append (by omega)
  · simp only [store, List.length_append]
    omega

/-- What is stored comes after what was stored. -/
theorem content_flip_store (b : ByteBuffer) (xs : Bytes) (h : xs.length ≤ b.remaining) :
    (b.store xs h).flip.content = b.flip.content ++ xs :=
  take_splice xs (Nat.le_trans b.position_le b.limit_le)

end ByteBuffer

/-! ## Writable channels -/

/-- A `WritableByteChannel`: what it has received, and for each of its next
writes how many bytes it takes and whether it then throws. Beyond the schedule a
write takes all it is offered. -/
structure WritableByteChannel where
  received : Bytes
  responses : List (Nat × Bool)
  closeFails : Bool
  closeCalls : Nat
  deriving DecidableEq, Repr

namespace WritableByteChannel

/-- A channel that has received nothing, takes every write whole and never
fails. -/
def reliable : WritableByteChannel := ⟨[], [], false, 0⟩

/-- `write(ByteBuffer)`, which moves the position past the bytes it takes. -/
def write : EStateM Throwable (WritableByteChannel × ByteBuffer) Nat := do
  let (c, b) ← get
  let (accepts, fails) := c.responses.head?.getD (b.remaining, false)
  let n := min accepts b.remaining
  set ({ c with received := c.received ++ slice b.array b.position n, responses := c.responses.tail },
    b.take n (Nat.min_le_right _ _))
  if fails then throw .underlyingException else pure n

def close : EStateM Throwable WritableByteChannel Unit := do
  modify fun c => { c with closeCalls := c.closeCalls + 1 }
  let c ← get
  if c.closeFails then throw .underlyingException else pure ()

/-- A channel takes a first part of what it is offered, whether it then throws or
not. -/
theorem wp_write_part {c : WritableByteChannel} {b : ByteBuffer}
    {Q : Nat → WritableByteChannel × ByteBuffer → Prop}
    {E : Throwable → WritableByteChannel × ByteBuffer → Prop}
    (hQ : ∀ n (hn : n ≤ b.remaining),
      n = min (c.responses.head?.getD (b.remaining, false)).1 b.remaining →
      (c.responses.head?.getD (b.remaining, false)).2 = false →
      Q n ({ c with
        received := c.received ++ slice b.array b.position n, responses := c.responses.tail },
        b.take n hn))
    (hE : ∀ n (hn : n ≤ b.remaining),
      n = min (c.responses.head?.getD (b.remaining, false)).1 b.remaining →
      (c.responses.head?.getD (b.remaining, false)).2 = true →
      E .underlyingException ({ c with
        received := c.received ++ slice b.array b.position n, responses := c.responses.tail },
        b.take n hn)) :
    wp write Q E (c, b) := by
  simp only [write, wp_bind, wp_get, wp_set, wp_ite, wp_throw, wp_pure]
  split
  · rename_i hfails
    exact hE _ (Nat.min_le_right _ _) rfl hfails
  · rename_i hfails
    exact hQ _ (Nat.min_le_right _ _) rfl (by simpa using hfails)

end WritableByteChannel

end SnappyJava
