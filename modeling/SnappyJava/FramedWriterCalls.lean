import SnappyJava.FramedWriter

/-! The writing calls of a `SnappyFramedOutputStream` over a channel that never
fails but may take a part only of what it is offered. Each call keeps one
relation, `Writing`, between the data written so far and the state. -/

namespace SnappyJava

open Exec Memory Words Blocks

namespace WritableByteChannel

/-! ## What a steady channel has taken -/

/-- No write of the schedule throws. -/
def Steady (c : WritableByteChannel) : Prop := ∀ r ∈ c.responses, r.2 = false

/-- What a channel with the schedule `rs` takes of the writes `xs`. -/
def deliver : List (Nat × Bool) → List Bytes → Bytes
  | _, [] => []
  | [], x :: xs => x ++ deliver [] xs
  | r :: rs, x :: xs => x.take r.1 ++ deliver rs xs

/-- Every write of `xs` is taken whole. -/
def TakesAll (rs : List (Nat × Bool)) (xs : List Bytes) : Prop :=
  ∀ p ∈ rs.zip xs, p.2.length ≤ p.1.1

instance (rs : List (Nat × Bool)) (xs : List Bytes) : Decidable (TakesAll rs xs) :=
  inferInstanceAs (Decidable (∀ p ∈ rs.zip xs, p.2.length ≤ p.1.1))

@[simp] theorem deliver_nil_right (rs : List (Nat × Bool)) : deliver rs [] = [] := by
  cases rs <;> rfl

@[simp] theorem deliver_nil_left (xs : List Bytes) : deliver [] xs = xs.flatten := by
  induction xs with
  | nil => rfl
  | cons x xs ih => rw [deliver, ih, List.flatten_cons]

theorem deliver_append (rs : List (Nat × Bool)) (xs ys : List Bytes) :
    deliver rs (xs ++ ys) = deliver rs xs ++ deliver (rs.drop xs.length) ys := by
  induction xs generalizing rs with
  | nil => simp
  | cons x xs ih =>
    cases rs with
    | nil => simp
    | cons r rs => simp [deliver, ih]

theorem length_deliver_le (rs : List (Nat × Bool)) (xs : List Bytes) :
    (deliver rs xs).length ≤ xs.flatten.length := by
  induction xs generalizing rs with
  | nil => simp
  | cons x xs ih =>
    cases rs with
    | nil => simp
    | cons r rs =>
      have := ih rs
      simp only [deliver, List.length_append, List.length_take, List.flatten_cons]
      omega

/-- Nothing is missing exactly when every write is taken whole. -/
theorem deliver_eq_flatten_iff (rs : List (Nat × Bool)) (xs : List Bytes) :
    deliver rs xs = xs.flatten ↔ TakesAll rs xs := by
  induction xs generalizing rs with
  | nil => simp [TakesAll]
  | cons x xs ih =>
    cases rs with
    | nil => simp [TakesAll]
    | cons r rs =>
      have hcons : TakesAll (r :: rs) (x :: xs) ↔ x.length ≤ r.1 ∧ TakesAll rs xs := by
        simp only [TakesAll, List.zip_cons_cons, List.forall_mem_cons]
      rw [hcons, ← ih rs, deliver, List.flatten_cons]
      constructor
      · intro h
        have hlen := congrArg List.length h
        have hle := length_deliver_le rs xs
        simp only [List.length_append, List.length_take] at hlen
        have hx : x.length ≤ r.1 := by omega
        rw [List.take_of_length_le hx] at h
        exact ⟨hx, List.append_cancel_left h⟩
      · rintro ⟨hx, h⟩
        rw [List.take_of_length_le hx, h]

/-- `c` is the channel `c₀` after the writes `xs`. -/
structure Sent (c₀ : WritableByteChannel) (xs : List Bytes) (c : WritableByteChannel) : Prop where
  received_eq : c.received = c₀.received ++ deliver c₀.responses xs
  responses_eq : c.responses = c₀.responses.drop xs.length
  closeFails_eq : c.closeFails = c₀.closeFails

theorem Sent.nil (c : WritableByteChannel) : Sent c [] c := ⟨by simp, rfl, rfl⟩

theorem Sent.after {c₀ c : WritableByteChannel} {xs : List Bytes} (h : Sent c₀ xs c) (x : Bytes) :
    Sent c₀ (xs ++ [x]) (c.after x) := by
  refine ⟨?_, ?_, h.closeFails_eq⟩
  · have hone : deliver (c₀.responses.drop xs.length) [x] = c.accepted x := by
      rw [← h.responses_eq, accepted]
      cases c.responses with
      | nil => simp
      | cons r rs => simp [deliver]
    rw [deliver_append, hone, ← List.append_assoc, ← h.received_eq]
    rfl
  · have htail : (c.after x).responses = c.responses.tail := rfl
    rw [htail, h.responses_eq, List.tail_drop, List.length_append]
    rfl

theorem Sent.fails_eq {c₀ c : WritableByteChannel} {xs : List Bytes} (h : Sent c₀ xs c)
    (hc : c₀.Steady) : c.fails = false := by
  rw [fails, h.responses_eq]
  cases hd : c₀.responses.drop xs.length with
  | nil => rfl
  | cons r rs => exact hc r (List.mem_of_mem_drop (hd ▸ List.mem_cons_self))

end WritableByteChannel

namespace SnappyFramedOutputStream

/-! ## Data and state -/

/-- The blocks `done` have gone to the channel `c₀`, and of the data `current`
every full block that is no longer in `buffer`. -/
structure Ready (w : FrameWriter) (b : Nat) (c₀ : WritableByteChannel) (done : List Bytes)
    (current : Bytes) (s : SnappyFramedOutputStream) : Prop extends Open b s where
  limit_eq : s.buffer.limit = b
  sent : ∃ emitted, Cut b current emitted (pending s) ∧
    c₀.Sent ((done ++ emitted).flatMap w.pieces) s.out

/-- After a failure: the last block of `done` is still in `buffer`, with no room
behind it. -/
structure Sealed (w : FrameWriter) (b : Nat) (c₀ : WritableByteChannel) (done : List Bytes)
    (current : Bytes) (s : SnappyFramedOutputStream) : Prop extends Open b s where
  limit_eq : s.buffer.limit = s.buffer.position
  position_pos : 0 < s.buffer.position
  current_eq : current = []
  sent : ∃ earlier, done = earlier ++ [pending s] ∧ c₀.Sent (earlier.flatMap w.pieces) s.out

/-- Between two calls. -/
def Writing (w : FrameWriter) (b : Nat) (c₀ : WritableByteChannel) (done : List Bytes)
    (current : Bytes) (s : SnappyFramedOutputStream) : Prop :=
  Ready w b c₀ done current s ∨ Sealed w b c₀ done current s

section
variable {w : FrameWriter} {b : Nat} {c₀ : WritableByteChannel} {done : List Bytes}
  {current : Bytes} {s : SnappyFramedOutputStream}

theorem Writing.toOpen (h : Writing w b c₀ done current s) : Open b s := by
  rcases h with h | h
  · exact h.toOpen
  · exact h.toOpen

/-- With no data since the last flush, everything has gone to the channel. -/
theorem Ready.sent_of_nil (h : Ready w b c₀ done [] s) :
    pending s = [] ∧ c₀.Sent (done.flatMap w.pieces) s.out := by
  obtain ⟨emitted, hcut, hsent⟩ := h.sent
  have hnil := List.append_eq_nil_iff.mp hcut.data_eq.symm
  rw [hnil.2] at hcut
  rw [← hcut.blocks_eq h.pos, blocks_nil, List.append_nil] at hsent
  exact ⟨hnil.2, hsent⟩

/-- The buffer holds what the blocks of the data leave over, or one block. -/
theorem Ready.remaining_eq (h : Ready w b c₀ done current s) (hr : 0 < s.buffer.remaining) :
    s.buffer.remaining = b - current.length % b := by
  obtain ⟨emitted, hcut, -⟩ := h.sent
  have hlen := length_pending s
  have hlim := h.limit_eq
  unfold ByteBuffer.remaining at hr ⊢
  rw [hcut.length_mod (by omega), hlen, hlim]

/-! ## Flushing -/

/-- A flush of pending data sends its frame. -/
theorem wp_flushBuffer_sent (hc : w.codec.Bounded) (hsteady : c₀.Steady) (h : Open b s)
    (hpos : 0 < s.buffer.position) {xs : List Bytes} (hs : c₀.Sent xs s.out)
    {Q : Unit → SnappyFramedOutputStream → Prop} {E : Throwable → SnappyFramedOutputStream → Prop}
    (hQ : ∀ t, Open b t → t.buffer.position = 0 → t.buffer.limit = b →
      c₀.Sent (xs ++ w.pieces (pending s)) t.out → Q () t) :
    wp (flushBuffer w) Q E s := by
  have hheader := hs.after (w.header (pending s))
  have hpayload := hheader.after (w.payload (pending s))
  rw [List.append_assoc] at hpayload
  apply wp_flushBuffer hc h hpos rfl
  · intro t ht hp hl _ _ _ _ hout
    exact hQ t ht hp hl (hout ▸ hpayload)
  · intro t _ hf _
    rw [hs.fails_eq hsteady] at hf
    exact absurd hf (by decide)
  · intro t _ _ hf _
    rw [hheader.fails_eq hsteady] at hf
    exact absurd hf (by decide)

section
variable (hc : w.codec.Bounded) (hsteady : c₀.Steady)
  {Q : Unit → SnappyFramedOutputStream → Prop} {E : Throwable → SnappyFramedOutputStream → Prop}
include hc hsteady

/-- A full buffer holds a block of the data. -/
theorem wp_flushBuffer_full (h : Ready w b c₀ done current s) (hfull : s.buffer.remaining = 0)
    (hQ : ∀ t, Ready w b c₀ done current t → t.buffer.remaining = b → Q () t) :
    wp (flushBuffer w) Q E s := by
  obtain ⟨emitted, hcut, hsent⟩ := h.sent
  have hb := h.pos
  have hlim := h.limit_eq
  have hple := s.buffer.position_le
  unfold ByteBuffer.remaining at hfull
  have hlen : (pending s).length = b := by
    rw [length_pending]
    omega
  apply wp_flushBuffer_sent hc hsteady h.toOpen (by omega) hsent
  intro t ht hp hl hsent'
  have hnil : pending t = [] := by rw [pending, hp, List.take_zero]
  refine hQ t ⟨ht, hl, emitted ++ [pending s], hnil ▸ hcut.emit hlen, ?_⟩ ?_
  · simpa [List.flatMap_append] using hsent'
  · rw [ByteBuffer.remaining, hp, hl, Nat.sub_zero]

theorem wp_flushBuffer_sealed (h : Sealed w b c₀ done current s)
    (hQ : ∀ t, Ready w b c₀ done current t → t.buffer.remaining = b → Q () t) :
    wp (flushBuffer w) Q E s := by
  obtain ⟨earlier, hdone, hsent⟩ := h.sent
  apply wp_flushBuffer_sent hc hsteady h.toOpen h.position_pos hsent
  intro t ht hp hl hsent'
  have hnil : pending t = [] := by rw [pending, hp, List.take_zero]
  refine hQ t ⟨ht, hl, [], ?_, ?_⟩ ?_
  · rw [h.current_eq, hnil]
    exact Cut.nil b
  · simpa [hdone, List.flatMap_append] using hsent'
  · rw [ByteBuffer.remaining, hp, hl, Nat.sub_zero]

/-- `flush` sends all blocks of the data. -/
theorem wp_flushBuffer_writing (h : Writing w b c₀ done current s)
    (hQ : ∀ t, Ready w b c₀ (done ++ blocks b current) [] t → Q () t) :
    wp (flushBuffer w) Q E s := by
  rcases h with h | h
  · obtain ⟨emitted, hcut, hsent⟩ := h.sent
    by_cases hpos : 0 < s.buffer.position
    · have hne : pending s ≠ [] := by
        rw [← List.length_pos_iff, length_pending]
        exact hpos
      apply wp_flushBuffer_sent hc hsteady h.toOpen hpos hsent
      intro t ht hp hl hsent'
      have hnil : pending t = [] := by rw [pending, hp, List.take_zero]
      refine hQ t ⟨ht, hl, [], hnil ▸ Cut.nil b, ?_⟩
      rw [hcut.blocks_eq_append h.pos hne]
      simpa [List.flatMap_append] using hsent'
    · have hnil : pending s = [] := by
        rw [pending, show s.buffer.position = 0 by omega, List.take_zero]
      simp only [flushBuffer, wp_bind, wp_get, wp_when, if_neg hpos]
      refine hQ s ⟨h.toOpen, h.limit_eq, [], hnil ▸ Cut.nil b, ?_⟩
      rw [hnil] at hcut
      rwa [hcut.blocks_eq h.pos, List.append_nil]
  · apply wp_flushBuffer_sealed hc hsteady h
    intro t ht _
    rw [h.current_eq] at hQ ht
    exact hQ t (by simpa using ht)

/-- What every write does first. -/
theorem wp_makeRoom (h : Writing w b c₀ done current s)
    (hQ : ∀ t, Ready w b c₀ done current t → 0 < t.buffer.remaining → Q () t) :
    wp (makeRoom w) Q E s := by
  have hb := h.toOpen.pos
  simp only [makeRoom, wp_bind, wp_get, wp_when]
  rcases h with h | h
  · split
    · rename_i hfull
      exact wp_flushBuffer_full hc hsteady h hfull fun t ht hr => hQ t ht (by omega)
    · rename_i hroom
      exact hQ s h (by omega)
  · have hfull : s.buffer.remaining = 0 := by
      rw [ByteBuffer.remaining, h.limit_eq, Nat.sub_self]
    rw [if_pos hfull]
    exact wp_flushBuffer_sealed hc hsteady h fun t ht hr => hQ t ht (by omega)

end

/-! ## Putting -/

theorem Open.store (h : Open b s) {xs : Bytes} (hle : xs.length ≤ s.buffer.remaining)
    (taken : Bytes) : Open b { s with buffer := s.buffer.store xs hle, taken := taken } :=
  { h with
    le_capacity := h.le_capacity.trans_eq (ByteBuffer.capacity_store s.buffer xs hle).symm
    limit_le := h.limit_le
    limit_pos := h.limit_pos }

/-- Bytes stored behind those that are pending. -/
theorem Ready.store (h : Ready w b c₀ done current s) {xs : Bytes}
    (hle : xs.length ≤ s.buffer.remaining) (taken : Bytes) :
    Ready w b c₀ done (current ++ xs) { s with buffer := s.buffer.store xs hle, taken := taken } := by
  obtain ⟨emitted, hcut, hsent⟩ := h.sent
  have hlim := h.limit_eq
  have hple := s.buffer.position_le
  have hlen := length_pending s
  have hpending : pending { s with buffer := s.buffer.store xs hle, taken := taken } =
      pending s ++ xs := s.buffer.content_flip_store xs hle
  refine ⟨h.toOpen.store hle taken, hlim, emitted, ?_, hsent⟩
  rw [hpending]
  unfold ByteBuffer.remaining at hle
  exact hcut.push xs (by omega)

theorem wp_put (h : Ready w b c₀ done current s) {xs : Bytes}
    (hle : xs.length ≤ s.buffer.remaining)
    {Q : Unit → SnappyFramedOutputStream → Prop} {E : Throwable → SnappyFramedOutputStream → Prop}
    (hQ : ∀ t, Ready w b c₀ done (current ++ xs) t →
      t.buffer.remaining = s.buffer.remaining - xs.length → Q () t) :
    wp (put xs) Q E s := by
  have hput : s.buffer.put xs = .ok (s.buffer.store xs hle) := dif_pos hle
  simp only [put, wp_bind, wp_get, hput, wp_fromExcept_ok, wp_set]
  exact hQ _ (h.store hle _) (ByteBuffer.remaining_store _ _ hle)

/-! ## `write(int)` and `write(byte[], int, int)` -/

section
variable (hc : w.codec.Bounded) (hsteady : c₀.Steady)
  {Q : Unit → SnappyFramedOutputStream → Prop} {E : Throwable → SnappyFramedOutputStream → Prop}
include hc hsteady

theorem wp_writeByte (h : Writing w b c₀ done current s) {x : Int}
    (hQ : ∀ t, Writing w b c₀ done (current ++ [toByte x]) t → Q () t) :
    wp (writeByte w x) Q E s := by
  simp only [writeByte, wp_bind, wp_get, wp_ite, h.toOpen.notClosed, Bool.false_eq_true, if_false]
  apply wp_makeRoom hc hsteady h
  intro t ht hroom
  exact @wp_put _ _ _ _ _ _ ht [toByte x] hroom _ _ fun u hu _ => hQ u (.inl hu)

/-- What is asked for has been put up to `offset`. -/
theorem wp_write (h : Writing w b c₀ done current s) {input : Bytes} {offset length : Int}
    (hok : RangeOk input offset length) (hinput : input.length < 2 ^ 31)
    (hQ : ∀ t, Writing w b c₀ done (current ++ slice input offset.toNat length.toNat) t → Q () t) :
    wp (write w input offset length) Q E s := by
  obtain ⟨hoff, hlen, hend, -⟩ := hok
  have hwrap := wrap32_of_range (x := offset + length) (by omega) (by omega)
  simp only [write, wp_bind, wp_get, wp_ite, h.toOpen.notClosed, Bool.false_eq_true, if_false,
    hwrap]
  rw [if_neg (by omega)]
  refine wp_loop
    (fun (p : Int × Int) t => 0 ≤ p.2 ∧ p.1 + p.2 = offset + length ∧ offset ≤ p.1 ∧
      Writing w b c₀ done (current ++ slice input offset.toNat (p.1 - offset).toNat) t)
    (fun p _ => p.2.toNat) ?_ ⟨hlen, rfl, le_refl _, by simpa using h⟩ (Nat.lt_succ_self _)
  rintro ⟨o, l⟩ t ⟨hl, hsum, ho, hw⟩
  dsimp only at hl hsum ho hw ⊢
  simp only [writeRound, wp_ite, wp_bind, wp_get, wp_throw, wp_pure]
  split
  · rename_i hpos
    apply wp_makeRoom hc hsteady hw
    intro u hu hroom
    rw [if_neg (by omega)]
    have hput : (slice input o.toNat (min l (u.buffer.remaining : Int)).toNat).length =
        (min l (u.buffer.remaining : Int)).toNat := length_slice _ (by omega)
    apply wp_put hu (by omega)
    intro v hv _
    have hdata : slice input offset.toNat (o - offset).toNat ++
        slice input o.toNat (min l (u.buffer.remaining : Int)).toNat =
        slice input offset.toNat (o + min l (u.buffer.remaining : Int) - offset).toNat := by
      rw [show o.toNat = offset.toNat + (o - offset).toNat by omega, slice_append]
      congr 1
      omega
    rw [List.append_assoc, hdata] at hv
    refine ⟨⟨by omega, by omega, by omega, .inl hv⟩, ?_⟩
    omega
  · rename_i hdone
    rw [show o - offset = length by omega] at hw
    exact hQ t hw

end

/-- A range outside the array is refused. -/
theorem wp_write_error (h : Writing w b c₀ done current s) {input : Bytes} {offset length : Int}
    (hbad : ¬ RangeOk input offset length) (hinput : input.length < 2 ^ 31) (hlen : length < 2 ^ 31)
    {Q : Unit → SnappyFramedOutputStream → Prop} {E : Throwable → SnappyFramedOutputStream → Prop}
    (hE : E .indexOutOfBoundsException s) :
    wp (write w input offset length) Q E s := by
  simp only [write, wp_bind, wp_get, wp_ite, wp_throw, h.toOpen.notClosed, Bool.false_eq_true,
    if_false]
  rw [if_pos ?_]
  · exact hE
  · by_contra hgood
    have hword : offset + length < 2 ^ 31 := by
      by_contra hbig
      have := wrap32_neg (x := offset + length) (by omega) (by omega)
      omega
    have hwrap := wrap32_of_range (x := offset + length) (by omega) hword
    exact hbad ⟨by omega, by omega, by omega, hword.le⟩

/-! ## `write(ByteBuffer)` -/

theorem wp_putSource (h : Ready w b c₀ done current s) {src : ByteBuffer}
    (hle : src.remaining ≤ s.buffer.remaining)
    {Q : Unit → SnappyFramedOutputStream × ByteBuffer → Prop}
    {E : Throwable → SnappyFramedOutputStream × ByteBuffer → Prop}
    (hQ : ∀ t, Ready w b c₀ done (current ++ src.content) t →
      t.buffer.remaining = s.buffer.remaining - src.remaining → Q () (t, src.ended)) :
    wp putSource Q E (s, src) := by
  have hlen := src.length_content
  simp only [putSource, onStream, wp_bind, wp_get, wp_zoom, wp_modify]
  apply wp_put h (by omega)
  intro t ht hr
  rw [hlen] at hr
  exact hQ t ht hr

/-- With room for `r` bytes, no limit that `write(ByteBuffer)` computes for `src`
exceeds an `int`. -/
def Fits (b r : Nat) (src : ByteBuffer) : Prop :=
  src.remaining ≤ r ∨ src.position + r + ((src.remaining - r) / b + 1) * b < 2 ^ 31

instance (b r : Nat) (src : ByteBuffer) : Decidable (Fits b r src) :=
  inferInstanceAs (Decidable (_ ∨ _))

/-- In the loop: what has been put is a first part of the source, which ends
where a block ends. -/
structure Filling (w : FrameWriter) (b : Nat) (c₀ : WritableByteChannel) (done : List Bytes)
    (current : Bytes) (src : ByteBuffer) (r : Nat) (p : SnappyFramedOutputStream × ByteBuffer) :
    Prop where
  array_eq : p.2.array = src.array
  le_position : src.position ≤ p.2.position
  position_le : p.2.position ≤ src.limit
  room : (p.2.position = src.position ∧ p.1.buffer.remaining = r) ∨
    (p.1.buffer.remaining = b ∧ ∃ k, p.2.position = src.position + r + k * b)
  ready : Ready w b c₀ done
    (current ++ src.content.take (p.2.position - src.position)) p.1

/-- The bytes put so far and the next ones. -/
theorem take_content_append (src : ByteBuffer) {q n : Nat} (hq : src.position ≤ q)
    (hn : q + n ≤ src.limit) :
    src.content.take (q - src.position) ++ slice src.array q n =
      src.content.take (q + n - src.position) := by
  have hslice : ∀ m, m ≤ src.remaining → src.content.take m = slice src.array src.position m := by
    intro m hm
    rw [ByteBuffer.content, slice, slice, List.take_take, Nat.min_eq_left hm]
  unfold ByteBuffer.remaining at hslice
  rw [hslice _ (by omega), hslice _ (by omega)]
  conv_lhs => rw [show slice src.array q n =
    slice src.array (src.position + (q - src.position)) n by congr 1; omega]
  rw [slice_append]
  congr 1
  omega

/-- A round fills the buffer and flushes it, or leaves the loop with a rest that
fits. -/
theorem wp_fillRound (hc : w.codec.Bounded) (hsteady : c₀.Steady) {src : ByteBuffer}
    (hsrc : src.capacity < 2 ^ 31) {r : Nat} (hr : 0 < r) (hrb : r ≤ b) (hlarge : r < src.remaining)
    {p : SnappyFramedOutputStream × ByteBuffer} (h : Filling w b c₀ done current src r p)
    {Q : Unit ⊕ Unit → SnappyFramedOutputStream × ByteBuffer → Prop}
    {E : Throwable → SnappyFramedOutputStream × ByteBuffer → Prop}
    (hNext : ∀ q, Filling w b c₀ done current src r q → p.2.position < q.2.position →
      Q (.inl ()) q)
    (hDone : Fits b r src → src.limit < p.2.position + p.1.buffer.remaining → Q (.inr ()) p)
    (hE : ∀ message, ¬ Fits b r src → E (.illegalArgumentException message) p) :
    wp (fillRound w (src.position + src.remaining) ()) Q E p := by
  have hb := h.ready.pos
  have hmax := h.ready.le_max
  have hM : maxBlockSize = 65536 := rfl
  have hlim := src.limit_le
  have hcap : src.array.length = src.capacity := rfl
  have hle := h.le_position
  have hend := h.position_le
  have hrem : src.remaining = src.limit - src.position := rfl
  have hroom : 0 < p.1.buffer.remaining ∧ p.1.buffer.remaining ≤ b := by
    rcases h.room with hr' | hr' <;> omega
  -- the limit of the last round, which is beyond the source
  have hlast : src.limit < p.2.position + p.1.buffer.remaining →
      (Fits b r src ↔ p.2.position + p.1.buffer.remaining < 2 ^ 31) := by
    intro hover
    rcases h.room with hr' | ⟨hr', k, hk⟩
    · omega
    · have hdiv : (src.remaining - r) / b = k := by
        rw [Nat.div_eq_iff hb]
        constructor <;> omega
      rw [Fits, hdiv, Nat.add_mul, Nat.one_mul]
      omega
  unfold fillRound
  simp only [wp_bind, wp_get, wp_ite]
  generalize hnew : wrap32 ((p.2.position : Int) + p.1.buffer.remaining) = newLimit
  rcases Nat.lt_or_ge (p.2.position + p.1.buffer.remaining) (2 ^ 31) with hint | hbig
  · rw [wrap32_of_range (by omega) (by omega), ← Nat.cast_add] at hnew
    subst hnew
    split
    · rename_i hwithin
      have hset := ByteBuffer.setLimit_of_le (Nat.le_add_right p.2.position p.1.buffer.remaining)
        (by rw [ByteBuffer.capacity, h.array_eq]; omega)
      rw [hset]
      simp only [wp_fromExcept_ok, wp_set]
      apply wp_putSource h.ready (Nat.le_of_eq (Nat.add_sub_cancel_left _ _))
      intro t ht hfull
      simp only [onStream, wp_zoom, wp_pure]
      have hzero : t.buffer.remaining = 0 := hfull.trans
        (Nat.sub_eq_zero_of_le (Nat.le_of_eq (Nat.add_sub_cancel_left _ _).symm))
      apply wp_flushBuffer_full hc hsteady ht hzero
      intro u hu hub
      refine hNext _ ⟨h.array_eq, by dsimp only [ByteBuffer.ended]; omega,
        by dsimp only [ByteBuffer.ended]; omega, .inr ⟨hub, ?_⟩, ?_⟩
        (by dsimp only [ByteBuffer.ended]; omega)
      · rcases h.room with ⟨hp, hr'⟩ | ⟨hr', k, hk⟩
        · exact ⟨0, by dsimp only [ByteBuffer.ended]; omega⟩
        · exact ⟨k + 1, by dsimp only [ByteBuffer.ended]; rw [Nat.add_mul]; omega⟩
      · have hnext := take_content_append src hle (n := p.1.buffer.remaining) (by omega)
        rw [← h.array_eq] at hnext
        dsimp only [ByteBuffer.content, ByteBuffer.remaining, ByteBuffer.ended] at hu hnext ⊢
        rwa [List.append_assoc, Nat.add_sub_cancel_left, hnext] at hu
    · rename_i hover
      exact hDone ((hlast (by omega)).mpr hint) (by omega)
  · have hneg := wrap32_neg (x := (p.2.position : Int) + p.1.buffer.remaining) (by omega) (by omega)
    rw [hnew] at hneg
    obtain ⟨message, herr⟩ := p.2.setLimit_of_neg hneg
    rw [if_pos (by omega), herr]
    refine hE message ?_
    rw [hlast (by omega)]
    omega

/-- The source is taken whole, unless the loop computes a limit beyond an `int`.
It has then put a first part of it. -/
theorem wp_writeBuffer (hc : w.codec.Bounded) (hsteady : c₀.Steady)
    (h : Writing w b c₀ done current s) {src : ByteBuffer} (hsrc : src.capacity < 2 ^ 31)
    {Q : Int → SnappyFramedOutputStream × ByteBuffer → Prop}
    {E : Throwable → SnappyFramedOutputStream × ByteBuffer → Prop}
    (hQ : ∀ t, Fits b (b - current.length % b) src →
      Writing w b c₀ done (current ++ src.content) t → Q src.remaining (t, src.ended))
    (hE : ∀ message n p, ¬ Fits b (b - current.length % b) src →
      Writing w b c₀ done (current ++ src.content.take n) p.1 →
      E (.illegalArgumentException message) p) :
    wp (writeBuffer w) Q E (s, src) := by
  have hb := h.toOpen.pos
  have hlim := src.limit_le
  have hpos := src.position_le
  have hrem : src.remaining = src.limit - src.position := rfl
  simp only [writeBuffer, onStream, wp_bind, wp_get, wp_ite, h.toOpen.notClosed,
    Bool.false_eq_true, if_false, wp_zoom, wp_pure]
  apply wp_makeRoom hc hsteady h
  intro s₁ h₁ hroom
  have hr := h₁.remaining_eq hroom
  have hrb : s₁.buffer.remaining ≤ b := by omega
  rw [← hr] at hQ hE
  split
  · rename_i hfit
    apply wp_putSource h₁ hfit
    exact fun t ht _ => hQ t (.inl hfit) (.inl ht)
  · rename_i hlarge
    have hstart : Filling w b c₀ done current src s₁.buffer.remaining (s₁, src) := by
      refine ⟨rfl, le_refl _, hpos, .inl ⟨rfl, rfl⟩, ?_⟩
      simpa only [Nat.sub_self, List.take_zero, List.append_nil] using h₁
    refine wp_loop (fun _ p => Filling w b c₀ done current src s₁.buffer.remaining p)
      (fun _ p => src.limit - p.2.position) ?_ hstart (by dsimp only; omega)
    rintro ⟨⟩ p hp
    have hle := hp.le_position
    have hend := hp.position_le
    apply wp_fillRound hc hsteady hsrc hroom hrb (by omega) hp
    · intro q hq hlt
      have := hq.position_le
      exact ⟨hq, by omega⟩
    · intro hfits hover
      have hset := ByteBuffer.setLimit_of_le (b := p.2) hend
        (by rw [ByteBuffer.capacity, hp.array_eq]; exact hlim)
      have hall := take_content_append src hle (n := src.limit - p.2.position) (by omega)
      rw [show p.2.position + (src.limit - p.2.position) - src.position = src.remaining by omega,
        List.take_of_length_le (Nat.le_of_eq src.length_content), ← hp.array_eq] at hall
      dsimp only [Sum.elim_inr]
      rw [show src.position + src.remaining = src.limit by omega, hset]
      simp only [wp_fromExcept_ok, wp_set]
      apply wp_putSource hp.ready
      · dsimp only [ByteBuffer.remaining] at hover ⊢
        omega
      · intro u hu _
        dsimp only [ByteBuffer.content, ByteBuffer.remaining] at hu hall
        rw [List.append_assoc, hall] at hu
        have hended : src.ended =
            (⟨p.2.array, p.2.position, src.limit, hend, hp.array_eq ▸ hlim⟩ : ByteBuffer).ended :=
          ByteBuffer.ext hp.array_eq.symm rfl rfl
        have hfinal := hQ u hfits (.inl hu)
        rw [hended] at hfinal
        exact hfinal
    · intro message hbad
      exact hE message _ p hbad (.inl hp.ready)

/-! ## `transferFrom` -/

/-- One read of a source into a buffer. -/
def ReadsInto (read : ByteBuffer → EStateM Throwable Source (Option Nat × ByteBuffer)) : Prop :=
  ∀ (dest : ByteBuffer) (source : Source) (Q : Option Nat × ByteBuffer → Source → Prop)
    (E : Throwable → Source → Prop), 0 < dest.remaining →
    (∀ t : Source, source.data = [] → t.data = [] → Q (none, dest) t) →
    (∀ (xs : Bytes) (t : Source) (h : xs.length ≤ dest.remaining), source.data = xs ++ t.data →
      t.size < source.size → Q (some xs.length, dest.store xs h) t) →
    wp (read dest) Q E source

theorem readsInto_readChannel : ReadsInto SnappyFramed.readChannel := by
  intro dest source Q E hroom hend hsome
  apply SnappyFramed.wp_readChannel hroom
  · exact fun t hs _ ht _ => hend t hs ht
  · exact fun xs t h _ hdata _ hsize => hsome xs t h hdata hsize

theorem readsInto_readArray : ReadsInto readArray := by
  intro dest source Q E hroom hend hsome
  have hlim := dest.limit_le
  have hpos := dest.position_le
  have hrem : dest.remaining = dest.limit - dest.position := rfl
  simp only [readArray, wp_bind]
  apply Source.wp_read hroom
  · exact fun t hs _ ht _ => hend t hs ht
  · intro n t hn hns ht _ _ hsize
    have hl : (source.data.take n).length = n := by simp; omega
    have hle : (source.data.take n).length ≤ dest.remaining := by omega
    -- bytes in the array and then a step of the position are bytes put
    have hmoved : ∀ h₁ h₂, (⟨splice dest.array dest.position (source.data.take n), dest.position,
        dest.limit, h₁, h₂⟩ : ByteBuffer).setPosition
          ((dest.position : Int) + (source.data.take n).length) =
        .ok (dest.store (source.data.take n) hle) := by
      intro h₁ h₂
      rw [ByteBuffer.setPosition, dif_pos ⟨by omega, by dsimp only; omega⟩]
      exact congrArg Except.ok (ByteBuffer.ext rfl (by dsimp only [ByteBuffer.store]; omega) rfl)
    dsimp only
    rw [dif_pos (by omega)]
    simp only [wp_bind, hmoved, wp_fromExcept_ok, wp_pure]
    exact hsome _ t hle (by rw [ht, List.take_append_drop]) hsize

/-- The source is taken whole. -/
theorem wp_transferFromBy (hc : w.codec.Bounded) (hsteady : c₀.Steady)
    (h : Writing w b c₀ done current s) {source : Source}
    {read : ByteBuffer → EStateM Throwable Source (Option Nat × ByteBuffer)} (hread : ReadsInto read)
    {Q : Nat → SnappyFramedOutputStream × Source → Prop}
    {E : Throwable → SnappyFramedOutputStream × Source → Prop}
    (hQ : ∀ t source', Writing w b c₀ done (current ++ source.data) t → source'.data = [] →
      Q source.data.length (t, source')) :
    wp (transferFromBy w read) Q E (s, source) := by
  simp only [transferFromBy, onStream, wp_bind, wp_get, wp_ite, h.toOpen.notClosed,
    Bool.false_eq_true, if_false, wp_zoom]
  apply wp_makeRoom hc hsteady h
  intro s₁ h₁ hroom
  refine wp_loop
    (fun total p => ∃ xs, source.data = xs ++ p.2.data ∧ total = xs.length ∧
      Ready w b c₀ done (current ++ xs) p.1 ∧ 0 < p.1.buffer.remaining)
    (fun _ p => p.2.size) ?_ ⟨[], rfl, rfl, by simpa using h₁, hroom⟩ (Nat.lt_succ_self _)
  rintro total ⟨t, rest⟩ ⟨xs, hdata, rfl, ht, hroom⟩
  dsimp only at hdata ht hroom ⊢
  simp only [transferRound, wp_bind, wp_get, wp_zoom]
  apply hread t.buffer rest _ _ hroom
  · intro rest' hrest hrest'
    rw [hrest, List.append_nil] at hdata
    simp only [wp_pure, Sum.elim_inr]
    rw [← hdata] at ht ⊢
    exact hQ t rest' (.inl ht) hrest'
  · intro ys rest' hle hrest hsize
    simp only [wp_bind, wp_modify, onStream, wp_zoom, wp_pure, Sum.elim_inl]
    apply wp_makeRoom hc hsteady (.inl (ht.store hle _))
    intro u hu hroom'
    rw [List.append_assoc] at hu
    exact ⟨⟨xs ++ ys, by rw [hdata, hrest, List.append_assoc], by simp, hu, hroom'⟩, hsize⟩

end

end SnappyFramedOutputStream

end SnappyJava
