import SnappyJava.FramedWriterFailures

/-! What `write(ByteBuffer)` leaves of the caller's buffer, over a channel that
may throw at any write. The loop lowers the limit of the source for one block at
a time and restores it after the last, so an exception in between finds it
lowered. -/

namespace SnappyJava

open Exec Memory Words Blocks

namespace WritableByteChannel

/-- A flush makes two writes. The one with the number `j` meets a failure. -/
def FlushFails (c : WritableByteChannel) (j : Nat) : Prop :=
  ∃ r ∈ (c.responses.drop (2 * j)).take 2, r.2 = true

instance (c : WritableByteChannel) (j : Nat) : Decidable (c.FlushFails j) :=
  inferInstanceAs (Decidable (∃ r ∈ (c.responses.drop (2 * j)).take 2, r.2 = true))

theorem flushFails_zero (c : WritableByteChannel) (xs : Bytes) :
    c.FlushFails 0 ↔ c.fails = true ∨ (c.after xs).fails = true := by
  unfold FlushFails fails after
  rcases c.responses with - | ⟨r, - | ⟨r', rs⟩⟩ <;> simp

/-- `i` flushes later. -/
theorem flushFails_of_drop {c d : WritableByteChannel} {i : Nat}
    (h : d.responses = c.responses.drop (2 * i)) (j : Nat) :
    d.FlushFails j ↔ c.FlushFails (i + j) := by
  unfold FlushFails
  rw [h, List.drop_drop, Nat.mul_add]

end WritableByteChannel

namespace SnappyFramedOutputStream

section
variable {w : FrameWriter} {b : Nat} {s : SnappyFramedOutputStream}

theorem wp_flushBuffer_flushFails (hc : w.codec.Bounded) (h : Open b s)
    (hpos : 0 < s.buffer.position)
    {Q : Unit → SnappyFramedOutputStream → Prop} {E : Throwable → SnappyFramedOutputStream → Prop}
    (hQ : ∀ t, Open b t → t.buffer.remaining = b → t.taken = s.taken →
      t.out.responses = s.out.responses.drop 2 → ¬ s.out.FlushFails 0 → Q () t)
    (hE : ∀ t, t.taken = s.taken → s.out.FlushFails 0 → E .underlyingException t) :
    wp (flushBuffer w) Q E s := by
  have hiff := s.out.flushFails_zero (w.header (pending s))
  apply wp_flushBuffer hc h hpos rfl
  · intro t ht hp hl htaken _ hf hf' hout
    refine hQ t ht (by rw [ByteBuffer.remaining, hp, hl, Nat.sub_zero]) htaken ?_ ?_
    · rw [hout]
      simp only [WritableByteChannel.after, ← List.drop_one, List.drop_drop]
    · rw [hiff, hf, hf']
      decide
  · exact fun t ht hf _ => hE t ht.taken_eq (hiff.mpr (.inl hf))
  · exact fun t ht _ hf' _ => hE t ht.taken_eq (hiff.mpr (.inr hf'))

theorem wp_putSource_open (h : Open b s) {src : ByteBuffer}
    (hle : src.remaining ≤ s.buffer.remaining)
    {Q : Unit → SnappyFramedOutputStream × ByteBuffer → Prop}
    {E : Throwable → SnappyFramedOutputStream × ByteBuffer → Prop}
    (hQ : ∀ t, Open b t → t.buffer.remaining = s.buffer.remaining - src.remaining →
      t.buffer.position = s.buffer.position + src.remaining →
      t.taken = s.taken ++ src.content → t.out = s.out → Q () (t, src.ended)) :
    wp putSource Q E (s, src) := by
  have hlen := src.length_content
  have hle' : src.content.length ≤ s.buffer.remaining := hlen.trans_le hle
  have hput : s.buffer.put src.content = .ok (s.buffer.store src.content hle') := dif_pos hle'
  simp only [putSource, put, onStream, wp_bind, wp_get, wp_zoom, wp_modify, hput, wp_fromExcept_ok,
    wp_set]
  refine hQ _ (h.store hle' _) ?_ ?_ rfl rfl
  · rw [ByteBuffer.remaining_store, hlen]
  · exact congrArg (s.buffer.position + ·) hlen

/-! ## When the limit is kept -/

/-- The room in the block, and whether a flush comes first to make it. -/
def roomFor (b : Nat) (s : SnappyFramedOutputStream) : Nat :=
  if s.buffer.remaining = 0 then b else s.buffer.remaining

def flushesFirst (s : SnappyFramedOutputStream) : Nat := if s.buffer.remaining = 0 then 1 else 0

/-- Where the block with the number `i` ends in the source. -/
def blockEnd (b : Nat) (s : SnappyFramedOutputStream) (src : ByteBuffer) (i : Nat) : Nat :=
  src.position + roomFor b s + i * b

/-- The source fits the room. Or no flush throws of a block that ends before the
source does, and the last limit computed is an `int` or the blocks end where the
source does. -/
def KeepsLimit (b : Nat) (s : SnappyFramedOutputStream) (src : ByteBuffer) : Prop :=
  src.remaining ≤ roomFor b s ∨
    (∀ i, blockEnd b s src i < src.limit →
      (∀ j < i + flushesFirst s, ¬ s.out.FlushFails j) → ¬ s.out.FlushFails (i + flushesFirst s)) ∧
    ((∀ j < (src.remaining - roomFor b s) / b + 1 + flushesFirst s, ¬ s.out.FlushFails j) →
      Fits b (roomFor b s) src ∨ (src.remaining - roomFor b s) % b = 0)

/-- The limit is that on entry, and the position has moved over what the stream
has taken. -/
def Consistent (s : SnappyFramedOutputStream) (src : ByteBuffer)
    (p : SnappyFramedOutputStream × ByteBuffer) : Prop :=
  p.2.array = src.array ∧ p.2.limit = src.limit ∧ src.position ≤ p.2.position ∧
    p.1.taken = s.taken ++ src.content.take (p.2.position - src.position)

/-! ## The blocks of the source -/

theorem blockEnd_lt (hb : 0 < b) (src : ByteBuffer) {i j : Nat} :
    blockEnd b s src i < blockEnd b s src j ↔ i < j := by
  unfold blockEnd
  rw [Nat.add_lt_add_iff_left, Nat.mul_lt_mul_right hb]

theorem blockEnd_succ (src : ByteBuffer) (i : Nat) :
    blockEnd b s src (i + 1) = blockEnd b s src i + b := by
  unfold blockEnd
  rw [Nat.add_mul, Nat.one_mul, ← Nat.add_assoc]

/-- The last block that ends inside the source, and what is left over behind it. -/
theorem blockEnd_div {src : ByteBuffer} (hlarge : roomFor b s < src.remaining) :
    blockEnd b s src ((src.remaining - roomFor b s) / b) + (src.remaining - roomFor b s) % b =
      src.limit := by
  have hdiv := Nat.div_add_mod' (src.remaining - roomFor b s) b
  have hpos := src.position_le
  have hrem : src.remaining = src.limit - src.position := rfl
  unfold blockEnd
  omega

theorem fits_iff {src : ByteBuffer} (hlarge : roomFor b s < src.remaining) :
    Fits b (roomFor b s) src ↔
      blockEnd b s src ((src.remaining - roomFor b s) / b + 1) < 2 ^ 31 := by
  unfold Fits blockEnd
  omega

section
variable {src : ByteBuffer} {i : Nat} (hb : 0 < b) (hlarge : roomFor b s < src.remaining)
  (hflushed : ∀ j < i + flushesFirst s, ¬ s.out.FlushFails j)
include hb hlarge hflushed

/-- The loop has ended. -/
theorem keepsLimit_of_done (hover : src.limit < blockEnd b s src i)
    (hint : blockEnd b s src i < 2 ^ 31) : KeepsLimit b s src := by
  have hlast := blockEnd_div hlarge
  have hi : (src.remaining - roomFor b s) / b < i := by
    rw [← @blockEnd_lt b s hb src]
    omega
  refine .inr ⟨fun i' hi' _ => ?_, fun _ => .inl ?_⟩
  · have hlt : i' < i := by
      rw [← @blockEnd_lt b s hb src]
      omega
    exact hflushed _ (by omega)
  · rw [fits_iff hlarge]
    by_contra hbig
    have hle : i < (src.remaining - roomFor b s) / b + 1 := by
      rw [← @blockEnd_lt b s hb src]
      omega
    omega

/-- A flush of the loop has thrown. -/
theorem keepsLimit_iff_of_flush (hwithin : blockEnd b s src i ≤ src.limit)
    (hfail : s.out.FlushFails (i + flushesFirst s)) :
    KeepsLimit b s src ↔ blockEnd b s src i = src.limit := by
  have hlast := blockEnd_div hlarge
  constructor
  · rintro (hfit | ⟨hflush, -⟩)
    · omega
    · by_contra hne
      exact hflush i (by omega) hflushed hfail
  · intro hend
    refine .inr ⟨fun i' hi' _ => ?_, fun hall => ?_⟩
    · have hlt : i' < i := by
        rw [← @blockEnd_lt b s hb src]
        omega
      exact hflushed _ (by omega)
    · have hle : i < (src.remaining - roomFor b s) / b + 1 := by
        rw [← @blockEnd_lt b s hb src, blockEnd_succ]
        have := Nat.mod_lt (src.remaining - roomFor b s) hb
        omega
      exact absurd hfail (hall _ (by omega))

/-- The loop has computed a limit that is not an `int`. -/
theorem keepsLimit_iff_of_over (hi : 0 < i) (hsrc : src.limit < 2 ^ 31)
    (hprev : blockEnd b s src (i - 1) ≤ src.limit) (hover : 2 ^ 31 ≤ blockEnd b s src i) :
    KeepsLimit b s src ↔ blockEnd b s src (i - 1) = src.limit := by
  have hlast := blockEnd_div hlarge
  have hk : (src.remaining - roomFor b s) / b = i - 1 := by
    have h₁ : i - 1 < (src.remaining - roomFor b s) / b + 1 := by
      rw [← @blockEnd_lt b s hb src, blockEnd_succ]
      have := Nat.mod_lt (src.remaining - roomFor b s) hb
      omega
    have h₂ : (src.remaining - roomFor b s) / b < i := by
      rw [← @blockEnd_lt b s hb src]
      omega
    omega
  have hfits := fits_iff hlarge
  rw [hk, Nat.sub_add_cancel hi] at hfits
  rw [hk] at hlast
  constructor
  · rintro (hfit | ⟨-, hlimit⟩)
    · omega
    · rw [hk, Nat.sub_add_cancel hi] at hlimit
      rcases hlimit hflushed with hf | hm
      · have := hfits.mp hf
        omega
      · omega
  · intro hend
    refine .inr ⟨fun i' hi' _ => ?_, fun _ => .inr (by omega)⟩
    have hlt : i' < i := by
      rw [← @blockEnd_lt b s hb src]
      omega
    exact hflushed _ (by omega)

end

/-- Before the round `i`. -/
structure Copying (b : Nat) (s : SnappyFramedOutputStream) (src : ByteBuffer) (i : Nat)
    (p : SnappyFramedOutputStream × ByteBuffer) : Prop where
  opened : Open b p.1
  array_eq : p.2.array = src.array
  le_position : src.position ≤ p.2.position
  position_le : p.2.position ≤ src.limit
  room_pos : 0 < p.1.buffer.remaining
  end_eq : p.2.position + p.1.buffer.remaining = blockEnd b s src i
  limit_eq : 0 < i → p.2.limit = p.2.position
  room_eq : 0 < i → p.1.buffer.remaining = b
  taken_eq : p.1.taken = s.taken ++ src.content.take (p.2.position - src.position)
  responses_eq : p.1.out.responses = s.out.responses.drop (2 * (i + flushesFirst s))
  flushed : ∀ j < i + flushesFirst s, ¬ s.out.FlushFails j

/-- A round fills a block and flushes it, and the flush throws or not; or it
leaves the loop; or it computes a limit that is not an `int`. -/
theorem wp_fillRound_copying (hc : w.codec.Bounded) {src : ByteBuffer}
    (hsrc : src.capacity < 2 ^ 31) {i : Nat} {p : SnappyFramedOutputStream × ByteBuffer}
    (h : Copying b s src i p)
    {Q : Unit ⊕ Unit → SnappyFramedOutputStream × ByteBuffer → Prop}
    {E : Throwable → SnappyFramedOutputStream × ByteBuffer → Prop}
    (hNext : ∀ q, Copying b s src (i + 1) q → p.2.position < q.2.position → Q (.inl ()) q)
    (hDone : src.limit < blockEnd b s src i → blockEnd b s src i < 2 ^ 31 → Q (.inr ()) p)
    (hFlush : ∀ q, blockEnd b s src i ≤ src.limit → s.out.FlushFails (i + flushesFirst s) →
      (Consistent s src q ↔ blockEnd b s src i = src.limit) → E .underlyingException q)
    (hOver : ∀ message, 2 ^ 31 ≤ blockEnd b s src i → E (.illegalArgumentException message) p) :
    wp (fillRound w (src.position + src.remaining) ()) Q E p := by
  have hmax := h.opened.le_max
  have hM : maxBlockSize = 65536 := rfl
  have hlim := src.limit_le
  have hcap : src.array.length = src.capacity := rfl
  have hle := h.le_position
  have hend := h.position_le
  have hrem : src.remaining = src.limit - src.position := rfl
  have hsum := h.end_eq
  have hbuf : p.1.buffer.remaining ≤ b := by
    have hl := h.opened.limit_le
    have : p.1.buffer.remaining = p.1.buffer.limit - p.1.buffer.position := rfl
    omega
  have hroom := h.room_pos
  unfold fillRound
  simp only [wp_bind, wp_get, wp_ite]
  generalize hnew : wrap32 ((p.2.position : Int) + p.1.buffer.remaining) = newLimit
  rcases Nat.lt_or_ge (p.2.position + p.1.buffer.remaining) (2 ^ 31) with hint | hbig
  · rw [wrap32_of_range (by omega) (by omega), ← Nat.cast_add] at hnew
    subst hnew
    split
    · rename_i hwithin
      have hset := ByteBuffer.setLimit_of_le (Nat.le_add_right p.2.position p.1.buffer.remaining)
        (by rw [ByteBuffer.capacity, h.array_eq]; omega)
      rw [hset]
      simp only [wp_fromExcept_ok, wp_set]
      apply wp_putSource_open h.opened (Nat.le_of_eq (Nat.add_sub_cancel_left _ _))
      intro t ht hfull hpos htaken hout
      simp only [onStream, wp_zoom, wp_pure]
      have hnext := take_content_append src hle (n := p.1.buffer.remaining) (by omega)
      rw [← h.array_eq] at hnext
      change t.buffer.position = p.1.buffer.position +
        (p.2.position + p.1.buffer.remaining - p.2.position) at hpos
      change t.taken = p.1.taken ++ slice p.2.array p.2.position
        (p.2.position + p.1.buffer.remaining - p.2.position) at htaken
      rw [Nat.add_sub_cancel_left] at hpos htaken
      rw [h.taken_eq, List.append_assoc, hnext] at htaken
      have hfails := WritableByteChannel.flushFails_of_drop (d := t.out) (c := s.out)
        (hout ▸ h.responses_eq) 0
      rw [Nat.add_zero] at hfails
      apply wp_flushBuffer_flushFails hc ht (by omega)
      · intro u hu hub hutaken hresponses hok
        refine hNext _ ?_ (by dsimp only [ByteBuffer.ended]; omega)
        refine ⟨hu, h.array_eq, ?_, ?_, ?_, ?_, fun _ => rfl, fun _ => hub, ?_, ?_, ?_⟩
        · dsimp only [ByteBuffer.ended]
          omega
        · dsimp only [ByteBuffer.ended]
          omega
        · exact hub ▸ h.opened.pos
        · dsimp only [ByteBuffer.ended]
          rw [hub, blockEnd, Nat.add_mul, Nat.one_mul, ← Nat.add_assoc, ← blockEnd]
          omega
        · exact hutaken.trans htaken
        · rw [hresponses, hout, h.responses_eq, List.drop_drop]
          congr 1
          omega
        · intro j hj
          rcases Nat.lt_or_ge j (i + flushesFirst s) with hlt | hge
          · exact h.flushed j hlt
          · rw [show j = i + flushesFirst s by omega]
            exact fun hf => hok (hfails.mpr (by rwa [Nat.add_comm] at hf ⊢))
      · intro u hutaken hf
        refine hFlush _ (by omega) (hfails.mp hf) ?_
        constructor
        · exact fun hcons => hsum.symm.trans hcons.2.1
        · intro hend'
          exact ⟨h.array_eq, hsum.trans hend', by dsimp only [ByteBuffer.ended]; omega,
            hutaken.trans htaken⟩
    · rename_i hover
      exact hDone (by omega) (by omega)
  · have hneg := wrap32_neg (x := (p.2.position : Int) + p.1.buffer.remaining) (by omega) (by omega)
    rw [hnew] at hneg
    obtain ⟨message, herr⟩ := p.2.setLimit_of_neg hneg
    rw [if_pos (by omega), herr]
    exact hOver message (by omega)

/-- Room is made, or the flush for it throws and nothing has been taken. -/
theorem wp_makeRoom_copying (hc : w.codec.Bounded) (h : Open b s) (src : ByteBuffer) :
    wp (makeRoom w) (fun _ t => Copying b s src 0 (t, src))
      (fun _ t => t.taken = s.taken ∧ flushesFirst s = 1 ∧ s.out.FlushFails 0) s := by
  have hpos := h.limit_pos
  have hple := s.buffer.position_le
  simp only [makeRoom, wp_bind, wp_get, wp_when]
  split
  · rename_i hfull
    have hfirst : flushesFirst s = 1 := if_pos hfull
    have hroom : roomFor b s = b := if_pos hfull
    unfold ByteBuffer.remaining at hfull
    apply wp_flushBuffer_flushFails hc h (by omega)
    · intro t ht hr htaken hresponses hok
      refine ⟨ht, rfl, le_refl _, src.position_le, hr ▸ h.pos, ?_, fun h0 => absurd h0 (lt_irrefl 0),
        fun h0 => absurd h0 (lt_irrefl 0), by simpa using htaken, ?_, ?_⟩
      · rw [blockEnd, hroom, hr, Nat.zero_mul, Nat.add_zero]
      · rw [hresponses, hfirst]
      · intro j hj
        rw [show j = 0 by omega]
        exact hok
    · exact fun t htaken hf => ⟨htaken, hfirst, hf⟩
  · rename_i hroom
    have hfirst : flushesFirst s = 0 := if_neg hroom
    have hr : roomFor b s = s.buffer.remaining := if_neg hroom
    refine ⟨h, rfl, le_refl _, src.position_le, Nat.pos_of_ne_zero hroom, ?_,
      fun h0 => absurd h0 (lt_irrefl 0), fun h0 => absurd h0 (lt_irrefl 0), by simp, ?_, ?_⟩
    · rw [blockEnd, hr, Nat.zero_mul, Nat.add_zero]
    · rw [hfirst, Nat.add_zero, Nat.mul_zero, List.drop_zero]
    · intro j hj
      omega

/-- The whole rest of the source has been put. -/
theorem consistent_of_taken {src : ByteBuffer} {t : SnappyFramedOutputStream}
    (htaken : t.taken = s.taken ++ src.content) : Consistent s src (t, src.ended) := by
  refine ⟨rfl, rfl, src.position_le, ?_⟩
  have hlen := src.length_content
  rw [htaken]
  congr 1
  exact (List.take_of_length_le (Nat.le_of_eq hlen)).symm

private theorem wp_writeBuffer_consistent (hc : w.codec.Bounded) (h : Open b s) {src : ByteBuffer}
    (hsrc : src.capacity < 2 ^ 31) :
    wp (writeBuffer w) (fun _ p => Consistent s src p ↔ KeepsLimit b s src)
      (fun _ p => Consistent s src p ↔ KeepsLimit b s src) (s, src) := by
  have hb := h.pos
  have hlim := src.limit_le
  have hcap : src.array.length = src.capacity := rfl
  have hrem : src.remaining = src.limit - src.position := rfl
  simp only [writeBuffer, onStream, wp_bind, wp_get, wp_ite, h.notClosed, Bool.false_eq_true,
    if_false, wp_zoom, wp_pure]
  refine wp_mono (wp_makeRoom_copying hc h src) ?_ ?_
  · rintro - t ht
    have hroom : t.buffer.remaining = roomFor b s := by
      have := ht.end_eq
      rw [blockEnd, Nat.zero_mul] at this
      dsimp only at this
      omega
    have htaken : t.taken = s.taken := by
      have := ht.taken_eq
      simpa only [Nat.sub_self, List.take_zero, List.append_nil] using this
    split
    · rename_i hfit
      apply wp_putSource_open ht.opened hfit
      intro u _ _ _ hu _
      rw [htaken] at hu
      exact ⟨fun _ => .inl (by omega), fun _ => consistent_of_taken hu⟩
    · rename_i hlarge
      have hlarge' : roomFor b s < src.remaining := by omega
      refine wp_loop (fun _ p => ∃ i, Copying b s src i p) (fun _ p => src.limit - p.2.position)
        ?_ ⟨0, ht⟩ (by dsimp only; omega)
      rintro ⟨⟩ p ⟨i, hi⟩
      have hend := hi.position_le
      have hle := hi.le_position
      have hsum := hi.end_eq
      have hfirst : 0 < i ∨ blockEnd b s src i < src.limit := by
        rcases Nat.eq_zero_or_pos i with rfl | hpos
        · right
          rw [blockEnd, Nat.zero_mul]
          omega
        · exact .inl hpos
      apply wp_fillRound_copying hc hsrc hi
      · intro q hq hlt
        have := hq.position_le
        exact ⟨⟨i + 1, hq⟩, by omega⟩
      · intro hover hint
        have hkeeps := keepsLimit_of_done hb hlarge' hi.flushed hover hint
        have hset := ByteBuffer.setLimit_of_le (b := p.2) hend
          (by rw [ByteBuffer.capacity, hi.array_eq]; exact hlim)
        dsimp only [Sum.elim_inr]
        rw [show src.position + src.remaining = src.limit by omega, hset]
        simp only [wp_fromExcept_ok, wp_set]
        apply wp_putSource_open hi.opened
        · dsimp only [ByteBuffer.remaining] at hsum ⊢
          omega
        · intro u _ _ _ hu _
          have hall := take_content_append src hle (n := src.limit - p.2.position) (by omega)
          rw [← hi.array_eq] at hall
          change u.taken = p.1.taken ++
            slice p.2.array p.2.position (src.limit - p.2.position) at hu
          rw [hi.taken_eq, List.append_assoc, hall, Nat.add_sub_cancel' hend] at hu
          exact ⟨fun _ => hkeeps, fun _ => ⟨hi.array_eq, rfl, src.position_le, hu⟩⟩
      · intro q hwithin hfail hq
        rw [hq, keepsLimit_iff_of_flush hb hlarge' hi.flushed hwithin hfail]
      · intro message hover
        have hpos : 0 < i := by omega
        have hprev : p.2.position = blockEnd b s src (i - 1) := by
          have hsucc := @blockEnd_succ b s src (i - 1)
          rw [Nat.sub_add_cancel hpos] at hsucc
          have := hi.room_eq hpos
          omega
        rw [keepsLimit_iff_of_over hb hlarge' hi.flushed hpos (by omega) (by omega) hover, ← hprev,
          ← hi.limit_eq hpos]
        exact ⟨fun hcons => hcons.2.1, fun hlimit => ⟨hi.array_eq, hlimit, hle, hi.taken_eq⟩⟩
  · rintro - t ⟨htaken, hfirst, hf⟩
    refine ⟨fun _ => .inr ⟨fun i _ hall => ?_, fun hall => ?_⟩, fun _ => ?_⟩
    · exact absurd hf (hall 0 (by omega))
    · exact absurd hf (hall 0 (by rw [hfirst]; exact Nat.succ_pos _))
    · exact ⟨rfl, rfl, le_refl _, by simpa using htaken⟩

/-- `write(ByteBuffer)` leaves the caller's buffer as it should, whether it
returns or throws, exactly if no flush of its loop throws before the end of the
source has been reached. -/
theorem consistent_iff_keepsLimit (hc : w.codec.Bounded) (h : s.closed = true ∨ Open b s)
    {src : ByteBuffer} (hsrc : src.capacity < 2 ^ 31) :
    wp (writeBuffer w)
      (fun _ p => Consistent s src p ↔ s.closed = true ∨ KeepsLimit b s src)
      (fun _ p => Consistent s src p ↔ s.closed = true ∨ KeepsLimit b s src) (s, src) := by
  rcases h with hclosed | h
  · simp only [writeBuffer, wp_bind, wp_get, wp_ite, wp_throw, hclosed, if_true]
    exact ⟨fun _ => .inl trivial, fun _ => ⟨rfl, rfl, le_refl _, by simp⟩⟩
  · have hopen : ¬ s.closed = true := by
      rw [h.notClosed]
      decide
    refine wp_mono (wp_writeBuffer_consistent hc h hsrc) ?_ ?_
    · exact fun _ _ hp => hp.trans ⟨.inr, fun hk => hk.resolve_left hopen⟩
    · exact fun _ _ hp => hp.trans ⟨.inr, fun hk => hk.resolve_left hopen⟩

end

theorem consistent_iff_keepsLimit_twoPending :
    wp (writeBuffer literalWriter)
      (fun _ p => Consistent twoPending (.wrap [3, 4, 5]) p ↔
        twoPending.closed = true ∨ KeepsLimit 4 twoPending (.wrap [3, 4, 5]))
      (fun _ p => Consistent twoPending (.wrap [3, 4, 5]) p ↔
        twoPending.closed = true ∨ KeepsLimit 4 twoPending (.wrap [3, 4, 5]))
      (twoPending, .wrap [3, 4, 5]) :=
  consistent_iff_keepsLimit LiteralCodec.lawful.toBounded (.inr open_twoPending) (by decide)

/-- Two of three bytes fill the block, whose flush throws: the limit stays at 2. -/
theorem failed_flush_not_consistent :
    wp (writeBuffer literalWriter) (fun _ _ => False)
      (fun e p => e = .underlyingException ∧ p.2.limit = 2 ∧
        ¬ Consistent twoPending (.wrap [3, 4, 5]) p)
      (twoPending, .wrap [3, 4, 5]) := by
  have hrun : wp (writeBuffer literalWriter) (fun _ _ => False)
      (fun e p => e = .underlyingException ∧ p.2.limit = 2) (twoPending, .wrap [3, 4, 5]) := by
    decide +kernel
  refine wp_mono hrun (fun _ _ hfalse => hfalse) ?_
  rintro e p ⟨he, hlimit⟩
  refine ⟨he, hlimit, fun hcons => ?_⟩
  have hkept := hlimit.symm.trans hcons.2.1
  exact absurd hkept (by decide)

end SnappyFramedOutputStream

end SnappyJava
