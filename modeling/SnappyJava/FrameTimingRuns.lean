import SnappyJava.FrameTiming
import SnappyJava.FramesAhead

/-! Two framed readers over the same bytes, call by call: the delivery makes a
difference only where it hides the end of the data. -/

namespace SnappyJava.SnappyFramedInputStream

open Exec Memory Reading Words

/-! ## What is handed out -/

/-- After `bytes` have been handed out. -/
def handOut (s : SnappyFramedInputStream) (bytes : Bytes) (events : List Leases.Event) :
    SnappyFramedInputStream :=
  { s with
    position := s.position + bytes.length
    poolEvents := events
    deliveries := s.deliveries ++ [⟨bytes, s.position, s.frames.getLast?⟩] }

section
variable {platform : Platform} {data : Bytes} {p q : Nat} {s t : SnappyFramedInputStream}

theorem Alike.not_closed (h : Alike data p q s t) : ¬ s.closed = true ∧ ¬ t.closed = true := by
  simp [h.opened.1, h.opened.2]

theorem Alike.handOut (h : Alike data p q s t) (bytes : Bytes) (ev ev' : List Leases.Event) :
    Alike data p q (handOut s bytes ev) (handOut t bytes ev') := by
  refine { h with position := ?_, delivered := ?_ }
  · simp only [SnappyFramedInputStream.handOut, h.position]
  · have hd := h.delivered
    unfold SnappyFramedInputStream.delivered at hd
    simp only [SnappyFramedInputStream.delivered, SnappyFramedInputStream.handOut,
      List.flatMap_append, hd, List.flatMap_cons, List.flatMap_nil]

theorem undelivered_handOut {b : Lease} (hb : s.buffer = some b) (bytes : Bytes)
    (ev : List Leases.Event) :
    undelivered (handOut s bytes ev) = (undelivered s).drop bytes.length := by
  simp only [undelivered, handOut, hb, Option.map_some, Option.getD_some, slice, List.drop_take,
    List.drop_drop, Nat.sub_sub]

/-- A part of what is left is the same on both sides, and so is the rest. -/
theorem Alike.sliced (h : Alike data p q s t) (hu : undelivered s = undelivered t) {b b' : Lease}
    (hb : s.buffer = some b) (hb' : t.buffer = some b') {n : Nat} (hn : n ≤ s.valid - s.position)
    (hfits : s.position + n ≤ b.contents.length) (ev ev' : List Leases.Event) :
    ∃ x, slice b.contents s.position n = x ∧ slice b'.contents t.position n = x ∧ x.length = n ∧
      Alike data p q (SnappyFramedInputStream.handOut s x ev)
        (SnappyFramedInputStream.handOut t x ev') ∧
      undelivered (SnappyFramedInputStream.handOut s x ev) =
        undelivered (SnappyFramedInputStream.handOut t x ev') := by
  have htake : ∀ (u : SnappyFramedInputStream) (k : Lease), u.buffer = some k →
      n ≤ u.valid - u.position → slice k.contents u.position n = (undelivered u).take n := by
    intro u k hk hle
    simp only [undelivered, hk, Option.map_some, Option.getD_some, slice, List.take_take,
      Nat.min_eq_left hle]
  refine ⟨slice b.contents s.position n, rfl, ?_, length_slice _ hfits, h.handOut _ ev ev', ?_⟩
  · rw [htake s b hb hn, htake t b' hb' (h.valid ▸ h.position ▸ hn), hu]
  · rw [undelivered_handOut hb, undelivered_handOut hb', hu]

/-- The byte that `read()` hands out. -/
theorem getElem_undelivered {b : Lease} (hb : s.buffer = some b) (hlt : s.position < s.valid) :
    b.contents[s.position]? = (undelivered s)[0]? := by
  simp only [undelivered, hb, Option.map_some, Option.getD_some, slice]
  rw [List.getElem?_take_of_lt (by omega), List.getElem?_drop, Nat.add_zero]

/-- What the bulk methods hand out. -/
theorem wp₂_takeAvailable (h : Alike data p q s t) (hu : undelivered s = undelivered t) (room : Nat)
    {Q : Bytes → SnappyFramedInputStream → Bytes → SnappyFramedInputStream → Prop}
    {E : Throwable → SnappyFramedInputStream → Throwable → SnappyFramedInputStream → Prop}
    {X : Throwable → SnappyFramedInputStream → Bytes → SnappyFramedInputStream → Prop}
    (hQ : ∀ bytes s' t', Alike data p q s' t' → undelivered s' = undelivered t' → Q bytes s' bytes t')
    (hE : ∀ e s' t', Alike data p q s' t' → E e s' e t') :
    wp₂ (takeAvailable room) (takeAvailable room) Q E X s t := by
  have hav : (min (room : Int) s.availableNow).toNat ≤ s.valid - s.position := by
    rw [availableNow_eq h.opened.1]
    omega
  unfold takeAvailable
  rw [wp₂_get_bind, ← h.availableNow]
  generalize (min (room : Int) s.availableNow).toNat = size at hav
  apply wp₂_bind
  refine wp₂_access h.buffer (fun b b' ev ev' hb hb' hlen => ?_) (hE _ _ _ h)
  apply wp₂_ite (by rw [hlen, h.position])
  · intro _
    refine hE _ _ _ ?_
    exact { h with }
  intro hfits
  obtain ⟨x, hx, hx', rfl, hout, hleft⟩ := h.sliced hu hb hb' hav (Nat.le_of_not_lt hfits) ev ev'
  rw [hx, hx']
  exact hQ _ _ _ hout hleft

/-- Where the caller cannot tell the two apart any more: the same exception after the
same bytes. -/
def FailAlike (e : Throwable) (s : SnappyFramedInputStream) (f : Throwable)
    (t : SnappyFramedInputStream) : Prop :=
  e = f ∧ s.delivered = t.delivered ∧ ¬ HiddenEnd s

/-- One side has taken the hidden end for a broken header, the other is at the end. -/
def EndMistaken {α : Type} (e : Throwable) (s : SnappyFramedInputStream) (_ : α)
    (t : SnappyFramedInputStream) : Prop :=
  e = .eofException "encountered EOF while reading block header" ∧ HiddenEnd s ∧ Over t ∧
    s.delivered = t.delivered

theorem Alike.failAlike (h : Alike data p q s t) (e : Throwable) : FailAlike e s e t :=
  ⟨rfl, h.delivered, h.seen⟩

/-- The same for the caller: the same bytes are left on both sides, or both are
closed. -/
def Level (s t : SnappyFramedInputStream) : Prop :=
  (∃ data p q, Alike data p q s t ∧ undelivered s = undelivered t) ∨
    s.closed = true ∧ t.closed = true ∧ s.delivered = t.delivered ∧ ¬ HiddenEnd s

theorem Level.delivered (h : Level s t) : s.delivered = t.delivered ∧ ¬ HiddenEnd s := by
  rcases h with ⟨data, p, q, hA, -⟩ | ⟨-, -, hd, hend⟩
  · exact ⟨hA.delivered, hA.seen⟩
  · exact ⟨hd, hend⟩

/-- `ensureBuffer`, for what follows it. -/
theorem wp₂_ensureBuffer_level (hpool : platform.bufferPool.Contract)
    (h : Alike data p q s t) (hu : undelivered s = undelivered t)
    {Q : Bool → SnappyFramedInputStream → Bool → SnappyFramedInputStream → Prop}
    {E : Throwable → SnappyFramedInputStream → Throwable → SnappyFramedInputStream → Prop}
    {X : Throwable → SnappyFramedInputStream → Bool → SnappyFramedInputStream → Prop}
    (hReady : ∀ data' p' q' s' t', Alike data' p' q' s' t' → undelivered s' = undelivered t' →
      Q true s' true t')
    (hEnd : ∀ s' t', Level s' t' → Q false s' false t')
    (hE : ∀ e s' t', FailAlike e s' e t' → E e s' e t')
    (hX : ∀ e s' t', EndMistaken e s' false t' → X e s' false t') :
    wp₂ (ensureBuffer platform) (ensureBuffer platform) Q E X s t := by
  refine wp₂_mono (wp₂_ensureBuffer hpool h hu) ?_ ?_ ?_
  · rintro a s' _ t' ⟨rfl, hu', ⟨data', p', q', hA⟩, -⟩
    cases a with
    | true => exact hReady data' p' q' s' t' hA hu'
    | false => exact hEnd s' t' (.inl ⟨data', p', q', hA, hu'⟩)
  · rintro e s' _ t' ⟨rfl, data', p', q', hA⟩
    exact hE e s' t' (hA.failAlike e)
  · rintro e s' b t' ⟨rfl, he, hend, hover, hd⟩
    exact hX e s' t' ⟨he, hend, hover, hd⟩

end

/-! ## The calls -/

section
variable {platform : Platform} {s t : SnappyFramedInputStream}

/-- `read()`, where it does not come to an empty frame. -/
theorem wp₂_readByte (hpool : platform.bufferPool.Contract) (h : Level s t)
    (hnext : s.closed = false → NoEmptyAhead platform s) :
    wp₂ (readByte platform) (readByte platform)
      (fun a s' b t' => a = b ∧ Level s' t') FailAlike EndMistaken s t := by
  unfold readByte
  rw [wp₂_get_bind]
  rcases h with ⟨data, p, q, hA, hu⟩ | ⟨hs, ht, hd, hend⟩
  swap
  · rw [if_pos hs, if_pos ht]
    exact ⟨rfl, .inr ⟨hs, ht, hd, hend⟩⟩
  rw [if_neg hA.not_closed.1, if_neg hA.not_closed.2]
  apply wp₂_bind
  have hbyte := wp_ensureBuffer_byte hpool (direct_lt_of_room hA.direct_lt) hA.opened.1
    (hnext hA.opened.1)
  refine wp₂_mono (wp₂_and (wp₂_ensureBuffer hpool hA hu) hbyte) ?_ ?_ ?_
  · rintro ready u _ v ⟨⟨rfl, huv', ⟨data', p', q', huv⟩, -⟩, havailable⟩
    cases ready with
    | false => exact ⟨rfl, .inl ⟨data', p', q', huv, huv'⟩⟩
    | true =>
      have hlt : u.position < u.valid := by
        have hpos := havailable rfl
        rw [availableNow_eq huv.opened.1] at hpos
        omega
      have hlt' : v.position < v.valid := huv.valid ▸ huv.position ▸ hlt
      simp only [if_true]
      apply wp₂_bind
      refine wp₂_access huv.buffer (fun b b' ev ev' hb hb' hlen => ?_) (huv.failAlike _)
      have hfirst : b.contents[u.position]? = b'.contents[v.position]? := by
        rw [getElem_undelivered hb hlt, getElem_undelivered hb' hlt', huv']
      simp only [wp₂_get_bind, advance, wp₂_modify_bind]
      rw [hfirst]
      cases b'.contents[v.position]? with
      | none => exact ⟨rfl, huv.delivered, huv.seen⟩
      | some x =>
        have hout := huv.handOut [x] ev ev'
        have hleft := (undelivered_handOut hb [x] ev).trans
          (Eq.symm (huv' ▸ undelivered_handOut hb' [x] ev'))
        exact ⟨rfl, .inl ⟨data', p', q', hout, hleft⟩⟩
  · rintro e u _ v ⟨⟨rfl, data', p', q', huv⟩, -⟩
    exact huv.failAlike e
  · rintro e u b v ⟨⟨rfl, he, hend, hover, hd⟩, -⟩
    exact ⟨he, hend, hover, hd⟩

/-- `read(byte[], int, int)`. -/
theorem wp₂_read (hpool : platform.bufferPool.Contract) (h : Level s t)
    (output : Bytes) (offset length : Int) :
    wp₂ (read platform output offset length) (read platform output offset length)
      (fun a s' b t' => a = b ∧ Level s' t') FailAlike EndMistaken s t := by
  unfold read
  rw [wp₂_get_bind]
  apply wp₂_ite Iff.rfl
  · exact fun _ => ⟨rfl, h.delivered⟩
  intro _
  rcases h with ⟨data, p, q, hA, hu⟩ | ⟨hs, ht, hd, hend⟩
  swap
  · rw [if_pos hs, if_pos ht]
    exact ⟨rfl, hd, hend⟩
  rw [if_neg hA.not_closed.1, if_neg hA.not_closed.2]
  apply wp₂_ite Iff.rfl
  · exact fun _ => ⟨rfl, .inl ⟨data, p, q, hA, hu⟩⟩
  intro _
  apply wp₂_bind
  refine wp₂_ensureBuffer_level hpool hA hu ?_ ?_ (fun _ _ _ h => h) ?_
  · intro data' p' q' u v huv huv'
    simp only [if_true, wp₂_get_bind]
    apply wp₂_ite (by rw [huv.availableNow])
    · exact fun _ => huv.failAlike _
    · intro _
      apply wp₂_bind
      refine wp₂_takeAvailable huv huv' _ (fun bytes u' v' h' hu' => ?_) fun e u' v' h' => h'.failAlike e
      exact ⟨rfl, .inl ⟨data', p', q', h', hu'⟩⟩
  · exact fun u v huv => ⟨rfl, huv⟩
  · exact fun e u v he => he

/-- `read(ByteBuffer)`. -/
theorem wp₂_readBuffer (hpool : platform.bufferPool.Contract) (h : Level s t)
    (dst : ByteBuffer) :
    wp₂ (readBuffer platform dst) (readBuffer platform dst)
      (fun a s' b t' => a = b ∧ Level s' t') FailAlike EndMistaken s t := by
  unfold readBuffer
  rw [wp₂_get_bind]
  rcases h with ⟨data, p, q, hA, hu⟩ | ⟨hs, ht, hd, hend⟩
  swap
  · rw [if_pos hs, if_pos ht]
    exact ⟨rfl, hd, hend⟩
  rw [if_neg hA.not_closed.1, if_neg hA.not_closed.2]
  apply wp₂_ite Iff.rfl
  · exact fun _ => ⟨rfl, .inl ⟨data, p, q, hA, hu⟩⟩
  intro _
  apply wp₂_bind
  refine wp₂_ensureBuffer_level hpool hA hu ?_ ?_ (fun _ _ _ h => h) ?_
  · intro data' p' q' u v huv huv'
    simp only [if_true]
    apply wp₂_bind
    refine wp₂_takeAvailable huv huv' _ (fun bytes u' v' h' hu' => ?_) fun e u' v' h' => h'.failAlike e
    apply wp₂_fromExcept
    · exact fun _ _ => ⟨rfl, .inl ⟨data', p', q', h', hu'⟩⟩
    · exact fun e _ => h'.failAlike e
  · exact fun u v huv => ⟨rfl, huv⟩
  · exact fun e u v he => he

/-- A round of `transferTo(OutputStream)`. -/
theorem wp₂_transferToStreamRound {data : Bytes} {p q : Nat} {o : OutputStream}
    (hpool : platform.bufferPool.Contract) (hA : Alike data p q s t)
    (hu : undelivered s = undelivered t) (n : Nat) :
    wp₂ (transferToStreamRound platform n) (transferToStreamRound platform n)
      (fun r u r' v => r = r' ∧ u.2 = v.2 ∧
        ((∃ k data' p' q', r = .inl k ∧ Alike data' p' q' u.1 v.1 ∧
          undelivered u.1 = undelivered v.1 ∧
          u.1.rbc.size + (if u.1.position < u.1.valid then 1 else 0) <
            s.rbc.size + (if s.position < s.valid then 1 else 0) ∧
          v.1.rbc.size + (if v.1.position < v.1.valid then 1 else 0) <
            t.rbc.size + (if t.position < t.valid then 1 else 0)) ∨
          (∃ k, r = .inr k) ∧ Level u.1 v.1))
      (fun e u f v => FailAlike e u.1 f v.1 ∧ u.2 = v.2)
      (fun e u r v => (∃ k, r = .inr k) ∧ u.2 = v.2 ∧ EndMistaken e u.1 () v.1) (s, o) (t, o) := by
  unfold transferToStreamRound onStream
  apply wp₂_bind
  apply wp₂_zoom
  refine wp₂_mono (wp₂_ensureBuffer hpool hA hu) ?_ ?_ ?_
  · rintro ready u _ v ⟨rfl, huv, ⟨data', p', q', h'⟩, hsize⟩
    cases ready with
    | false =>
      exact ⟨rfl, rfl, .inr ⟨⟨n, rfl⟩, .inl ⟨data', p', q', h', huv⟩⟩⟩
    | true =>
      simp only [if_true]
      apply wp₂_bind
      apply wp₂_zoom
      rw [wp₂_get, ← h'.availableNow]
      obtain ⟨k, hk⟩ : ∃ k, u.availableNow.toNat = k := ⟨_, rfl⟩
      have hle : k = u.valid - u.position := by
        rw [← hk, availableNow_eq h'.opened.1]
        omega
      rw [hk]
      apply wp₂_bind
      apply wp₂_zoom
      apply wp₂_access
      · exact h'.buffer
      swap
      · exact ⟨h'.failAlike _, rfl⟩
      intro b b' ev ev' hb hb' hlen
      apply wp₂_ite (by rw [hlen, h'.position])
      · exact fun _ => ⟨⟨rfl, h'.delivered, h'.seen⟩, rfl⟩
      intro hfits
      obtain ⟨x, hx, hx', hxk, hout, hleft⟩ :=
        h'.sliced huv hb hb' (Nat.le_of_eq hle) (Nat.le_of_not_lt hfits) ev ev'
      rw [hx, hx', ← hxk]
      apply wp₂_bind
      apply wp₂_zoom
      apply wp₂_self
      · intro _ o'
        have hdone : ∀ (w : SnappyFramedInputStream) (events : List Leases.Event),
            w.valid - w.position ≤ x.length →
            (handOut w x events).rbc.size + (if (handOut w x events).position <
              (handOut w x events).valid then 1 else 0) ≤ w.rbc.size := by
          intro w events hw
          rw [if_neg (by simp only [handOut]; omega)]
          rfl
        have hv := h'.valid
        have hpos := h'.position
        refine ⟨rfl, rfl, .inl ⟨n + x.length, data', p', q', rfl, hout, hleft, ?_, ?_⟩⟩
        · exact Nat.lt_of_le_of_lt (hdone u ev (by omega)) (hsize rfl).1
        · rw [← hA.position, ← hA.valid]
          exact Nat.lt_of_le_of_lt (hdone v ev' (by omega)) (hsize rfl).2
      · exact fun e o' => ⟨⟨rfl, h'.delivered, h'.seen⟩, rfl⟩
  · rintro e u _ v ⟨rfl, data', p', q', h'⟩
    exact ⟨h'.failAlike e, rfl⟩
  · rintro e u b v ⟨rfl, he, hend, hover, hd⟩
    exact ⟨⟨n, rfl⟩, rfl, he, hend, hover, hd⟩

/-- `transferTo(OutputStream)`. -/
theorem wp₂_transferToStream {o : OutputStream} (hpool : platform.bufferPool.Contract)
    (h : Level s t) :
    wp₂ (transferToStream platform) (transferToStream platform)
      (fun a u b v => a = b ∧ u.2 = v.2 ∧ Level u.1 v.1)
      (fun e u f v => FailAlike e u.1 f v.1 ∧ u.2 = v.2)
      (fun e u a v => u.2 = v.2 ∧ EndMistaken e u.1 a v.1) (s, o) (t, o) := by
  unfold transferToStream onStream
  apply wp₂_bind
  apply wp₂_zoom
  rw [wp₂_get]
  rcases h with ⟨data, p, q, hA, hu⟩ | ⟨hs, ht, hd, hend⟩
  swap
  · rw [if_pos hs, if_pos ht]
    exact ⟨⟨rfl, hd, hend⟩, rfl⟩
  rw [if_neg hA.not_closed.1, if_neg hA.not_closed.2]
  refine wp₂_loop
    (fun (n : Nat) u (k : Nat) v => n = k ∧ u.2 = v.2 ∧ ∃ data' p' q', Alike data' p' q' u.1 v.1 ∧
      undelivered u.1 = undelivered v.1)
    (fun _ u => u.1.rbc.size + (if u.1.position < u.1.valid then 1 else 0))
    (fun _ v => v.1.rbc.size + (if v.1.position < v.1.valid then 1 else 0)) ?_
    ⟨rfl, rfl, data, p, q, hA, hu⟩ (by simp only; split <;> omega) (by simp only; split <;> omega)
  rintro n ⟨u, o⟩ _ ⟨v, o'⟩ ⟨rfl, rfl, data', p', q', h', huv⟩
  refine wp₂_mono (wp₂_transferToStreamRound hpool h' huv n) ?_ (fun _ _ _ _ h => h) ?_
  · rintro r u' _ v' ⟨rfl, ho, hgo | hstop⟩
    · obtain ⟨k, data'', p'', q'', rfl, hA', huv', hlt, hlt'⟩ := hgo
      exact .inl ⟨k, k, rfl, rfl, ⟨rfl, ho, data'', p'', q'', hA', huv'⟩, hlt, hlt'⟩
    · obtain ⟨⟨k, rfl⟩, hlevel⟩ := hstop
      exact .inr ⟨k, k, rfl, rfl, rfl, ho, hlevel⟩
  · rintro e u' r v' ⟨⟨k, rfl⟩, ho, he⟩
    exact ⟨k, rfl, ho, he⟩

/-- A channel is offered the same on both sides. -/
theorem wp₂_write {c : WritableByteChannel} {b b' : ByteBuffer} (hcontent : b.content = b'.content)
    {Q : Nat → WritableByteChannel × ByteBuffer → Nat → WritableByteChannel × ByteBuffer → Prop}
    {E : Throwable → WritableByteChannel × ByteBuffer → Throwable → WritableByteChannel × ByteBuffer → Prop}
    {X : Throwable → WritableByteChannel × ByteBuffer → Nat → WritableByteChannel × ByteBuffer → Prop}
    (hQ : ∀ n (hn : n ≤ b.remaining) (hn' : n ≤ b'.remaining) (c' : WritableByteChannel),
      (c.responses = [] → n = b.remaining) → c'.responses = c.responses.tail →
      Q n (c', b.take n hn) n (c', b'.take n hn'))
    (hE : ∀ n (hn : n ≤ b.remaining) (hn' : n ≤ b'.remaining) (c' : WritableByteChannel),
      E .underlyingException (c', b.take n hn) .underlyingException (c', b'.take n hn')) :
    wp₂ WritableByteChannel.write WritableByteChannel.write Q E X (c, b) (c, b') := by
  have hremaining : b.remaining = b'.remaining := by
    rw [← ByteBuffer.length_content, ← ByteBuffer.length_content, hcontent]
  have hwrite : ∀ d : ByteBuffer, wp WritableByteChannel.write
      (fun n x => (c.responses.head?.getD (d.remaining, false)).2 = false ∧
        ∃ hn : n ≤ d.remaining, n = min (c.responses.head?.getD (d.remaining, false)).1 d.remaining ∧
          x = ({ c with received := c.received ++ d.content.take n, responses := c.responses.tail },
            d.take n hn))
      (fun e x => e = .underlyingException ∧ (c.responses.head?.getD (d.remaining, false)).2 = true ∧
        ∃ n, ∃ hn : n ≤ d.remaining,
          n = min (c.responses.head?.getD (d.remaining, false)).1 d.remaining ∧
          x = ({ c with received := c.received ++ d.content.take n, responses := c.responses.tail },
            d.take n hn)) (c, d) := by
    intro d
    refine WritableByteChannel.wp_write_part (fun n hn hdef hok => ?_) fun n hn hdef hfails => ?_
    · rw [ByteBuffer.slice_eq_take_content hn]
      exact ⟨hok, hn, hdef, rfl⟩
    · rw [ByteBuffer.slice_eq_take_content hn]
      exact ⟨rfl, hfails, n, hn, hdef, rfl⟩
  refine wp₂_of_wps (hwrite b) (hwrite b') ?_ ?_ ?_ ?_
  · rintro n _ m _ ⟨-, hn, hdef, rfl⟩ ⟨-, hn', hdef', rfl⟩
    obtain rfl : n = m := by rw [hdef, hdef', hremaining]
    rw [← hcontent]
    refine hQ n hn hn' _ (fun hnil => ?_) rfl
    rw [hdef, hnil, List.head?_nil, Option.getD_none, min_self]
  · rintro e _ f _ ⟨rfl, -, n, hn, hdef, rfl⟩ ⟨rfl, -, m, hn', hdef', rfl⟩
    obtain rfl : n = m := by rw [hdef, hdef', hremaining]
    rw [← hcontent]
    exact hE n hn hn' _
  · rintro e x n y ⟨-, hfails, -⟩ ⟨hok, -⟩
    rw [hremaining, hok] at hfails
    cases hfails
  · rintro n x f y ⟨hok, -⟩ ⟨-, hfails, -⟩
    rw [hremaining, hfails] at hok
    cases hok

/-- What is left of a transfer at most. -/
def ahead (p : SnappyFramedInputStream × WritableByteChannel) : Nat :=
  p.1.rbc.size + (if p.1.position < p.1.valid then 1 else 0) + p.2.responses.length

/-- A round leaves less. -/
theorem ahead_lt {u v : SnappyFramedInputStream} {w c : WritableByteChannel}
    (hsize : u.rbc.size < s.rbc.size + (if s.position < s.valid then 1 else 0))
    (htail : c.responses = w.responses.tail) (hrbc : v.rbc = u.rbc)
    (hall : w.responses = [] → v.valid ≤ v.position) : ahead (v, c) < ahead (s, w) := by
  simp only [ahead, hrbc, htail, List.length_tail]
  by_cases hnil : w.responses = []
  · rw [if_neg (Nat.not_lt.mpr (hall hnil)), hnil, List.length_nil]
    omega
  · have hpos := List.length_pos_iff.mpr hnil
    split <;> omega

/-- A round on both sides, as `wp_channelRound` has it on one. -/
theorem wp₂_channelRound {id n : Nat} {w : WritableByteChannel}
    {Q : Nat ⊕ Nat → SnappyFramedInputStream × WritableByteChannel →
      Nat ⊕ Nat → SnappyFramedInputStream × WritableByteChannel → Prop}
    {E : Throwable → SnappyFramedInputStream × WritableByteChannel →
      Throwable → SnappyFramedInputStream × WritableByteChannel → Prop}
    {X : Throwable → SnappyFramedInputStream × WritableByteChannel →
      Nat ⊕ Nat → SnappyFramedInputStream × WritableByteChannel → Prop}
    (h : wp₂ (ensureBuffer platform) (ensureBuffer platform)
      (fun ready u ready' v => ready = ready' ∧
        if ready = true then
          (∃ e, viewFor platform id u = .error e ∧ viewFor platform id v = .error e ∧
            E e (u, w) e (v, w)) ∨
          ∃ bb bb', viewFor platform id u = .ok bb ∧ viewFor platform id v = .ok bb' ∧
            wp₂ WritableByteChannel.write WritableByteChannel.write
              (fun _ x _ y => Q (.inl (n + (x.2.position - u.position)))
                ({ shownTo platform id bb (x.2.position - u.position) u with
                  position := u.position + (x.2.position - u.position) }, x.1)
                (.inl (n + (y.2.position - v.position)))
                ({ shownTo platform id bb' (y.2.position - v.position) v with
                  position := v.position + (y.2.position - v.position) }, y.1))
              (fun e x f y => E e (shownTo platform id bb (x.2.position - u.position) u, x.1)
                f (shownTo platform id bb' (y.2.position - v.position) v, y.1))
              (fun _ _ _ _ => False) (w, bb) (w, bb')
        else Q (.inr n) (u, w) (.inr n) (v, w))
      (fun e u f v => E e (u, w) f (v, w))
      (fun e u ready v => ready = false ∧ X e (u, w) (.inr n) (v, w)) s t) :
    wp₂ (transferToChannelRound platform id n) (transferToChannelRound platform id n) Q E X
      (s, w) (t, w) := by
  rw [transferToChannelRound_eq]
  unfold onStream
  apply wp₂_bind
  apply wp₂_zoom
  refine wp₂_mono h ?_ (fun _ _ _ _ he => he) ?_
  · rintro ready u _ v ⟨rfl, hround⟩
    cases ready with
    | false => exact hround
    | true =>
      simp only [if_true] at hround ⊢
      apply wp₂_bind
      apply wp₂_zoom
      rw [wp₂_get]
      apply wp₂_bind
      rcases hround with ⟨e, hu, hv, he⟩ | ⟨bb, bb', hu, hv, hwrite⟩
      · rw [hu, hv]
        exact he
      rw [hu, hv, wp₂_fromExcept_ok]
      apply wp₂_bind
      apply wp₂_zoom
      rw [record, record, wp₂_modify]
      apply wp₂_bind
      apply wp₂_withLocal
      apply wp₂_zoom
      exact wp₂_mono hwrite (fun _ _ _ _ hq => hq) (fun _ _ _ _ he => he) fun _ _ _ _ hx => hx.elim
  · rintro e u ready v ⟨rfl, hx⟩
    exact hx

/-- The views of the buffer on the two sides: both are refused, or both show the data. -/
theorem Alike.viewFor {data : Bytes} {p q id : Nat} {b : Lease} (h : Alike data p q s t)
    (hb : s.buffer = some b) (hobject : platform.bufferPool.object b.id = platform.bufferPool.object id)
    (havailable : 0 ≤ s.availableNow) :
    (∃ e, viewFor platform id s = .error e ∧ viewFor platform id t = .error e) ∨
    ∃ b', t.buffer = some b' ∧ ∃ (m : Nat) (hfits : s.position + m ≤ b.contents.length)
      (hfits' : t.position + m ≤ b'.contents.length), s.availableNow = m ∧
      viewFor platform id s = .ok ⟨b.contents, s.position, s.position + m, Nat.le_add_right _ _, hfits⟩ ∧
      viewFor platform id t = .ok ⟨b'.contents, t.position, t.position + m, Nat.le_add_right _ _, hfits'⟩ := by
  have hid := h.buffer_id
  have hsize := h.buffer
  rw [hb] at hid hsize
  obtain ⟨b', hb', hid'⟩ := Option.map_eq_some_iff.mp hid.symm
  rw [hb'] at hsize
  have hlen : b.contents.length = b'.contents.length := Option.some.inj hsize
  obtain ⟨m, hm⟩ := Int.eq_ofNat_of_zero_le havailable
  simp only [SnappyFramedInputStream.viewFor]
  rw [viewed_of_buffer hb hobject, viewed_of_buffer hb' (by rw [hid', hobject]), ← h.availableNow, hm,
    ← h.position]
  rcases Nat.lt_or_ge b.contents.length (s.position + m) with hlt | hfits
  · exact .inl (ByteBuffer.view_of_lt hlen hlt)
  · have hfits' : s.position + m ≤ b'.contents.length := hlen ▸ hfits
    exact .inr ⟨b', hb', m, hfits, h.position ▸ hfits', rfl, ByteBuffer.view_of_le hfits,
      ByteBuffer.view_of_le hfits'⟩

/-- A round of a transfer to a channel whose view shows the buffer. -/
theorem wp₂_transferToChannelRound {data : Bytes} {p q id : Nat} {w : WritableByteChannel}
    (hpool : platform.bufferPool.Contract) (hA : Alike data p q s t)
    (hu : undelivered s = undelivered t) (hs : Follows platform id (s, w)) (n : Nat) :
    wp₂ (transferToChannelRound platform id n) (transferToChannelRound platform id n)
      (fun r x r' y => r = r' ∧ x.2 = y.2 ∧
        ((∃ k data' p' q', r = .inl k ∧ Alike data' p' q' x.1 y.1 ∧
          undelivered x.1 = undelivered y.1 ∧ ahead x < ahead (s, w) ∧ ahead y < ahead (t, w)) ∨
        (∃ k, r = .inr k) ∧ Level x.1 y.1))
      (fun e x f y => FailAlike e x.1 f y.1)
      (fun e x r y => (∃ k, r = .inr k) ∧ x.2 = y.2 ∧ EndMistaken e x.1 () y.1) (s, w) (t, w) := by
  apply wp₂_channelRound
  refine wp₂_mono (wp₂_and (wp₂_ensureBuffer hpool hA hu) (hs.wp_ensureBuffer hpool)) ?_ ?_ ?_
  · rintro ready u _ v ⟨⟨rfl, huv, ⟨data', p', q', h'⟩, hsize⟩, hfronted⟩
    refine ⟨rfl, ?_⟩
    cases ready with
    | false => exact ⟨rfl, rfl, .inr ⟨⟨n, rfl⟩, .inl ⟨data', p', q', h', huv⟩⟩⟩
    | true =>
      obtain ⟨-, ⟨b, hb, hobject⟩, -, havailable, -⟩ := hfronted rfl
      rw [if_pos rfl]
      rcases h'.viewFor hb hobject havailable with
        ⟨e, hview, hview'⟩ | ⟨b', hb', m, hfits, hfits', hm, hview, hview'⟩
      · exact .inl ⟨e, hview, hview', h'.failAlike e⟩
      refine .inr ⟨_, _, hview, hview', ?_⟩
      have hmore : m = u.valid - u.position := by
        rw [availableNow_eq h'.opened.1] at hm
        omega
      have hsliced := fun k (hk : k ≤ m) => @Alike.sliced data' p' q' u v h' huv b b' hb hb' k
        (hmore ▸ hk) (Nat.le_trans (Nat.add_le_add_left hk _) hfits)
      have hcount : u.position + m - u.position = m := Nat.add_sub_cancel_left _ _
      apply wp₂_write
      · obtain ⟨x, hx, hx', -⟩ := hsliced m (Nat.le_refl m) [] []
        simp only [ByteBuffer.content, ByteBuffer.remaining, Nat.add_sub_cancel_left]
        rw [hx, hx']
      · intro k hk hk' c' hnil hresp
        have hall : w.responses = [] → k = m := fun h => (hnil h).trans hcount
        have htail : c'.responses = w.responses.tail := hresp
        obtain ⟨x, hx, hx', hxk, hout, hleft⟩ := hsliced k (Nat.le_trans hk (Nat.le_of_eq hcount))
          (u.poolEvents ++ [.use (u.viewed platform.bufferPool id).id])
          (v.poolEvents ++ [.use (v.viewed platform.bufferPool id).id])
        obtain rfl : x.length = k := hxk
        simp only [ByteBuffer.take, Nat.add_sub_cancel_left, shownTo]
        rw [hx, hx']
        have hdone : ∀ r : SnappyFramedInputStream, r.position = u.position → r.valid = u.valid →
            w.responses = [] → r.valid ≤ r.position + x.length := by
          intro r hposition hvalid hnil
          have := hall hnil
          omega
        refine ⟨trivial, trivial, .inl ⟨n + x.length, data', p', q', rfl, hout, hleft, ?_, ?_⟩⟩
        · exact ahead_lt (hsize rfl).1 htail rfl (hdone u rfl rfl)
        · refine ahead_lt ?_ htail rfl (hdone v h'.position.symm h'.valid.symm)
          rw [← hA.position, ← hA.valid]
          exact (hsize rfl).2
      · intro k hk hk' c'
        obtain ⟨x, hx, hx', -, hout, -⟩ := hsliced k (Nat.le_trans hk (Nat.le_of_eq hcount)) [] []
        simp only [ByteBuffer.take, Nat.add_sub_cancel_left, shownTo]
        rw [hx, hx']
        exact ⟨rfl, hout.delivered, hout.seen⟩
  · rintro e u _ v ⟨⟨rfl, data', p', q', h'⟩, -⟩
    exact h'.failAlike e
  · rintro e u b v ⟨⟨rfl, he, hend, hover, hd⟩, -⟩
    exact ⟨rfl, ⟨n, rfl⟩, rfl, he, hend, hover, hd⟩

/-- `transferTo(WritableByteChannel)`, where the array it begins with stays the buffer. -/
theorem wp₂_transferToChannel {w : WritableByteChannel} (hpool : platform.bufferPool.Contract)
    (h : Level s t) (hkeeps : KeepsArray platform w s) :
    wp₂ (transferToChannel platform) (transferToChannel platform)
      (fun a x b y => a = b ∧ x.2 = y.2 ∧ Level x.1 y.1) (fun e x f y => FailAlike e x.1 f y.1)
      (fun e x a y => x.2 = y.2 ∧ EndMistaken e x.1 a y.1) (s, w) (t, w) := by
  unfold transferToChannel
  rw [wp₂_get_bind]
  rcases h with ⟨data, p, q, hA, hu⟩ | ⟨hs, ht, hd, hend⟩
  swap
  · simp only [hs, ht, if_true]
    exact ⟨rfl, hd, hend⟩
  simp only [hA.opened.1, hA.opened.2, Bool.false_eq_true, if_false]
  have hid := hA.buffer_id
  cases hb : s.buffer with
  | none =>
    rw [hb] at hid
    rw [Option.map_eq_none_iff.mp hid.symm]
    exact hA.failAlike _
  | some l =>
    rw [hb] at hid
    obtain ⟨l', hb', hid'⟩ := Option.map_eq_some_iff.mp hid.symm
    simp only [hb', hid']
    refine wp₂_loop
      (fun (n : Nat) x (k : Nat) y => n = k ∧ x.2 = y.2 ∧ Follows platform l.id x ∧
        ∃ data' p' q', Alike data' p' q' x.1 y.1 ∧ undelivered x.1 = undelivered y.1)
      (fun _ x => ahead x) (fun _ y => ahead y) ?_
      ⟨rfl, rfl, hkeeps.follows hA.opened.1 (direct_lt_of_room hA.direct_lt) hb, data, p, q, hA, hu⟩
      (by simp only [ahead]; split <;> omega) (by simp only [ahead]; split <;> omega)
    rintro n ⟨u, w'⟩ _ ⟨v, _⟩ ⟨rfl, rfl, hfollows, data', p', q', h', huv⟩
    refine wp₂_mono (wp₂_and (wp₂_transferToChannelRound hpool h' huv hfollows n)
      (hfollows.wp_round hpool)) ?_ (fun _ _ _ _ h => h.1) ?_
    · rintro r x _ y ⟨⟨rfl, hw, hgo | hstop⟩, hnext⟩
      · obtain ⟨k, data'', p'', q'', rfl, hA', huv', hlt, hlt'⟩ := hgo
        exact .inl ⟨k, k, rfl, rfl, ⟨rfl, hw, hnext, data'', p'', q'', hA', huv'⟩, hlt, hlt'⟩
      · obtain ⟨⟨k, rfl⟩, hlevel⟩ := hstop
        exact .inr ⟨k, k, rfl, rfl, rfl, hw, hlevel⟩
    · rintro e x r y ⟨⟨⟨k, rfl⟩, hw, he⟩, -⟩
      exact ⟨k, rfl, hw, he⟩

/-- `close()` closes, whatever else happens. -/
theorem wp_close (sourceFails : Bool) :
    wp (close sourceFails)
      (fun _ t => sourceFails = false ∧ t.closed = true ∧ t.delivered = s.delivered ∧
        t.headerSource = s.headerSource)
      (fun e t => (sourceFails = true ∧ e = .underlyingException) ∧ t.closed = true ∧
        t.delivered = s.delivered ∧ t.headerSource = s.headerSource) s := by
  have hdone : ∀ {Q : Unit → SnappyFramedInputStream → Prop}
      {E : Throwable → SnappyFramedInputStream → Prop},
      (∀ t, t.closed = true → t.delivered = s.delivered → t.headerSource = s.headerSource → Q () t) →
      wp (do
        let s ← get
        when (s.closed = false) do
          modify fun s => { s with closed := true }
          releaseField SnappyFramedInputStream.input
          modify fun s => { s with input := none }
          releaseField SnappyFramedInputStream.uncompressedDirect
          modify fun s => { s with uncompressedDirect := none }
          releaseField SnappyFramedInputStream.buffer
          modify fun s => { s with buffer := none }) Q E s := by
    intro Q E hQ
    simp only [wp_bind, wp_get, wp_when, wp_modify]
    split
    · apply wp_releaseField
      intro _ _
      apply wp_releaseField
      intro _ _
      apply wp_releaseField
      intro _ _
      exact hQ _ rfl rfl rfl
    · rename_i hc
      exact hQ s (by simpa using hc) rfl rfl
  unfold close
  rw [wp_ensuring, wp_ite]
  split
  · rename_i hf
    exact hdone fun t h₁ h₂ h₃ => ⟨⟨hf, rfl⟩, h₁, h₂, h₃⟩
  · rename_i hf
    exact hdone fun t h₁ h₂ h₃ => ⟨by simpa using hf, h₁, h₂, h₃⟩

/-- `close()` leaves nothing to tell apart. -/
theorem wp₂_close (h : Level s t) (sourceFails : Bool) :
    wp₂ (close sourceFails) (close sourceFails)
      (fun a s' b t' => a = b ∧ Level s' t') FailAlike EndMistaken s t := by
  obtain ⟨hd, hend⟩ := h.delivered
  have hsame : ∀ {s' t' : SnappyFramedInputStream},
      (s'.delivered = s.delivered ∧ s'.headerSource = s.headerSource) →
      t'.delivered = t.delivered → s'.delivered = t'.delivered ∧ ¬ HiddenEnd s' := by
    rintro s' t' ⟨h₁, h₂⟩ h₃
    refine ⟨by rw [h₁, h₃, hd], ?_⟩
    unfold HiddenEnd
    rwa [h₂]
  refine wp₂_of_wps (@wp_close s sourceFails) (@wp_close t sourceFails) ?_ ?_ ?_ ?_
  · rintro _ s' _ t' ⟨-, hs, hs'⟩ ⟨-, ht, ht', -⟩
    obtain ⟨h₁, h₂⟩ := hsame hs' ht'
    exact ⟨rfl, .inr ⟨hs, ht, h₁, h₂⟩⟩
  · rintro e s' f t' ⟨⟨-, rfl⟩, -, hs'⟩ ⟨⟨-, rfl⟩, -, ht', -⟩
    exact ⟨rfl, hsame hs' ht'⟩
  · rintro e s' _ t' ⟨⟨hf, -⟩, -⟩ ⟨hf', -⟩
    rw [hf] at hf'
    cases hf'
  · rintro _ s' f t' ⟨hf, -⟩ ⟨⟨hf', -⟩, -⟩
    rw [hf] at hf'
    cases hf'

/-- The answer does not come from behind the end of a frame or out of an array that has
gone back to the pool. -/
def Comparable (platform : Platform) (c : ReadCall) (s : SnappyFramedInputStream) : Prop :=
  (c = .readByte → s.closed = false → NoEmptyAhead platform s) ∧
    ∀ wbc, c = .transferToChannel wbc → KeepsArray platform wbc s

/-- Every call is answered the same, or finds the end of the data hidden. -/
theorem wp₂_perform (hpool : platform.bufferPool.Contract) (h : Level s t)
    {call : ReadCall} (hc : Comparable platform call s) :
    wp₂ (perform platform call) (perform platform call)
      (fun a s' b t' => a = b ∧ Level s' t') FailAlike EndMistaken s t := by
  cases call with
  | readByte =>
    apply wp₂_bind
    refine wp₂_mono (wp₂_readByte hpool h (hc.1 rfl)) ?_ (fun _ _ _ _ h => h) ?_
    · rintro b s' _ t' ⟨rfl, h'⟩
      exact ⟨rfl, h'⟩
    · exact fun e s' b t' he => he
  | read output offset length =>
    apply wp₂_bind
    refine wp₂_mono (wp₂_read hpool h output offset length) ?_ (fun _ _ _ _ h => h) ?_
    · rintro b s' _ t' ⟨rfl, h'⟩
      exact ⟨rfl, h'⟩
    · exact fun e s' b t' he => he
  | readBuffer dst =>
    apply wp₂_bind
    refine wp₂_mono (wp₂_readBuffer hpool h dst) ?_ (fun _ _ _ _ h => h) ?_
    · rintro b s' _ t' ⟨rfl, h'⟩
      exact ⟨rfl, h'⟩
    · exact fun e s' b t' he => he
  | transferToStream os =>
    apply wp₂_bind
    apply wp₂_withLocal
    refine wp₂_mono (wp₂_transferToStream hpool h) ?_ ?_ ?_
    · rintro b ⟨s', o⟩ _ ⟨t', o'⟩ ⟨rfl, rfl, h'⟩
      exact ⟨rfl, h'⟩
    · rintro e ⟨s', o⟩ f ⟨t', o'⟩ ⟨he, rfl⟩
      exact he
    · rintro e ⟨s', o⟩ b ⟨t', o'⟩ ⟨rfl, he⟩
      exact he
  | transferToChannel wbc =>
    apply wp₂_bind
    apply wp₂_withLocal
    refine wp₂_mono (wp₂_transferToChannel hpool h (hc.2 wbc rfl)) ?_ (fun _ _ _ _ h => h) ?_
    · rintro b ⟨s', w⟩ _ ⟨t', w'⟩ ⟨rfl, rfl, h'⟩
      exact ⟨rfl, h'⟩
    · rintro e ⟨s', w⟩ b ⟨t', w'⟩ ⟨rfl, he⟩
      exact he
  | available =>
    simp only [perform, wp₂_get_bind, wp₂_pure]
    refine ⟨?_, h⟩
    rcases h with ⟨data, p, q, hA, -⟩ | ⟨hs, ht, -, -⟩
    · rw [hA.availableNow]
    · simp [availableNow, hs, ht]
  | close sourceFails =>
    apply wp₂_bind
    refine wp₂_mono (wp₂_close h sourceFails) ?_ (fun _ _ _ _ h => h) ?_
    · rintro b s' _ t' ⟨rfl, h'⟩
      exact ⟨rfl, h'⟩
    · exact fun e s' b t' he => he

/-- At the end `ensureBuffer` has nothing more, and reads no header. -/
theorem wp_ensureBuffer_over (hopen : t.closed = false) (heof : t.eof = true)
    (hdone : t.valid ≤ t.position) {Q : Bool → SnappyFramedInputStream → Prop}
    {E : Throwable → SnappyFramedInputStream → Prop} (hQ : Q false t) :
    wp (ensureBuffer platform) Q E t := by
  have hav := availableNow_eq hopen
  simp only [ensureBuffer, loop, ensureBufferRound, wp_bind, wp_get, wp_ite, wp_pure, heof, if_true]
  rw [if_neg (by omega)]
  exact hQ

/-- At the end no call takes what it finds for a broken header. -/
theorem wp_perform_over (h : Over t) (call : ReadCall) :
    wp (perform platform call) (fun _ u => Over u) (fun f _ => f.kind ≠ .eofException "") t := by
  cases call with
  | readByte =>
    simp only [perform, readByte, wp_bind, wp_get, wp_ite, wp_pure]
    split
    · exact h
    rename_i hopen
    obtain ⟨heof, hdone⟩ := h.resolve_left hopen
    apply wp_ensureBuffer_over (by simpa using hopen) heof hdone
    exact h
  | read output offset length =>
    simp only [perform, read, wp_bind, wp_get, wp_ite, wp_pure, wp_throw]
    split
    · simp [Throwable.kind]
    split
    · simp [Throwable.kind]
    rename_i hopen
    obtain ⟨heof, hdone⟩ := h.resolve_left hopen
    split
    · exact h
    apply wp_ensureBuffer_over (by simpa using hopen) heof hdone
    exact h
  | readBuffer dst =>
    simp only [perform, readBuffer, wp_bind, wp_get, wp_ite, wp_pure, wp_throw]
    split
    · simp [Throwable.kind]
    rename_i hopen
    obtain ⟨heof, hdone⟩ := h.resolve_left hopen
    split
    · exact h
    apply wp_ensureBuffer_over (by simpa using hopen) heof hdone
    exact h
  | transferToStream os =>
    simp only [perform, transferToStream, onStream, wp_bind, wp_withLocal, wp_zoom, wp_get, wp_ite,
      wp_throw]
    split
    · simp [Throwable.kind]
    rename_i hopen
    obtain ⟨heof, hdone⟩ := h.resolve_left hopen
    simp only [loop, transferToStreamRound, onStream, wp_bind, wp_zoom]
    apply wp_ensureBuffer_over (by simpa using hopen) heof hdone
    exact h
  | transferToChannel wbc =>
    simp only [perform, transferToChannel, wp_bind, wp_withLocal, wp_get, wp_ite, wp_throw]
    split
    · simp [Throwable.kind]
    rename_i hopen
    obtain ⟨heof, hdone⟩ := h.resolve_left hopen
    cases t.buffer with
    | none => simp [Throwable.kind]
    | some l =>
      simp only [loop, transferToChannelRound, onStream, wp_bind, wp_zoom]
      apply wp_ensureBuffer_over (by simpa using hopen) heof hdone
      exact h
  | available =>
    simp only [perform, wp_bind, wp_get, wp_pure]
    exact h
  | close sourceFails =>
    simp only [perform, wp_bind, wp_pure]
    refine wp_mono (@wp_close t sourceFails) ?_ ?_
    · exact fun _ u hu => .inl hu.2.1
    · rintro e u ⟨⟨-, rfl⟩, -⟩
      simp [Throwable.kind]

/-- Nor does a run of calls. -/
theorem wp_runAll_over (h : Over t) (calls : List ReadCall) :
    wp (runAll (perform platform) calls) (fun _ _ => True)
      (fun f _ => f.kind ≠ .eofException "") t := by
  induction calls generalizing t with
  | nil => trivial
  | cons o os ih =>
    simp only [runAll, wp_bind, wp_pure]
    exact wp_mono (wp_perform_over h o) (fun _ u hu => ih hu) (fun _ _ h => h)

/-- Every run of calls is answered the same, or finds the end of the data hidden and
then fails where the other goes on. -/
theorem wp₂_runAll (hpool : platform.bufferPool.Contract) (h : Level s t) {calls : List ReadCall}
    (hc : Meets (fun _ => True) (perform platform) (Comparable platform) calls s) :
    wp₂ (runAll (perform platform) calls) (runAll (perform platform) calls)
      (fun a s' b t' => a = b ∧ s'.delivered = t'.delivered ∧ ¬ HiddenEnd s')
      (fun e s' f t' => FailAlike e s' f t' ∨ HiddenEnd s' ∧ e.kind ≠ f.kind)
      (fun _ s' _ _ => HiddenEnd s') s t := by
  induction calls generalizing s t with
  | nil => exact ⟨rfl, h.delivered⟩
  | cons o os ih =>
    obtain ⟨ho, hrest⟩ := hc
    apply wp₂_bind
    refine wp₂_mono (wp₂_and (wp₂_perform hpool h ho) hrest) ?_ (fun _ _ _ _ h => .inl h.1) ?_
    · rintro a s' _ t' ⟨⟨rfl, h'⟩, hos⟩
      apply wp₂_bind
      refine wp₂_mono (ih h' hos) ?_ (fun _ _ _ _ h => h) (fun _ _ _ _ h => h)
      rintro as u _ v ⟨rfl, hd⟩
      exact ⟨rfl, hd⟩
    · rintro e s' a t' ⟨⟨rfl, hend, hover, -⟩, -⟩
      rw [wp_bind]
      refine wp_mono (wp_runAll_over hover os) (fun _ _ _ => hend) ?_
      exact fun f u hf => .inr ⟨hend, fun heq => hf heq.symm⟩

end

/-! ## Delivery does not matter -/

/-- Nothing has been loaded. -/
def Fresh (s : SnappyFramedInputStream) : Prop := s.valid = 0 ∧ s.position = 0

/-- The constructor loads nothing. -/
theorem keeps_init (platform : Platform) : Keeps Fresh (init platform) := by
  have hrelease : ∀ field, Keeps Fresh (releaseField field) := by
    intro field
    refine Keeps.bind_get fun s hs => ?_
    cases field s with
    | none => exact hs
    | some l => exact hs
  have halloc : ∀ answer size, Keeps Fresh (allocate answer size) := by
    intro answer size
    refine Keeps.bind_get fun s hs => ?_
    have hrest : Keeps Fresh (do
        let contents ← fromExcept (answer s.allocations size)
        record (.acquire s.allocations)
        pure (⟨s.allocations, contents⟩ : Lease)) :=
      Keeps.bind (Keeps.fromExcept _) fun _ => Keeps.bind (Keeps.update fun _ h => h) fun _ =>
        Keeps.pure _
    rw [wp_bind, wp_set]
    exact hrest _ hs
  refine Keeps.bind ?_ fun _ => Keeps.bind (Keeps.zoom _ fun _ _ h => h) fun r => ?_
  · refine Keeps.bind (hrelease _) fun _ => Keeps.bind (hrelease _) fun _ =>
      Keeps.bind (hrelease _) fun _ => Keeps.bind (halloc _ _) fun _ =>
      Keeps.bind (Keeps.update fun _ h => h) fun _ => Keeps.bind (halloc _ _) fun _ =>
      Keeps.bind (Keeps.update fun _ h => h) fun _ => Keeps.bind (halloc _ _) fun _ =>
      Keeps.update fun _ h => h
  · exact Keeps.ite (Keeps.throw _) (Keeps.ite (Keeps.throw _) (Keeps.pure _))

/-- The constructor and then the calls, up to the first exception. -/
def session (platform : Platform) (calls : List ReadCall) : Method (List (Answer UInt8)) := do
  init platform
  runAll (perform platform) calls

/-- What comes of a session: the answers or the kind of the exception, and all the
bytes that were handed out. -/
def outcome (platform : Platform) (verifyChecksums : Bool) (calls : List ReadCall) (rbc : Source) :
    Except Throwable (List (Answer UInt8)) × Bytes :=
  match (session platform calls).run (initial rbc verifyChecksums) with
  | .ok answers s => (.ok answers, s.delivered)
  | .error e s => (.error e.kind, s.delivered)

/-- A block header is about to be read from a channel that has no more data, and
whose next read transfers nothing. -/
def EndHidden (platform : Platform) (verifyChecksums : Bool) (calls : List ReadCall)
    (rbc : Source) : Prop :=
  wp (session platform calls) (fun _ s => HiddenEnd s) (fun _ s => HiddenEnd s)
    (initial rbc verifyChecksums)

/-- Each call of the session finds the stream so that its answer can be compared. -/
def Compared (platform : Platform) (verifyChecksums : Bool) (calls : List ReadCall)
    (rbc : Source) : Prop :=
  wp (init platform) (fun _ s => Meets (fun _ => True) (perform platform) (Comparable platform) calls s)
    (fun _ _ => True) (initial rbc verifyChecksums)

/-- However the bytes are delivered, the outcome is that of a channel that fills every
request, if the answers can be compared and the end is not hidden when a block header is
about to be read; and a hidden end makes a difference. -/
theorem outcome_iff_not_endHidden {platform : Platform} (hpool : platform.bufferPool.Contract)
    (verifyChecksums : Bool) (calls : List ReadCall) (rbc : Source) :
    (Compared platform verifyChecksums calls rbc ∧ ¬ EndHidden platform verifyChecksums calls rbc →
      outcome platform verifyChecksums calls rbc =
        outcome platform verifyChecksums calls ⟨rbc.data, []⟩) ∧
    (Compared platform verifyChecksums calls rbc ∧ EndHidden platform verifyChecksums calls rbc →
      outcome platform verifyChecksums calls rbc ≠
        outcome platform verifyChecksums calls ⟨rbc.data, []⟩) := by
  have hstart : Alike rbc.data rbc.size rbc.data.length (initial rbc verifyChecksums)
      (initial ⟨rbc.data, []⟩ verifyChecksums) :=
    { data_eq := rfl, data_eq' := rfl, fills := rfl, size_le := Nat.le_refl _, size_le' := Nat.le_refl _
      input := rfl, uncompressedDirect := rfl, buffer := rfl, buffer_id := rfl
      direct_lt := by simp [initial]
      buffer_pos := by simp [initial], allocations := rfl, verifyChecksums := rfl
      opened := ⟨rfl, rfl⟩, eof := rfl, valid := rfl, position := rfl, delivered := rfl
      seen := by rintro ⟨r, hr, -⟩; cases hr }
  have hinit : wp₂ (init platform) (init platform)
      (fun _ s' _ t' => Alike (rbc.data.drop 10) rbc.size rbc.data.length s' t')
      (fun e s' f t' => FailAlike e s' f t') (fun _ _ _ _ => False)
      (initial rbc verifyChecksums) (initial ⟨rbc.data, []⟩ verifyChecksums) :=
    wp₂_init hpool hstart (fun _ _ h _ => h) fun e _ _ _ h => h.failAlike e
  have hrun (hc : Compared platform verifyChecksums calls rbc) :
      wp₂ (session platform calls) (session platform calls)
      (fun a s' b t' => a = b ∧ s'.delivered = t'.delivered ∧ ¬ HiddenEnd s')
      (fun e s' f t' => FailAlike e s' f t' ∨ HiddenEnd s' ∧ e.kind ≠ f.kind)
      (fun _ s' _ _ => HiddenEnd s') (initial rbc verifyChecksums)
      (initial ⟨rbc.data, []⟩ verifyChecksums) := by
    apply wp₂_bind
    refine wp₂_mono (wp₂_and (wp₂_and hinit (keeps_init platform _ ⟨rfl, rfl⟩)) hc) ?_ ?_ ?_
    · rintro _ u _ v ⟨⟨huv, hfresh⟩, hcalls⟩
      have hdone : u.valid ≤ u.position := by rw [hfresh.1]; omega
      refine wp₂_runAll hpool (.inl ⟨_, _, _, huv, ?_⟩) hcalls
      rw [undelivered_eq_nil hdone, undelivered_eq_nil (huv.valid ▸ huv.position ▸ hdone)]
    · exact fun e u f v h => .inl h.1.1
    · exact fun e u f v h => h.1.1.elim
  have hiff (hc : Compared platform verifyChecksums calls rbc) :
      outcome platform verifyChecksums calls rbc =
          outcome platform verifyChecksums calls ⟨rbc.data, []⟩ ↔
        ¬ EndHidden platform verifyChecksums calls rbc := by
    have hrun := hrun hc
    unfold wp₂ at hrun
    unfold outcome EndHidden wp
    cases hs : (session platform calls).run (initial rbc verifyChecksums) with
    | ok a s =>
      cases ht : (session platform calls).run (initial ⟨rbc.data, []⟩ verifyChecksums) with
      | ok b t =>
        rw [hs, ht] at hrun
        obtain ⟨rfl, hd, hend⟩ := hrun
        simp [hd, hend]
      | error f t =>
        rw [hs, ht] at hrun
        exact hrun.elim
    | error e s =>
      cases ht : (session platform calls).run (initial ⟨rbc.data, []⟩ verifyChecksums) with
      | ok b t =>
        rw [hs, ht] at hrun
        simpa using hrun
      | error f t =>
        rw [hs, ht] at hrun
        rcases hrun with ⟨rfl, hd, hend⟩ | ⟨hend, hkind⟩
        · simp [hd, hend]
        · simp [hkind, hend]
  exact ⟨fun h => (hiff h.1).mpr h.2, fun h hsame => (hiff h.1).mp hsame h.2⟩

/-- The sample frames, from a channel that now and then delivers nothing. -/
@[irreducible] def stalling : Source := ⟨Frame.stream Frame.samples, [3, 0, 7, 4, 0]⟩

/-- A transfer of the sample frames to a channel, and `read()` at a hidden end. -/
theorem outcome_iff_not_endHidden_samples :
    (¬ EndHidden literalPlatform true
        [.transferToChannel ⟨[], [(1, false), (2, false)], false, 0⟩, .available] stalling →
      outcome literalPlatform true
          [.transferToChannel ⟨[], [(1, false), (2, false)], false, 0⟩, .available] stalling =
        outcome literalPlatform true
          [.transferToChannel ⟨[], [(1, false), (2, false)], false, 0⟩, .available]
          ⟨stalling.data, []⟩) ∧
    outcome literalPlatform true [.readByte, .close false] ⟨SnappyFramed.headerBytes, [10, 0]⟩ ≠
      outcome literalPlatform true [.readByte, .close false] ⟨SnappyFramed.headerBytes, []⟩ := by
  have hpool : literalPlatform.bufferPool.Contract := QuiescentBufferPool.builtIn.reliable.toContract
  have hlast : ∀ call s, call ≠ .readByte → (∀ wbc, call ≠ .transferToChannel wbc) →
      Meets (fun _ => True) (perform literalPlatform) (Comparable literalPlatform) [call] s :=
    fun call s hbyte hchannel => ⟨⟨fun h => absurd h hbyte, fun wbc h => absurd h (hchannel wbc)⟩,
      wp_mono (wp_true _ _) (fun _ _ _ => trivial) fun _ _ _ h => absurd trivial h⟩
  have htransfer : Compared literalPlatform true
      [.transferToChannel ⟨[], [(1, false), (2, false)], false, 0⟩, .available] stalling := by
    have hdata : stalling.data.drop 10 = Frame.samples.flatMap Frame.encode ++ [] := by
      rw [stalling, List.append_nil]
      rfl
    refine wp_mono (wp_init_samples hpool hdata rfl rfl (length_newArray _) (length_newArray _)) ?_
      fun _ _ _ => trivial
    intro _ s hkeeps
    exact ⟨⟨(fun h => by cases h), fun wbc _ => hkeeps wbc⟩, wp_mono (wp_true _ _)
      (fun _ t _ => hlast _ t (by simp) (by simp)) fun _ _ _ h => absurd trivial h⟩
  have hbyte : Compared literalPlatform true [.readByte, .close false]
      ⟨SnappyFramed.headerBytes, [10, 0]⟩ := by
    refine wp_mono (moved_init hpool _ _) ?_ fun _ _ _ => trivial
    rintro - s ⟨hs, -, -⟩
    have hnext : NoEmptyAhead literalPlatform s := fun _ _ => by
      rw [hs.data_eq]
      trivial
    exact ⟨⟨fun _ _ => hnext, fun _ h => by cases h⟩, wp_mono (wp_true _ _)
      (fun _ t _ => hlast _ t (by simp) (by simp)) fun _ _ _ h => absurd trivial h⟩
  have hhidden : EndHidden literalPlatform true [.readByte, .close false]
      ⟨SnappyFramed.headerBytes, [10, 0]⟩ := ⟨⟨[], [0]⟩, rfl, rfl, rfl⟩
  exact ⟨fun h => (outcome_iff_not_endHidden hpool true _ _).1 ⟨htransfer, h⟩,
    (outcome_iff_not_endHidden hpool true _ _).2 ⟨hbyte, hhidden⟩⟩

/-- The identifier arrives with the first read, the next one transfers nothing, and
what is a clean end becomes an exception. -/
theorem hidden_end_fails :
    outcome literalPlatform true [.read [0] 0 1] ⟨SnappyFramed.headerBytes, [10, 0]⟩ ≠
      outcome literalPlatform true [.read [0] 0 1] ⟨SnappyFramed.headerBytes, []⟩ := by
  have hhidden : outcome literalPlatform true [.read [0] 0 1] ⟨SnappyFramed.headerBytes, [10, 0]⟩ =
      (.error (.eofException ""), []) := rfl
  have hclean : outcome literalPlatform true [.read [0] 0 1] ⟨SnappyFramed.headerBytes, []⟩ =
      (.ok [⟨true, [], true, 0⟩], []) := rfl
  rw [hhidden, hclean]
  simp

end SnappyJava.SnappyFramedInputStream
