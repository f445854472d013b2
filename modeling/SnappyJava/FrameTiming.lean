import SnappyJava.FrameDrain
import SnappyJava.Lib.Relational

/-! Two `SnappyFramedInputStream`s over the same bytes, the second over a channel
that fills every request: how the bytes are delivered makes a difference in one
place only. -/

namespace SnappyJava.SnappyFramedInputStream

open Exec Memory Words

/-- The channel was at its end when the last block header was about to be read, and
then first transferred nothing. -/
def HiddenEnd (s : SnappyFramedInputStream) : Prop :=
  ∃ r, s.headerSource = some r ∧ r.data = [] ∧ r.fragments.head? = some 0

/-- The size of a buffer that is there. -/
def size (l : Option Lease) : Option Nat := l.map fun l => l.contents.length

/-- The bytes handed out so far. -/
def delivered (s : SnappyFramedInputStream) : Bytes := s.deliveries.flatMap Delivery.bytes

/-- The same apart from the delivery, the old contents of the buffers and the
other records; `data` is still to be read, in no more than `p` and `q` reads. -/
structure Alike (data : Bytes) (p q : Nat) (s t : SnappyFramedInputStream) : Prop where
  data_eq : s.rbc.data = data
  data_eq' : t.rbc.data = data
  fills : t.rbc.fragments = []
  size_le : s.rbc.size ≤ p
  size_le' : t.rbc.size ≤ q
  input : size s.input = size t.input
  uncompressedDirect : size s.uncompressedDirect = size t.uncompressedDirect
  buffer : size s.buffer = size t.buffer
  buffer_id : s.buffer.map Lease.id = t.buffer.map Lease.id
  direct_lt : ∀ l, s.uncompressedDirect = some l → l.contents.length < 2 ^ 31
  buffer_pos : ∀ l, s.buffer = some l → 0 < l.contents.length
  allocations : s.allocations = t.allocations
  verifyChecksums : s.verifyChecksums = t.verifyChecksums
  opened : s.closed = false ∧ t.closed = false
  eof : s.eof = t.eof
  valid : s.valid = t.valid
  position : s.position = t.position
  delivered : s.delivered = t.delivered
  seen : ¬ HiddenEnd s

section
variable {platform : Platform} {data : Bytes} {p q : Nat} {s t : SnappyFramedInputStream}

theorem capacity_eq {l l' : Option Lease} (h : size l = size l') : capacity l = capacity l' := by
  unfold size at h
  rw [capacity, capacity, h]

theorem Alike.mono (h : Alike data p q s t) {p' q' : Nat} (hp : p ≤ p') (hq : q ≤ q') :
    Alike data p' q' s t :=
  { h with size_le := Nat.le_trans h.size_le hp, size_le' := Nat.le_trans h.size_le' hq }

/-- The same bytes have been read. -/
theorem Alike.read (h : Alike data p q s t) {a b : Source} {more : Bytes} (ha : a.data = more)
    (hb : b.data = more) (hf : b.fragments = []) (hsa : a.size ≤ s.rbc.size)
    (hsb : b.size ≤ t.rbc.size) : Alike more p q { s with rbc := a } { t with rbc := b } :=
  { h with
    data_eq := ha
    data_eq' := hb
    fills := hf
    size_le := Nat.le_trans hsa h.size_le
    size_le' := Nat.le_trans hsb h.size_le' }

/-! ## The buffers -/

theorem agrees_releaseField {field : SnappyFramedInputStream → Option Lease}
    (hf : ∀ s t, Alike data p q s t → size (field s) = size (field t)) :
    Agrees (Alike data p q) (releaseField field) := by
  refine Agrees.bind_get fun s t h => ?_
  have hsize := hf s t h
  unfold size at hsize
  cases hs : field s with
  | none =>
    rw [hs] at hsize
    cases ht : field t with
    | none => exact ⟨rfl, h⟩
    | some l' =>
      rw [ht] at hsize
      cases hsize
  | some l =>
    rw [hs] at hsize
    cases ht : field t with
    | none =>
      rw [ht] at hsize
      cases hsize
    | some l' => exact ⟨rfl, { h with }⟩

theorem wp₂_allocate {answer : Nat → Nat → Except Throwable Bytes} {n : Nat} (h : Alike data p q s t)
    {Q : Lease → SnappyFramedInputStream → Lease → SnappyFramedInputStream → Prop}
    {E : Throwable → SnappyFramedInputStream → Throwable → SnappyFramedInputStream → Prop}
    {X : Throwable → SnappyFramedInputStream → Lease → SnappyFramedInputStream → Prop}
    (hQ : ∀ l s' t', answer s.allocations n = .ok l.contents → Alike data p q s' t' → Q l s' l t')
    (hE : ∀ e s' t', Alike data p q s' t' → E e s' e t') :
    wp₂ (allocate answer n) (allocate answer n) Q E X s t := by
  have halloc := h.allocations
  simp only [allocate, wp₂_get_bind, wp₂_set_bind, ← halloc]
  apply wp₂_fromExcept
  · intro b hb
    simp only [record, wp₂_modify_bind, wp₂_pure]
    exact hQ ⟨s.allocations, b⟩ _ _ hb { h with allocations := rfl }
  · exact fun e _ => hE e _ _ { h with allocations := rfl }

/-- The three buffers come back as large, or the same allocation fails. -/
theorem agrees_allocateBuffersBasedOnSize (hpool : platform.bufferPool.Contract) {n : Nat}
    (hmax : n ≤ 2 ^ 25) : Agrees (Alike data p q) (allocateBuffersBasedOnSize platform n) := by
  have hlen := @Snappy.maxCompressedLength_natCast n (by omega)
  refine Agrees.bind (agrees_releaseField fun _ _ h => h.input) fun _ => ?_
  refine Agrees.bind (agrees_releaseField fun _ _ h => h.uncompressedDirect) fun _ => ?_
  refine Agrees.bind (agrees_releaseField fun _ _ h => h.buffer) fun _ => ?_
  intro s t h
  apply wp₂_bind
  refine wp₂_allocate h (fun i s₁ t₁ _ h₁ => ?_) (fun e s₁ t₁ h₁ => ⟨rfl, h₁⟩)
  have hi : Alike data p q { s₁ with input := some i } { t₁ with input := some i } :=
    { h₁ with input := rfl }
  simp only [wp₂_modify_bind]
  apply wp₂_bind
  refine wp₂_allocate hi (fun d s₂ t₂ hdirect h₂ => ?_) (fun e s₂ t₂ h₂ => ⟨rfl, h₂⟩)
  have hd : Alike data p q { s₂ with uncompressedDirect := some d }
      { t₂ with uncompressedDirect := some d } := by
    refine { h₂ with uncompressedDirect := rfl, direct_lt := ?_ }
    intro l hl
    obtain rfl : d = l := Option.some.inj hl
    exact (hpool.direct _ _ _ hdirect).2
  simp only [wp₂_modify_bind]
  apply wp₂_bind
  refine wp₂_allocate hd (fun b s₃ t₃ hb h₃ => ?_) (fun e s₃ t₃ h₃ => ⟨rfl, h₃⟩)
  have hsize := (hpool.array _ _ _ hb).1
  refine ⟨trivial, { h₃ with buffer := rfl, buffer_id := rfl, buffer_pos := ?_ }⟩
  intro l hl
  obtain rfl : b = l := Option.some.inj hl
  omega

theorem agrees_reallocateForBlock (hpool : platform.bufferPool.Contract) {n : Nat} (hn : 0 < n) :
    Agrees (Alike data p q) (reallocateForBlock platform n) := by
  refine Agrees.bind (agrees_releaseField fun _ _ h => h.uncompressedDirect) fun _ => ?_
  refine Agrees.bind (agrees_releaseField fun _ _ h => h.buffer) fun _ => ?_
  intro s t h
  apply wp₂_bind
  refine wp₂_allocate h (fun d s₁ t₁ hdirect h₁ => ?_) (fun e s₁ t₁ h₁ => ⟨rfl, h₁⟩)
  have hd : Alike data p q { s₁ with uncompressedDirect := some d }
      { t₁ with uncompressedDirect := some d } := by
    refine { h₁ with uncompressedDirect := rfl, direct_lt := ?_ }
    intro l hl
    obtain rfl : d = l := Option.some.inj hl
    exact (hpool.direct _ _ _ hdirect).2
  simp only [wp₂_modify_bind]
  apply wp₂_bind
  refine wp₂_allocate hd (fun b s₂ t₂ hb h₂ => ?_) (fun e s₂ t₂ h₂ => ⟨rfl, h₂⟩)
  have hsize := (hpool.array _ _ _ hb).1
  refine ⟨trivial, { h₂ with buffer := rfl, buffer_id := rfl, buffer_pos := ?_ }⟩
  intro l hl
  obtain rfl : b = l := Option.some.inj hl
  omega

theorem wp₂_access {field : SnappyFramedInputStream → Option Lease}
    (hsize : size (field s) = size (field t))
    {Q : Lease → SnappyFramedInputStream → Lease → SnappyFramedInputStream → Prop}
    {E : Throwable → SnappyFramedInputStream → Throwable → SnappyFramedInputStream → Prop}
    {X : Throwable → SnappyFramedInputStream → Lease → SnappyFramedInputStream → Prop}
    (hQ : ∀ l l' events events', field s = some l → field t = some l' →
      l.contents.length = l'.contents.length →
      Q l { s with poolEvents := events } l' { t with poolEvents := events' })
    (hE : E .nullPointerException s .nullPointerException t) :
    wp₂ (access field) (access field) Q E X s t := by
  unfold size at hsize
  simp only [access, wp₂_get_bind]
  cases hs : field s with
  | none =>
    rw [hs] at hsize
    cases ht : field t with
    | none => exact hE
    | some l' =>
      rw [ht] at hsize
      cases hsize
  | some l =>
    rw [hs] at hsize
    cases ht : field t with
    | none =>
      rw [ht] at hsize
      cases hsize
    | some l' =>
      rw [ht] at hsize
      exact hQ l l' _ _ hs ht (Option.some.inj hsize)

/-- Both channels give up the same bytes. -/
theorem wp₂_readBytes (hdata : s.rbc.data = data) (hdata' : t.rbc.data = data)
    (hfills : t.rbc.fragments = []) {dest dest' : ByteBuffer} (hr : 0 < dest.remaining)
    (hr' : dest'.remaining = dest.remaining)
    {Q : Int × ByteBuffer → SnappyFramedInputStream → Int × ByteBuffer → SnappyFramedInputStream → Prop}
    {E : Throwable → SnappyFramedInputStream → Throwable → SnappyFramedInputStream → Prop}
    {X : Throwable → SnappyFramedInputStream → Int × ByteBuffer → SnappyFramedInputStream → Prop}
    (hQ : ∀ a b, a.data = data.drop dest.remaining → b.data = data.drop dest.remaining →
      b.fragments = [] → a.size + min dest.remaining data.length ≤ s.rbc.size →
      b.size + min dest.remaining data.length ≤ t.rbc.size →
      Q (SnappyFramed.readCount dest s.rbc, SnappyFramed.filled dest data) { s with rbc := a }
        (SnappyFramed.readCount dest' t.rbc, SnappyFramed.filled dest' data) { t with rbc := b }) :
    wp₂ (onRbc (SnappyFramed.readBytes dest)) (onRbc (SnappyFramed.readBytes dest')) Q E X s t := by
  have hs : wp (SnappyFramed.readBytes dest)
      (fun r a => r = (SnappyFramed.readCount dest s.rbc, SnappyFramed.filled dest data) ∧
        a.data = data.drop dest.remaining ∧ a.fragments.length ≤ s.rbc.fragments.length)
      (fun _ _ => False) s.rbc := by
    apply SnappyFramed.wp_readBytes hr
    intro a ha _ hf
    rw [hdata] at ha ⊢
    exact ⟨rfl, ha, hf⟩
  have ht : wp (SnappyFramed.readBytes dest')
      (fun r b => r = (SnappyFramed.readCount dest' t.rbc, SnappyFramed.filled dest' data) ∧
        b.data = data.drop dest.remaining ∧ b.fragments = []) (fun _ _ => False) t.rbc := by
    apply SnappyFramed.wp_readBytes (by omega)
    intro b hb _ hf
    rw [hfills, List.length_nil] at hf
    rw [hdata', hr'] at hb
    rw [hdata']
    exact ⟨rfl, hb, List.length_eq_zero_iff.mp (by omega)⟩
  apply wp₂_zoom
  refine wp₂_of_wp hs ht ?_
  rintro _ a _ b ⟨rfl, ha, hfa⟩ ⟨rfl, hb, hfb⟩
  refine hQ a b ha hb hfb ?_ ?_
  · simp only [Source.size, ha, hdata, List.length_drop]
    omega
  · simp only [Source.size, hb, hfb, hdata', List.length_drop, List.length_nil]
    omega

/-! ## Frames -/

/-- The array stays as large as it is. -/
theorem length_filled (dest : ByteBuffer) (data : Bytes) :
    (SnappyFramed.filled dest data).array.length = dest.array.length := by
  have hcap := dest.capacity_store (data.take dest.remaining) (by simp)
  unfold SnappyFramed.filled
  split
  · rfl
  · exact hcap

/-- The whole of a request that is filled lies at the front of the array. -/
theorem take_filled {a data : Bytes} {n : Nat} (hn : n ≤ a.length) (hpos : 0 < n)
    (hdata : n ≤ data.length) :
    (SnappyFramed.filled ⟨a, 0, n, Nat.zero_le _, hn⟩ data).array.take n = data.take n := by
  have hne : data ≠ [] := by
    intro h
    rw [h, List.length_nil] at hdata
    omega
  have htake := take_splice_zero a (data.take n)
  rw [List.length_take, Nat.min_eq_left hdata] at htake
  rw [SnappyFramed.filled, if_neg hne]
  exact htake

/-- An array that is filled holds the bytes that were there. -/
theorem array_filled_wrap {a data : Bytes} (hpos : 0 < a.length) (hdata : a.length ≤ data.length) :
    (SnappyFramed.filled (.wrap a) data).array = data.take a.length := by
  have hfill := @take_filled a data a.length (Nat.le_refl _) hpos hdata
  have hlen := length_filled (.wrap a) data
  calc (SnappyFramed.filled (.wrap a) data).array
      = (SnappyFramed.filled (.wrap a) data).array.take a.length :=
        (List.take_of_length_le (Nat.le_of_eq hlen)).symm
    _ = data.take a.length := hfill

/-- At the end of the data the count is -1 or 0. -/
theorem readCount_cases (dest : ByteBuffer) (r : Source) :
    r.data = [] ∧ SnappyFramed.readCount dest r ≤ 0 ∨
      r.data ≠ [] ∧ SnappyFramed.readCount dest r = (min dest.remaining r.data.length : Nat) := by
  unfold SnappyFramed.readCount
  by_cases hnil : r.data = []
  · refine .inl ⟨hnil, ?_⟩
    rw [hnil, List.take_nil]
    split <;> simp
  · refine .inr ⟨hnil, ?_⟩
    rw [if_neg (fun h => hnil h.1), List.length_take]

/-- A request is filled on both sides or on none. -/
theorem readCount_lt_iff (h : Alike data p q s t) {dest : ByteBuffer} (hr : 0 < dest.remaining) :
    SnappyFramed.readCount dest s.rbc < dest.remaining ↔
      SnappyFramed.readCount dest t.rbc < dest.remaining := by
  have hs := readCount_cases dest s.rbc
  have ht := readCount_cases dest t.rbc
  rw [h.data_eq] at hs
  rw [h.data_eq'] at ht
  rcases hs with ⟨hnil, hs⟩ | ⟨hne, hs⟩ <;> rcases ht with ⟨hnil', ht⟩ | ⟨hne', ht⟩
  · omega
  · exact absurd hnil hne'
  · exact absurd hnil' hne
  · rw [hs, ht]

/-- Ten bytes are there on both sides or on none. -/
theorem wp₂_init (hpool : platform.bufferPool.Contract) (h : Alike data p q s t)
    {Q : Unit → SnappyFramedInputStream → Unit → SnappyFramedInputStream → Prop}
    {E : Throwable → SnappyFramedInputStream → Throwable → SnappyFramedInputStream → Prop}
    {X : Throwable → SnappyFramedInputStream → Unit → SnappyFramedInputStream → Prop}
    (hQ : ∀ s' t', Alike (data.drop 10) p q s' t' → data.take 10 = SnappyFramed.headerBytes →
      Q () s' () t')
    (hE : ∀ e data' s' t', Alike data' p q s' t' → E e s' e t') :
    wp₂ (init platform) (init platform) Q E X s t := by
  have hrem : (ByteBuffer.wrap (newArray SnappyFramed.headerBytes.length)).remaining = 10 := rfl
  refine (agrees_allocateBuffersBasedOnSize hpool (by decide)).wp₂_bind h (fun _ u v huv => ?_)
    fun e u v huv => hE e data u v huv
  have hlt := readCount_lt_iff huv (by rw [hrem]; decide)
  apply wp₂_bind
  refine wp₂_readBytes huv.data_eq huv.data_eq' huv.fills (by rw [hrem]; decide) rfl
    fun a b ha hb hf hsa hsb => ?_
  have hab := huv.read ha hb hf (by omega) (by omega)
  rw [hrem] at hab hlt
  apply wp₂_ite hlt
  · exact fun _ => hE _ _ _ _ hab
  intro hge
  apply wp₂_ite Iff.rfl
  · exact fun _ => hE _ _ _ _ hab
  · intro hsame
    refine hQ _ _ hab ?_
    have hlen : 10 ≤ data.length := by
      rcases readCount_cases (.wrap (newArray 10)) u.rbc with ⟨_, hc⟩ | ⟨_, hc⟩
      · exact absurd (Int.lt_of_le_of_lt hc (by decide)) hge
      · rw [huv.data_eq] at hc
        have := Int.not_lt.mp (hc ▸ hge)
        omega
    have hfill := @array_filled_wrap (newArray 10) data (by decide) (by simpa using hlen)
    exact hfill.symm.trans (Eq.symm (not_not.mp hsame))

/-- The bytes of a frame are there on both sides or on none. -/
theorem wp₂_readFrame (hpool : platform.bufferPool.Contract) (h : Alike data p q s t) {length : Nat}
    (hpos : 0 < length) (hmax : length < 2 ^ 24)
    {Q : Bytes → SnappyFramedInputStream → Bytes → SnappyFramedInputStream → Prop}
    {E : Throwable → SnappyFramedInputStream → Throwable → SnappyFramedInputStream → Prop}
    {X : Throwable → SnappyFramedInputStream → Bytes → SnappyFramedInputStream → Prop}
    (hQ : ∀ s' t', length ≤ data.length → Alike (data.drop length) p q s' t' →
      Q (data.take length) s' (data.take length) t')
    (hE : ∀ e data' s' t', Alike data' p q s' t' → E e s' e t') :
    wp₂ (readFrame platform length) (readFrame platform length) Q E X s t := by
  have hgrow : Agrees (Alike data p q) (when (length > capacity t.input)
      (allocateBuffersBasedOnSize platform length)) :=
    Agrees.ite (agrees_allocateBuffersBasedOnSize hpool (by omega)) (Agrees.pure ())
  simp only [readFrame, wp₂_get_bind]
  rw [capacity_eq h.input]
  refine hgrow.wp₂_bind h (fun _ u v huv => ?_) fun e u v huv => hE e data u v huv
  apply wp₂_bind
  refine wp₂_access huv.input (fun l l' ev ev' _ _ hlen => ?_) (hE _ _ _ _ huv)
  have hw : Alike data p q { u with poolEvents := ev } { v with poolEvents := ev' } := { huv with }
  apply wp₂_bind
  by_cases hfits : length ≤ l.contents.length
  swap
  · rw [ByteBuffer.setLimit_wrap_error (by omega), ByteBuffer.setLimit_wrap_error (by omega), hlen]
    exact hE _ _ _ _ hw
  have hfits' : length ≤ l'.contents.length := hlen ▸ hfits
  rw [ByteBuffer.setLimit_wrap hfits, ByteBuffer.setLimit_wrap hfits']
  apply wp₂_bind
  apply wp₂_readBytes hw.data_eq hw.data_eq' hw.fills
  · exact hpos
  · rfl
  intro a b ha hb hf hsa hsb
  have hab := hw.read ha hb hf (Nat.le_trans (Nat.le_add_right _ _) hsa)
    (Nat.le_trans (Nat.le_add_right _ _) hsb)
  have hsize : ∀ x y : Bytes, size (some { l with contents := (SnappyFramed.filled
      ⟨l.contents, 0, length, Nat.zero_le _, hfits⟩ x).array }) =
      size (some { l' with contents := (SnappyFramed.filled
        ⟨l'.contents, 0, length, Nat.zero_le _, hfits'⟩ y).array }) := by
    intro x y
    simp only [size, Option.map_some, length_filled, hlen]
  simp only [wp₂_modify_bind]
  by_cases hshort : data.length < length
  · have hcount : ∀ (k : Bytes) (hk : length ≤ k.length) (r : Source), r.data = data →
        SnappyFramed.readCount ⟨k, 0, length, Nat.zero_le _, hk⟩ r ≠ length := by
      rintro k hk r rfl
      rcases readCount_cases ⟨k, 0, length, Nat.zero_le _, hk⟩ r with ⟨_, hc⟩ | ⟨_, hc⟩ <;> omega
    rw [if_pos (hcount _ _ _ huv.data_eq), if_pos (hcount _ _ _ huv.data_eq')]
    refine hE _ (data.drop length) _ _ ?_
    exact { hab with input := hsize _ _ }
  · have hge : length ≤ data.length := Nat.le_of_not_lt hshort
    have hcount : ∀ (k : Bytes) (hk : length ≤ k.length) (r : Source), r.data = data →
        ¬ SnappyFramed.readCount ⟨k, 0, length, Nat.zero_le _, hk⟩ r ≠ length := by
      rintro k hk r rfl
      have hrem : (⟨k, 0, length, Nat.zero_le _, hk⟩ : ByteBuffer).remaining = length := rfl
      rcases readCount_cases ⟨k, 0, length, Nat.zero_le _, hk⟩ r with ⟨hnil, _⟩ | ⟨_, hc⟩
      · rw [hnil, List.length_nil] at hge
        omega
      · omega
    rw [if_neg (hcount _ _ _ huv.data_eq), if_neg (hcount _ _ _ huv.data_eq')]
    apply wp₂_bind
    apply wp₂_access
    · exact hsize _ _
    · intro k k' _ _ hk hk' _
      obtain rfl := Option.some.inj hk
      obtain rfl := Option.some.inj hk'
      simp only [wp₂_pure, take_filled hfits hpos hge, take_filled hfits' hpos hge]
      refine hQ _ _ hge ?_
      exact { hab with input := hsize _ _ }
    · refine hE _ (data.drop length) _ _ ?_
      exact { hab with input := hsize _ _ }

/-- A frame is skipped on both sides, whatever it leaves in `buffer`. -/
theorem wp₂_skipFrame (h : Alike data p q s t) {length : Nat}
    {Q : Unit → SnappyFramedInputStream → Unit → SnappyFramedInputStream → Prop}
    {E : Throwable → SnappyFramedInputStream → Throwable → SnappyFramedInputStream → Prop}
    {X : Throwable → SnappyFramedInputStream → Unit → SnappyFramedInputStream → Prop}
    (hQ : ∀ s' t', Alike (data.drop length) p q s' t' → s'.valid = s.valid →
      s'.position = s.position → Q () s' () t')
    (hE : ∀ e data' s' t', Alike data' p q s' t' → E e s' e t') :
    wp₂ (skipFrame length) (skipFrame length) Q E X s t := by
  apply wp₂_bind
  refine wp₂_access h.buffer (fun l l' ev ev' hl hl' hlen => ?_) (hE _ _ _ _ h)
  have hpos := h.buffer_pos l hl
  have hs : wp (SnappyFramed.skip length (.wrap l.contents))
      (fun r a => r.2.array.length = l.contents.length ∧ a.data = data.drop length ∧
        a.fragments.length ≤ s.rbc.fragments.length) (fun _ _ => False) s.rbc := by
    apply SnappyFramed.wp_skip (by simpa using hpos)
    intro _ _ hc ha _ hf
    exact ⟨hc, h.data_eq ▸ ha, hf⟩
  have ht : wp (SnappyFramed.skip length (.wrap l'.contents))
      (fun r b => r.2.array.length = l'.contents.length ∧ b.data = data.drop length ∧
        b.fragments = []) (fun _ _ => False) t.rbc := by
    apply SnappyFramed.wp_skip (by simpa using hlen ▸ hpos)
    intro _ _ hc hb _ hf
    rw [h.fills, List.length_nil] at hf
    exact ⟨hc, h.data_eq' ▸ hb, List.length_eq_zero_iff.mp (by omega)⟩
  apply wp₂_bind
  apply wp₂_zoom
  refine wp₂_of_wp hs ht ?_
  rintro ⟨i, c⟩ a ⟨j, d⟩ b ⟨hc, ha, hfa⟩ ⟨hd, hb, hfb⟩
  have hab := h.read ha hb hfb
    (by simp only [Source.size, ha, h.data_eq, List.length_drop]; omega)
    (by simp only [Source.size, hb, hfb, h.data_eq', List.length_drop, List.length_nil]; omega)
  refine hQ _ _ ?_ rfl rfl
  refine { hab with buffer := ?_, buffer_id := ?_, buffer_pos := ?_ }
  · simp only [size, Option.map_some] at hc hd ⊢
    rw [hc, hd, hlen]
  · have hid := h.buffer_id
    rwa [hl, hl'] at hid
  · intro k hk
    obtain rfl := Option.some.inj hk
    simp only at hc ⊢
    omega

/-- The header of a frame is there on both sides or on none, but the end of the
data may be hidden from one. -/
theorem wp₂_readBlockHeader (h : Alike data p q s t)
    {Q : Option Bytes → SnappyFramedInputStream → Option Bytes → SnappyFramedInputStream → Prop}
    {E : Throwable → SnappyFramedInputStream → Throwable → SnappyFramedInputStream → Prop}
    {X : Throwable → SnappyFramedInputStream → Option Bytes → SnappyFramedInputStream → Prop}
    (hSome : ∀ p' q' s' t', 4 ≤ data.length → p' < s.rbc.size → q' < t.rbc.size →
      Alike (data.drop 4) p' q' s' t' → s'.valid = s.valid → s'.position = s.position →
      Q (some (data.take 4)) s' (some (data.take 4)) t')
    (hNone : ∀ s' t', Alike data p q s' t' → s'.valid = s.valid → s'.position = s.position →
      Q none s' none t')
    (hE : ∀ e data' s' t', Alike data' p q s' t' → E e s' e t')
    (hHidden : ∀ s' t', HiddenEnd s' → s'.delivered = s.delivered → t'.delivered = t.delivered →
      t'.valid = t.valid → t'.position = t.position →
      X (.eofException "encountered EOF while reading block header") s' none t') :
    wp₂ readBlockHeader readBlockHeader Q E X s t := by
  have hrem : (ByteBuffer.wrap (newArray 4)).remaining = 4 := rfl
  have hcap : ∀ x, (SnappyFramed.filled (.wrap (newArray 4)) x).capacity = 4 := fun x => by
    rw [ByteBuffer.capacity, length_filled]
    rfl
  simp only [readBlockHeader, wp₂_modify_bind]
  apply wp₂_bind
  apply @wp₂_readBytes data
  · exact h.data_eq
  · exact h.data_eq'
  · exact h.fills
  · rw [hrem]
    decide
  · rfl
  intro a b ha hb hf hsa hsb
  simp only [hrem] at ha hb hsa hsb
  have hab := h.read ha hb hf (by omega) (by omega)
  by_cases hnil : data = []
  · have hend : SnappyFramed.readCount (.wrap (newArray 4)) t.rbc = -1 := by
      rw [SnappyFramed.readCount, if_pos ⟨h.data_eq'.trans hnil, by simp [h.fills]⟩]
    simp only [hend, if_true]
    by_cases hstall : s.rbc.fragments.head? = some 0
    · have hzero : SnappyFramed.readCount (.wrap (newArray 4)) s.rbc = 0 := by
        rw [SnappyFramed.readCount, if_neg (fun h => h.2 hstall), h.data_eq, hnil]
        rfl
      rw [hzero, if_neg (by decide), if_pos (by rw [hcap]; decide), wp₂_throw_pure]
      apply hHidden <;> try rfl
      exact ⟨_, rfl, h.data_eq.trans hnil, hstall⟩
    · have hend' : SnappyFramed.readCount (.wrap (newArray 4)) s.rbc = -1 := by
        rw [SnappyFramed.readCount, if_pos ⟨h.data_eq.trans hnil, hstall⟩]
      simp only [hend', if_true]
      rw [hnil, List.drop_nil, ← hnil] at hab
      refine hNone _ _ { hab with seen := ?_ } rfl rfl
      rintro ⟨r, hr, -, hstall'⟩
      obtain rfl := Option.some.inj hr
      exact hstall hstall'
  · have hcount : ∀ r : Source, r.data = data →
        SnappyFramed.readCount (.wrap (newArray 4)) r = (min 4 data.length : Nat) := by
      rintro r rfl
      rw [SnappyFramed.readCount, if_neg (fun h => hnil h.1), hrem, List.length_take]
    have hseen : Alike (data.drop 4) a.size b.size { s with headerSource := some s.rbc, rbc := a }
        { t with headerSource := some t.rbc, rbc := b } := by
      refine { hab with size_le := Nat.le_refl _, size_le' := Nat.le_refl _, seen := ?_ }
      rintro ⟨r, hr, hnil', -⟩
      obtain rfl := Option.some.inj hr
      exact hnil (h.data_eq.symm.trans hnil')
    have hlen := List.length_pos_iff.mpr hnil
    simp only [hcount s.rbc h.data_eq, hcount t.rbc h.data_eq', hcap]
    rw [if_neg (by omega)]
    by_cases hshort : ((min 4 data.length : Nat) : Int) < (4 : Nat)
    · rw [if_pos hshort]
      refine hE _ (data.drop 4) _ _ ?_
      exact hseen.mono (Nat.le_trans (by omega) h.size_le) (Nat.le_trans (by omega) h.size_le')
    · rw [if_neg hshort]
      have hfour : 4 ≤ data.length := by omega
      have hfill := @array_filled_wrap (newArray 4) data (by decide) (by simpa using hfour)
      rw [hfill]
      exact hSome a.size b.size _ _ hfour (by omega) (by omega) hseen rfl rfl

/-! ## Decoding -/

theorem wp₂_copyToBuffer (h : Alike data p q s t) (x : Bytes)
    {Q : Unit → SnappyFramedInputStream → Unit → SnappyFramedInputStream → Prop}
    {E : Throwable → SnappyFramedInputStream → Throwable → SnappyFramedInputStream → Prop}
    {X : Throwable → SnappyFramedInputStream → Unit → SnappyFramedInputStream → Prop}
    (hQ : ∀ s' t' b b', Alike data p q s' t' → s'.buffer = some b → t'.buffer = some b' →
      b.contents.take x.length = x → b'.contents.take x.length = x →
      x.length ≤ b.contents.length → x.length ≤ b'.contents.length →
      s'.valid = s.valid → s'.position = s.position → Q () s' () t')
    (hE : ∀ e s' t', Alike data p q s' t' → E e s' e t') :
    wp₂ (copyToBuffer x) (copyToBuffer x) Q E X s t := by
  apply wp₂_bind
  refine wp₂_access h.buffer (fun l l' ev ev' hl hl' hlen => ?_) (hE _ _ _ h)
  apply wp₂_ite (by rw [hlen])
  · intro _
    refine hE _ _ _ ?_
    exact { h with }
  · intro hroom
    have hsize : (splice l.contents 0 x).length = l.contents.length := length_splice (by omega)
    have hsize' : (splice l'.contents 0 x).length = l'.contents.length := length_splice (by omega)
    refine hQ _ _ _ _ ?_ rfl rfl (take_splice_zero _ _) (take_splice_zero _ _)
      (by simp only [hsize]; omega) (by simp only [hsize']; omega) rfl rfl
    refine { h with buffer := ?_, buffer_id := ?_, buffer_pos := ?_ }
    · simp only [size, Option.map_some, hsize, hsize', hlen]
    · have hid := h.buffer_id
      rwa [hl, hl'] at hid
    · intro k hk
      obtain rfl := Option.some.inj hk
      simp only [hsize]
      exact h.buffer_pos l hl

/-- A raw frame is the same on both sides. -/
theorem wp₂_copyFrame (h : Alike data p q s t) (x : Bytes)
    {Q : Unit → SnappyFramedInputStream → Unit → SnappyFramedInputStream → Prop}
    {E : Throwable → SnappyFramedInputStream → Throwable → SnappyFramedInputStream → Prop}
    {X : Throwable → SnappyFramedInputStream → Unit → SnappyFramedInputStream → Prop}
    (hQ : ∀ s' t', Alike data p q s' t' → Decoded x s' → Decoded x t' → Q () s' () t')
    (hE : ∀ e s' t', Alike data p q s' t' → E e s' e t') :
    wp₂ (copyFrame x) (copyFrame x) Q E X s t := by
  have hstart : Alike data p q { s with position := 0, valid := x.length }
      { t with position := 0, valid := x.length } := { h with position := rfl, valid := rfl }
  simp only [copyFrame, wp₂_modify_bind]
  apply wp₂_bind
  apply wp₂_access
  · exact h.input
  · intro _ _ ev ev' _ _ _
    apply wp₂_copyToBuffer
    · exact { hstart with }
    · intro s' t' b b' hst hb hb' htake htake' hfits hfits' hvalid hpos
      exact hQ s' t' hst ⟨hpos, hvalid, b, hb, htake, hfits⟩
        ⟨hst.position ▸ hpos, hst.valid ▸ hvalid, b', hb', htake', hfits'⟩
    · exact hE
  · exact hE _ _ _ hstart

/-- The native code returns the same, and the same bytes. -/
theorem wp₂_uncompress (h : Alike data p q s t) (codec : Codec) (payload : Bytes)
    {Q : Nat → SnappyFramedInputStream → Nat → SnappyFramedInputStream → Prop}
    {E : Throwable → SnappyFramedInputStream → Throwable → SnappyFramedInputStream → Prop}
    {X : Throwable → SnappyFramedInputStream → Nat → SnappyFramedInputStream → Prop}
    (hQ : ∀ x s' t' d d', codec.rawUncompress payload = .ok x → Alike data p q s' t' →
      s'.uncompressedDirect = some d → t'.uncompressedDirect = some d' →
      d.contents.take x.length = x → d'.contents.take x.length = x → Q x.length s' x.length t')
    (hE : ∀ e s' t', Alike data p q s' t' → E e s' e t') :
    wp₂ (uncompress codec payload) (uncompress codec payload) Q E X s t := by
  apply wp₂_bind
  refine wp₂_access h.input (fun _ _ ev ev' _ _ _ => ?_) (hE _ _ _ h)
  have h₁ : Alike data p q { s with poolEvents := ev } { t with poolEvents := ev' } := { h with }
  apply wp₂_bind
  apply wp₂_access
  · exact h.uncompressedDirect
  swap
  · exact hE _ _ _ h₁
  intro d d' ev₁ ev₁' hd _ hlen
  have hlt : d.contents.length < 2 ^ 31 := h.direct_lt d hd
  simp only [wp₂_modify_bind]
  rw [← Snappy.uncompress_congr hlen]
  have h₂ : ∀ calls calls', Alike data p q
      { s with poolEvents := ev₁, uncompressedDirect := some { d with contents :=
        (Snappy.uncompress codec payload d.contents).2 }, uncompressCalls := calls }
      { t with poolEvents := ev₁', uncompressedDirect := some { d' with contents :=
        (Snappy.uncompress codec payload d'.contents).2 }, uncompressCalls := calls' } := by
    intro calls calls'
    refine { h with uncompressedDirect := ?_, direct_lt := ?_ }
    · simp only [size, Option.map_some, Snappy.length_uncompress, hlen]
    · intro l hl
      obtain rfl := Option.some.inj hl
      rwa [Snappy.length_uncompress]
  apply wp₂_fromExcept
  · intro n hn
    obtain ⟨x, hx, rfl, -, hafter⟩ := Snappy.uncompress_ok hlt hn
    obtain ⟨x', hx', -, -, hafter'⟩ :=
      Snappy.uncompress_ok (hlen ▸ hlt) ((Snappy.uncompress_congr hlen).symm.trans hn)
    obtain rfl := Except.ok.inj (hx.symm.trans hx')
    simp only [wp₂_pure, Int.toNat_natCast]
    refine hQ x _ _ _ _ hx ?_ rfl rfl ?_ ?_
    · exact h₂ _ _
    · rw [hafter]
      exact take_splice_zero _ _
    · rw [hafter']
      exact take_splice_zero _ _
  · intro e _
    refine hE _ _ _ ?_
    exact h₂ _ _

/-- So is what comes of a compressed frame. -/
theorem wp₂_uncompressFrame (hpool : platform.bufferPool.Contract) (h : Alike data p q s t)
    (payload : Bytes)
    {Q : Unit → SnappyFramedInputStream → Unit → SnappyFramedInputStream → Prop}
    {E : Throwable → SnappyFramedInputStream → Throwable → SnappyFramedInputStream → Prop}
    {X : Throwable → SnappyFramedInputStream → Unit → SnappyFramedInputStream → Prop}
    (hQ : ∀ x s' t', platform.codec.rawUncompress payload = .ok x → Alike data p q s' t' →
      Decoded x s' → Decoded x t' → Q () s' () t')
    (hE : ∀ e s' t', Alike data p q s' t' → E e s' e t') :
    wp₂ (uncompressFrame platform payload) (uncompressFrame platform payload) Q E X s t := by
  apply wp₂_bind
  refine wp₂_access h.input (fun _ _ ev ev' _ _ _ => ?_) (hE _ _ _ h)
  have h₁ : Alike data p q { s with poolEvents := ev } { t with poolEvents := ev' } := { h with }
  apply wp₂_fromExcept
  swap
  · exact fun e _ => hE e _ _ h₁
  intro n _
  have hgrow : Agrees (Alike data p q) (when (n > capacity t.uncompressedDirect)
      (reallocateForBlock platform n.toNat)) := by
    unfold when
    split
    · exact agrees_reallocateForBlock hpool (by omega)
    · exact Agrees.pure ()
  simp only [wp₂_get_bind]
  rw [capacity_eq h.uncompressedDirect]
  refine hgrow.wp₂_bind h₁ (fun _ u v huv => ?_) hE
  apply wp₂_bind
  refine wp₂_uncompress huv _ _ (fun x u' v' d d' hx huv' hd hd' htake htake' => ?_) hE
  have h₂ : Alike data p q { u' with valid := x.length } { v' with valid := x.length } :=
    { huv' with valid := rfl }
  simp only [wp₂_modify_bind]
  apply wp₂_bind
  apply wp₂_access
  · exact huv'.uncompressedDirect
  swap
  · exact hE _ _ _ h₂
  intro k k' ev₁ ev₁' hk hk' _
  obtain rfl := Option.some.inj (hd.symm.trans hk)
  obtain rfl := Option.some.inj (hd'.symm.trans hk')
  simp only [htake, htake']
  apply wp₂_bind
  apply wp₂_copyToBuffer
  · exact { h₂ with }
  · intro s' t' b b' hst hb hb' htake htake' hfits hfits' hvalid _
    exact hQ x _ _ hx { hst with position := rfl } ⟨rfl, hvalid, b, hb, htake, hfits⟩
      ⟨rfl, hst.valid ▸ hvalid, b', hb', htake', hfits'⟩
  · exact hE

/-- The checksum is the same too. -/
theorem wp₂_verifyFrame (h : Alike data p q s t) {x : Bytes} (hs : Decoded x s) (ht : Decoded x t)
    (checkSum : BitVec 32)
    {Q : Unit → SnappyFramedInputStream → Unit → SnappyFramedInputStream → Prop}
    {E : Throwable → SnappyFramedInputStream → Throwable → SnappyFramedInputStream → Prop}
    {X : Throwable → SnappyFramedInputStream → Unit → SnappyFramedInputStream → Prop}
    (hQ : ∀ s' t', Alike data p q s' t' → Decoded x s' → Decoded x t' → Q () s' () t')
    (hE : ∀ e s' t', Alike data p q s' t' → E e s' e t') :
    wp₂ (verifyFrame platform checkSum) (verifyFrame platform checkSum) Q E X s t := by
  have hpass : ∀ ev ev', Alike data p q { s with poolEvents := ev, verified := true }
      { t with poolEvents := ev', verified := true } := fun _ _ => { h with }
  have hcrc : ∀ u b, Decoded x u → u.buffer = some b → SnappyFramed.maskedCrc32c platform.crc32c
      b.contents u.position (u.valid - u.position) = SnappyFramed.mask (platform.crc32c x) := by
    intro u b hu hb
    obtain ⟨k, hk, htake, _⟩ := hu.buffer
    obtain rfl := Option.some.inj (hb.symm.trans hk)
    rw [SnappyFramed.maskedCrc32c, hu.position, hu.valid, Nat.sub_zero, slice_zero, htake]
  have hv : s.verifyChecksums = true ↔ t.verifyChecksums = true := by rw [h.verifyChecksums]
  unfold verifyFrame when
  rw [wp₂_get_bind]
  apply wp₂_bind
  apply wp₂_ite hv
  · intro _
    apply wp₂_bind
    apply wp₂_access
    · exact h.buffer
    · intro b b' ev ev' hb hb' _
      rw [hcrc s b hs hb, hcrc t b' ht hb']
      generalize SnappyFramed.mask (platform.crc32c x) = m
      apply wp₂_ite Iff.rfl
      · intro _
        rw [wp₂_throw]
        refine hE _ _ _ ?_
        exact { h with }
      · intro _
        exact hQ _ _ (hpass _ _) { hs with } { ht with }
    · exact hE _ _ _ h
  · intro _
    exact hQ _ _ (hpass _ _) { hs with } { ht with }

/-- A frame that both sides load is decoded to the same data. -/
theorem wp₂_loadFrame (hpool : platform.bufferPool.Contract) (h : Alike data p q s t) (flag : UInt8)
    (compressed : Bool) {length : Nat} (hmin : 5 ≤ length) (hmax : length < 2 ^ 24)
    {Q : Unit → SnappyFramedInputStream → Unit → SnappyFramedInputStream → Prop}
    {E : Throwable → SnappyFramedInputStream → Throwable → SnappyFramedInputStream → Prop}
    {X : Throwable → SnappyFramedInputStream → Unit → SnappyFramedInputStream → Prop}
    (hQ : ∀ x s' t', Alike (data.drop length) p q s' t' → Decoded x s' → Decoded x t' →
      Q () s' () t')
    (hE : ∀ e data' s' t', Alike data' p q s' t' → E e s' e t') :
    wp₂ (loadFrame platform flag compressed length) (loadFrame platform flag compressed length)
      Q E X s t := by
  apply wp₂_bind
  refine wp₂_readFrame hpool h (by omega) hmax (fun u v _ huv => ?_) hE
  have hnew : Alike (data.drop length) p q
      { u with frames := u.frames ++ [⟨flag, data.take length⟩], verified := false }
      { v with frames := v.frames ++ [⟨flag, data.take length⟩], verified := false } := { huv with }
  have hE' := fun e u' v' => hE e (data.drop length) u' v'
  simp only [wp₂_modify_bind]
  apply wp₂_ite Iff.rfl
  · intro _
    apply wp₂_bind
    refine wp₂_uncompressFrame hpool hnew _ (fun x u' v' _ h' hu hv => ?_) hE'
    exact wp₂_verifyFrame h' hu hv _ (hQ x) hE'
  · intro _
    apply wp₂_bind
    refine wp₂_copyFrame hnew _ (fun u' v' h' hu hv => ?_) hE'
    exact wp₂_verifyFrame h' hu hv _ (hQ _) hE'

/-! ## One round of `ensureBuffer` -/

/-- Nothing is left, whatever is called. -/
def Over (t : SnappyFramedInputStream) : Prop :=
  t.closed = true ∨ t.eof = true ∧ t.valid ≤ t.position

theorem Alike.availableNow (h : Alike data p q s t) : s.availableNow = t.availableNow := by
  rw [SnappyFramedInputStream.availableNow, SnappyFramedInputStream.availableNow,
    h.opened.1, h.opened.2, h.valid, h.position]

/-- A round goes the same way on both sides, or the first side takes the hidden end
for a broken header. -/
theorem wp₂_ensureBufferRound (hpool : platform.bufferPool.Contract) (h : Alike data p q s t)
    (hu : undelivered s = undelivered t) :
    wp₂ (ensureBufferRound platform ()) (ensureBufferRound platform ())
      (fun r s' r' t' => r = r' ∧ undelivered s' = undelivered t' ∧
        (s.position < s.valid ∧ r = .inr true ∧ s' = s ∧ t' = t ∨
          r = .inr false ∧ Alike data p q s' t' ∧ s'.valid ≤ s'.position ∨
          r ≠ .inr false ∧ ∃ data' p' q', Alike data' p' q' s' t' ∧ p' < s.rbc.size ∧
            q' < t.rbc.size))
      (fun e s' f t' => e = f ∧ ∃ data', Alike data' p q s' t')
      (fun e s' r' t' => r' = .inr false ∧
        e = .eofException "encountered EOF while reading block header" ∧ HiddenEnd s' ∧ Over t' ∧
        s'.delivered = t'.delivered) s t := by
  unfold ensureBufferRound
  rw [wp₂_get_bind]
  apply wp₂_ite (by rw [h.availableNow])
  · intro hmore
    refine ⟨rfl, hu, .inl ⟨?_, rfl, rfl, rfl⟩⟩
    rw [availableNow_eq h.opened.1] at hmore
    omega
  intro hnone
  have hdone : s.valid ≤ s.position := by
    rw [availableNow_eq h.opened.1] at hnone
    omega
  have hdone' : t.valid ≤ t.position := h.valid ▸ h.position ▸ hdone
  apply wp₂_ite (by rw [h.eof])
  · exact fun _ => ⟨rfl, hu, .inr (.inl ⟨rfl, h, hdone⟩)⟩
  intro _
  apply wp₂_bind
  apply wp₂_readBlockHeader h
  · intro p' q' u v hlen hp hq huv hvalid hpos
    have hpq : ∀ {data' u' v'}, Alike data' p' q' u' v' → ∃ data', Alike data' p q u' v' := fun h' =>
      ⟨_, h'.mono (Nat.le_of_lt (Nat.lt_of_lt_of_le hp h.size_le))
        (Nat.le_of_lt (Nat.lt_of_lt_of_le hq h.size_le'))⟩
    dsimp only
    apply wp₂_fromExcept
    swap
    · exact fun e _ => ⟨rfl, hpq huv⟩
    intro m hm
    have hlength := (getFrameMetaData_cases hm).1
    have hmax := ofLE24_lt ((data.take 4).getD 1 0) ((data.take 4).getD 2 0) ((data.take 4).getD 3 0)
    apply wp₂_ite Iff.rfl
    · intro _
      apply wp₂_bind
      refine wp₂_skipFrame huv (fun u' v' h' hvalid' hpos' => ?_) fun e _ u' v' h' => ⟨rfl, hpq h'⟩
      have hpast : u'.valid ≤ u'.position := by omega
      refine ⟨rfl, ?_, .inr (.inr ⟨by simp, _, p', q', h', hp, hq⟩)⟩
      rw [undelivered_eq_nil hpast, undelivered_eq_nil (h'.valid ▸ h'.position ▸ hpast)]
    · intro hskip
      apply wp₂_bind
      refine wp₂_loadFrame hpool huv _ _ (getFrameMetaData_flag hm hskip).2 (by omega) (fun x u' v' h' hx hx' => ?_)
        fun e _ u' v' h' => ⟨rfl, hpq h'⟩
      exact ⟨rfl, by rw [hx.undelivered_eq, hx'.undelivered_eq],
        .inr (.inr ⟨by simp, _, p', q', h', hp, hq⟩)⟩
  · intro u v huv hvalid hpos
    have hpast : u.valid ≤ u.position := by omega
    simp only [wp₂_modify_bind, wp₂_pure]
    refine ⟨trivial, ?_, .inr (.inl ⟨trivial, { huv with eof := rfl }, by simpa using hpast⟩)⟩
    rw [undelivered_eq_nil (by simpa using hpast),
      undelivered_eq_nil (by simpa using huv.valid ▸ huv.position ▸ hpast)]
  · exact fun e data' u v huv => ⟨rfl, data', huv⟩
  · intro u v hend hd hd' hvalid hpos
    refine ⟨rfl, rfl, hend, .inr ⟨rfl, ?_⟩, ?_⟩
    · simp only
      omega
    · exact hd.trans (h.delivered.trans hd'.symm)

/-- So does `ensureBuffer`. -/
theorem wp₂_ensureBuffer (hpool : platform.bufferPool.Contract) (h : Alike data p q s t)
    (hu : undelivered s = undelivered t) :
    wp₂ (ensureBuffer platform) (ensureBuffer platform)
      (fun a s' b t' => a = b ∧ undelivered s' = undelivered t' ∧
        (∃ data' p' q', Alike data' p' q' s' t') ∧
        (a = true → s'.rbc.size < s.rbc.size + (if s.position < s.valid then 1 else 0) ∧
          t'.rbc.size < t.rbc.size + (if s.position < s.valid then 1 else 0)))
      (fun e s' f t' => e = f ∧ ∃ data' p' q', Alike data' p' q' s' t')
      (fun e s' b t' => b = false ∧
        e = .eofException "encountered EOF while reading block header" ∧ HiddenEnd s' ∧ Over t' ∧
        s'.delivered = t'.delivered) s t := by
  unfold ensureBuffer
  rw [wp₂_get_bind]
  refine wp₂_loop
    (fun _ u _ v => undelivered u = undelivered v ∧ (∃ data' p' q', Alike data' p' q' u v) ∧
      (u = s ∧ v = t ∨ u.rbc.size < s.rbc.size ∧ v.rbc.size < t.rbc.size))
    (fun _ u => u.rbc.size) (fun _ v => v.rbc.size) ?_
    ⟨hu, ⟨data, p, q, h⟩, .inl ⟨rfl, rfl⟩⟩ (Nat.lt_succ_self _) (Nat.lt_succ_self _)
  rintro _ u _ v ⟨huv, ⟨data', p', q', hA⟩, hbefore⟩
  refine wp₂_mono (wp₂_ensureBufferRound hpool hA huv) ?_ ?_ ?_
  · rintro r u' _ v' ⟨rfl, huv', hcases⟩
    rcases hcases with ⟨hmore, rfl, rfl, rfl⟩ | ⟨rfl, hA', -⟩ | ⟨hr, data'', p'', q'', hA', hp, hq⟩
    · refine .inr ⟨true, true, rfl, rfl, rfl, huv', ⟨data', p', q', hA⟩, fun _ => ?_⟩
      rcases hbefore with ⟨rfl, rfl⟩ | ⟨hs, ht⟩
      · rw [if_pos hmore]
        omega
      · omega
    · exact .inr ⟨false, false, rfl, rfl, rfl, huv', ⟨data', p', q', hA'⟩, by simp⟩
    · have hle := hA'.size_le
      have hle' := hA'.size_le'
      have hsmall : u'.rbc.size < s.rbc.size ∧ v'.rbc.size < t.rbc.size := by
        rcases hbefore with ⟨rfl, rfl⟩ | ⟨hs, ht⟩ <;> omega
      match r, hr with
      | .inl (), _ =>
        exact .inl ⟨(), (), rfl, rfl, ⟨huv', ⟨data'', p'', q'', hA'⟩, .inr hsmall⟩, by omega, by omega⟩
      | .inr true, _ =>
        refine .inr ⟨true, true, rfl, rfl, rfl, huv', ⟨data'', p'', q'', hA'⟩, fun _ => ?_⟩
        omega
      | .inr false, hr => exact absurd rfl hr
  · rintro e u' _ v' ⟨rfl, data'', hA'⟩
    exact ⟨rfl, data'', _, _, hA'⟩
  · rintro e u' r v' ⟨rfl, he, hend, hover, hd⟩
    exact ⟨false, rfl, rfl, he, hend, hover, hd⟩

end

end SnappyJava.SnappyFramedInputStream
