import SnappyJava.SnappyFramedInputStream

/-! What one round of `ensureBuffer` does with the frame in front of it, whatever
frame it is, and how large the buffers are at that time. -/

namespace SnappyJava.SnappyFramedInputStream

open Exec Memory Words

/-! ## The buffers -/

/-- The size of a buffer the pool has answered with. -/
def answered : Except Throwable Bytes → Nat
  | .ok b => b.length
  | .error _ => 0

section
variable {pool : BufferPool}

theorem le_answered_direct (h : pool.Reliable) (k : Nat) {size : Nat} (hs : size < 2 ^ 31) :
    size ≤ answered (pool.allocateDirect k size) := by
  obtain ⟨b, hb⟩ := h.direct_ok k size hs
  rw [hb]
  exact (h.direct k size b hb).1

theorem le_answered_array (h : pool.Reliable) (k : Nat) {size : Nat} (hs : size < 2 ^ 31) :
    size ≤ answered (pool.allocateArray k size) := by
  obtain ⟨b, hb⟩ := h.array_ok k size hs
  rw [hb]
  exact (h.array k size b hb).1

end

/-- The capacities of `input`, `uncompressedDirect` and `buffer`, the allocation that
has brought `buffer`, and the number of the next one. They depend on the pool and on
the sizes of the frames so far only. -/
structure Capacities where
  input : Nat
  uncompressedDirect : Nat
  buffer : Nat
  array : Nat
  allocations : Nat
  deriving DecidableEq, Repr

namespace Capacities

/-- After `allocateBuffersBasedOnSize`. -/
def basedOnSize (pool : BufferPool) (allocations size : Nat) : Capacities :=
  { input := answered (pool.allocateDirect allocations size)
    uncompressedDirect :=
      answered (pool.allocateDirect (allocations + 1) (Snappy.maxCompressedLength size).toNat)
    buffer := answered (pool.allocateArray (allocations + 2) (Snappy.maxCompressedLength size).toNat)
    array := allocations + 2
    allocations := allocations + 3 }

/-- When the constructor returns. -/
def initial (pool : BufferPool) : Capacities := basedOnSize pool 0 (maxBlockSize + 5)

/-- After a body of `length` bytes has been read. -/
def forBody (pool : BufferPool) (c : Capacities) (length : Nat) : Capacities :=
  if length > c.input then basedOnSize pool c.allocations length else c

/-- After a block of `length` uncompressed bytes has been decompressed. -/
def forBlock (pool : BufferPool) (c : Capacities) (length : Nat) : Capacities :=
  if length > c.uncompressedDirect then
    { input := c.input
      uncompressedDirect := answered (pool.allocateDirect c.allocations length)
      buffer := answered (pool.allocateArray (c.allocations + 1) length)
      array := c.allocations + 1
      allocations := c.allocations + 2 }
  else c

/-- After the frame `f`. -/
def next (platform : Platform) (c : Capacities) (f : Frame) : Capacities :=
  if f.flag = SnappyFramed.compressedDataFlag then
    (c.forBody platform.bufferPool f.body.length).forBlock platform.bufferPool
      (f.data platform.codec).length
  else if f.flag = SnappyFramed.uncompressedDataFlag then
    c.forBody platform.bufferPool f.body.length
  else c

/-- After all the frames. -/
def after (platform : Platform) (c : Capacities) (frames : List Frame) : Capacities :=
  frames.foldl (next platform) c

/-- The data of each frame fits the array that is `buffer` when it comes. -/
def Roomy (platform : Platform) : Capacities → List Frame → Prop
  | _, [] => True
  | c, f :: fs => (f.data platform.codec).length ≤ (c.next platform f).buffer ∧
      Roomy platform (c.next platform f) fs

end Capacities

/-- The three buffers are there, as large as `c` says. -/
structure Room (c : Capacities) (s : SnappyFramedInputStream) : Prop where
  input : ∃ l, s.input = some l ∧ l.contents.length = c.input
  uncompressedDirect :
    ∃ l, s.uncompressedDirect = some l ∧ l.contents.length = c.uncompressedDirect
  buffer : ∃ l, s.buffer = some l ∧ l.contents.length = c.buffer
  allocations : s.allocations = c.allocations
  direct_lt : c.uncompressedDirect < 2 ^ 31
  buffer_pos : 0 < c.buffer
  buffer_lt : c.buffer < 2 ^ 31

/-- What the allocation of buffers leaves alone. -/
structure SamePlace (s t : SnappyFramedInputStream) : Prop where
  rbc : t.rbc = s.rbc
  closed : t.closed = s.closed
  eof : t.eof = s.eof
  verifyChecksums : t.verifyChecksums = s.verifyChecksums
  valid : t.valid = s.valid
  position : t.position = s.position

theorem wp_releaseField {field : SnappyFramedInputStream → Option Lease}
    {Q : Unit → SnappyFramedInputStream → Prop} {E : Throwable → SnappyFramedInputStream → Prop}
    {s : SnappyFramedInputStream}
    (hQ : ∀ events leases, Q () { s with poolEvents := events, returned := leases }) :
    wp (releaseField field) Q E s := by
  simp only [releaseField, wp_bind, wp_get]
  split
  · exact hQ s.poolEvents s.returned
  · simp only [release, record, wp_bind, wp_modify]
    exact hQ _ _

theorem wp_allocate {answer : Nat → Nat → Except Throwable Bytes} {size : Nat}
    {Q : Lease → SnappyFramedInputStream → Prop} {E : Throwable → SnappyFramedInputStream → Prop}
    {s : SnappyFramedInputStream} (h : ∃ b, answer s.allocations size = .ok b)
    (hQ : ∀ l events, answer s.allocations size = .ok l.contents →
      l.contents.length = answered (answer s.allocations size) →
      Q l { s with allocations := s.allocations + 1, poolEvents := events }) :
    wp (allocate answer size) Q E s := by
  obtain ⟨b, hb⟩ := h
  simp only [allocate, record, wp_bind, wp_get, wp_set, hb, wp_fromExcept_ok, wp_modify, wp_pure]
  exact hQ ⟨s.allocations, b⟩ _ hb (by rw [hb]; rfl)

theorem wp_access {field : SnappyFramedInputStream → Option Lease} {l : Lease}
    {Q : Lease → SnappyFramedInputStream → Prop} {E : Throwable → SnappyFramedInputStream → Prop}
    {s : SnappyFramedInputStream} (h : field s = some l)
    (hQ : ∀ events, Q l { s with poolEvents := events }) : wp (access field) Q E s := by
  simp only [access, record, wp_bind, wp_get, h, wp_modify, wp_pure]
  exact hQ _

section
variable {platform : Platform} {c : Capacities} {s : SnappyFramedInputStream}

/-- All three buffers anew, for frames of up to `size` bytes. -/
theorem wp_allocateBuffersBasedOnSize (hpool : platform.bufferPool.Reliable) {size : Nat}
    (hmax : size ≤ 2 ^ 25) {Q : Unit → SnappyFramedInputStream → Prop}
    {E : Throwable → SnappyFramedInputStream → Prop}
    (hQ : ∀ t, SamePlace s t →
      Room (.basedOnSize platform.bufferPool s.allocations size) t → Q () t) :
    wp (allocateBuffersBasedOnSize platform size) Q E s := by
  have hlen := @Snappy.maxCompressedLength_natCast size (by omega)
  simp only [allocateBuffersBasedOnSize, wp_bind, wp_modify]
  apply wp_releaseField
  intro ev₁ le₁
  apply wp_releaseField
  intro ev₂ le₂
  apply wp_releaseField
  intro ev₃ le₃
  apply wp_allocate (hpool.direct_ok _ _ (by omega))
  intro i ev₄ hi hil
  apply wp_allocate (hpool.direct_ok _ _ (by omega))
  intro d ev₅ hd hdl
  apply wp_allocate (hpool.array_ok _ _ (by omega))
  intro b ev₆ hb hbl
  have hbsize := hpool.array _ _ _ hb
  dsimp only at hil hdl hbl ⊢
  refine hQ _ ⟨rfl, rfl, rfl, rfl, rfl, rfl⟩ ⟨⟨i, rfl, hil⟩, ⟨d, rfl, hdl⟩, ⟨b, rfl, hbl⟩, rfl, ?_, ?_, ?_⟩
  · simp only [Capacities.basedOnSize, ← hdl]
    exact (hpool.direct _ _ _ hd).2
  · simp only [Capacities.basedOnSize, ← hbl]
    omega
  · simp only [Capacities.basedOnSize, ← hbl]
    exact hbsize.2

/-- Larger buffers for a block that does not fit. -/
theorem wp_reallocateForBlock (hpool : platform.bufferPool.Reliable) (h : Room c s) {n : Nat}
    (hn : c.uncompressedDirect < n) (hlt : n < 2 ^ 31)
    {Q : Unit → SnappyFramedInputStream → Prop} {E : Throwable → SnappyFramedInputStream → Prop}
    (hQ : ∀ t, SamePlace s t → Room (c.forBlock platform.bufferPool n) t →
      n ≤ (c.forBlock platform.bufferPool n).uncompressedDirect → Q () t) :
    wp (reallocateForBlock platform n) Q E s := by
  simp only [reallocateForBlock, wp_bind, wp_modify]
  apply wp_releaseField
  intro ev₁ le₁
  apply wp_releaseField
  intro ev₂ le₂
  apply wp_allocate (hpool.direct_ok _ _ hlt)
  intro d ev₃ hd hdl
  apply wp_allocate (hpool.array_ok _ _ hlt)
  intro b ev₄ hb hbl
  have hdsize := hpool.direct _ _ _ hd
  have hbsize := hpool.array _ _ _ hb
  have halloc := h.allocations
  dsimp only at hdl hbl ⊢
  rw [halloc] at hdl hbl
  have hfor : c.forBlock platform.bufferPool n =
      ⟨c.input, d.contents.length, b.contents.length, c.allocations + 1, c.allocations + 2⟩ := by
    rw [Capacities.forBlock, if_pos hn, hdl, hbl]
  refine hQ _ ⟨rfl, rfl, rfl, rfl, rfl, rfl⟩ ?_ ?_
  · rw [hfor]
    refine ⟨h.input, ⟨d, rfl, rfl⟩, ⟨b, rfl, rfl⟩, ?_, hdsize.2, ?_, hbsize.2⟩
    · rw [halloc]
    · simp only
      omega
  · rw [hfor]
    exact hdsize.1

end

/-! ## Reading a frame -/

/-- The stream is open, its buffers are there, and the channel still has
`data`, in at most `k` scheduled fragments. -/
structure Poised (c : Capacities) (v : Bool) (k : Nat) (data : Bytes)
    (s : SnappyFramedInputStream) : Prop where
  data_eq : s.rbc.data = data
  positive : s.rbc.Positive
  fragments_le : s.rbc.fragments.length ≤ k
  opened : s.closed = false
  live : s.eof = false
  verify : s.verifyChecksums = v
  room : Room c s

section
variable {platform : Platform} {c c' : Capacities} {v : Bool} {k : Nat} {data : Bytes}
  {s t : SnappyFramedInputStream}

theorem Poised.samePlace (h : Poised c v k data s) (hst : SamePlace s t) (hr : Room c' t) :
    Poised c' v k data t :=
  ⟨by rw [hst.rbc, h.data_eq], by rw [hst.rbc]; exact h.positive,
    by rw [hst.rbc]; exact h.fragments_le, by rw [hst.closed, h.opened],
    by rw [hst.eof, h.live], by rw [hst.verifyChecksums, h.verify], hr⟩

/-- A block header, or one that is cut off, however the channel delivers it. -/
theorem wp_readBlockHeader_some {Q : Option Bytes → SnappyFramedInputStream → Prop}
    {E : Throwable → SnappyFramedInputStream → Prop} (hne : s.rbc.data ≠ [])
    (hQ : ∀ r : Source, 4 ≤ s.rbc.data.length → r.data = s.rbc.data.drop 4 →
      (s.rbc.Positive → r.Positive) → r.fragments.length ≤ s.rbc.fragments.length →
      Q (some (s.rbc.data.take 4)) { s with rbc := r, headerSource := some s.rbc })
    (hShort : ∀ t, s.rbc.data.length < 4 →
      E (.eofException "encountered EOF while reading block header") t) :
    wp readBlockHeader Q E s := by
  have hrem : (ByteBuffer.wrap (newArray 4)).remaining = 4 := by simp
  have hpos := List.length_pos_iff.mpr hne
  simp only [readBlockHeader, onRbc, wp_bind, wp_modify, wp_zoom]
  apply SnappyFramed.wp_readBytes (by rw [hrem]; decide)
  intro r hr hpr hfr
  rw [hrem] at hr
  simp only [wp_ite, wp_pure, wp_throw]
  have hcount : SnappyFramed.readCount (ByteBuffer.wrap (newArray 4)) s.rbc =
      (min 4 s.rbc.data.length : Nat) := by
    rw [SnappyFramed.readCount, if_neg (fun h => hne h.1), hrem, List.length_take]
  have hroom : (s.rbc.data.take 4).length ≤ (ByteBuffer.wrap (newArray 4)).remaining := by
    rw [hrem, List.length_take]
    omega
  have hfilled : SnappyFramed.filled (ByteBuffer.wrap (newArray 4)) s.rbc.data =
      ((ByteBuffer.wrap (newArray 4)).store (s.rbc.data.take 4) hroom).limited := if_neg hne
  have hcap : ((ByteBuffer.wrap (newArray 4)).store (s.rbc.data.take 4) hroom).limited.capacity = 4 :=
    ByteBuffer.capacity_store _ _ hroom
  simp only [hcount, hfilled, hcap]
  rw [if_neg (by omega)]
  split
  · exact hShort _ (by omega)
  · have harray : ((ByteBuffer.wrap (newArray 4)).store (s.rbc.data.take 4) hroom).limited.array =
        s.rbc.data.take 4 := splice_full (by simp [ByteBuffer.wrap]; omega)
    rw [harray]
    exact hQ r (by omega) hr hpr hfr

/-- A block header, the end of the data, or a header that is cut off. -/
theorem wp_readBlockHeader {Q : Option Bytes → SnappyFramedInputStream → Prop}
    {E : Throwable → SnappyFramedInputStream → Prop} (hp : s.rbc.Positive)
    (hQ : ∀ r : Source, 4 ≤ s.rbc.data.length → r.data = s.rbc.data.drop 4 → r.Positive →
      r.fragments.length ≤ s.rbc.fragments.length →
      Q (some (s.rbc.data.take 4)) { s with rbc := r, headerSource := some s.rbc })
    (hEnd : ∀ r : Source, s.rbc.data = [] → r.data = [] → r.Positive →
      Q none { s with rbc := r, headerSource := some s.rbc })
    (hShort : ∀ t, 0 < s.rbc.data.length → s.rbc.data.length < 4 →
      E (.eofException "encountered EOF while reading block header") t) :
    wp readBlockHeader Q E s := by
  by_cases hnil : s.rbc.data = []
  · have hrem : (ByteBuffer.wrap (newArray 4)).remaining = 4 := by simp
    simp only [readBlockHeader, onRbc, wp_bind, wp_modify, wp_zoom]
    apply SnappyFramed.wp_readBytes (by rw [hrem]; decide)
    intro r hr hpr _
    have hcount : SnappyFramed.readCount (ByteBuffer.wrap (newArray 4)) s.rbc = -1 :=
      if_pos ⟨hnil, hp.head_ne_zero⟩
    simp only [hcount, wp_pure, if_true]
    exact hEnd r hnil (by rw [hr, hnil, List.drop_nil]) (hpr hp)
  · exact wp_readBlockHeader_some hnil (fun r h4 hr hpr hfr => hQ r h4 hr (hpr hp) hfr)
      (fun t hlt => hShort t (List.length_pos_iff.mpr hnil) hlt)

/-- A skipped frame is read over, as far as it is there. -/
theorem wp_skipFrame {length : Nat} (h : Poised c v k data s)
    {Q : Unit → SnappyFramedInputStream → Prop} {E : Throwable → SnappyFramedInputStream → Prop}
    (hQ : ∀ t, Poised c v k (data.drop length) t → t.valid = s.valid → t.position = s.position →
      Q () t) :
    wp (skipFrame length) Q E s := by
  obtain ⟨l, hl, hlen⟩ := h.room.buffer
  have hpos := h.room.buffer_pos
  simp only [skipFrame, onRbc, wp_bind, wp_zoom, wp_modify]
  apply wp_access hl
  intro events
  apply SnappyFramed.wp_skip (by rw [ByteBuffer.capacity_wrap]; omega)
  intro b r hb hr hpr hfr
  rw [h.data_eq] at hr
  refine hQ _ ⟨hr, hpr h.positive, Nat.le_trans hfr h.fragments_le, h.opened, h.live, h.verify,
    ?_⟩ rfl rfl
  exact { h.room with buffer := ⟨_, rfl, hb.trans hlen⟩ }

/-- `input` is large enough for the body of a frame. -/
theorem wp_fillInput {length : Nat} {l : Lease} (hl : s.input = some l)
    (hle : length ≤ l.contents.length) (hpos : 0 < length)
    {Q : Bytes → SnappyFramedInputStream → Prop} {E : Throwable → SnappyFramedInputStream → Prop}
    (hQ : ∀ r l' events, length ≤ s.rbc.data.length → r.data = s.rbc.data.drop length →
      (s.rbc.Positive → r.Positive) → r.fragments.length ≤ s.rbc.fragments.length →
      l'.contents.length = l.contents.length →
      Q (s.rbc.data.take length) { s with rbc := r, input := some l', poolEvents := events })
    (hShort : ∀ t, s.rbc.data.length < length →
      E (.eofException "unexpectd EOF when reading frame") t) :
    wp (access SnappyFramedInputStream.input >>= fun l =>
      fromExcept ((ByteBuffer.wrap l.contents).setLimit length) >>= fun limited =>
      onRbc (SnappyFramed.readBytes limited) >>= fun p => do
        modify fun s => { s with input := some { l with contents := p.2.array } }
        if p.1 ≠ length then
          throw (.eofException "unexpectd EOF when reading frame")
        else
          let t ← access SnappyFramedInputStream.input
          pure (t.contents.take length)) Q E s := by
  have hrem : (⟨l.contents, 0, length, Nat.zero_le _, hle⟩ : ByteBuffer).remaining = length := rfl
  simp only [onRbc, wp_bind, wp_zoom, wp_modify]
  apply wp_access hl
  intro events
  simp only [ByteBuffer.setLimit_wrap hle, wp_fromExcept_ok]
  apply SnappyFramed.wp_readBytes (by rw [hrem]; exact hpos)
  intro r hr hpr hfr
  rw [hrem] at hr
  simp only [wp_ite, wp_throw, SnappyFramed.readCount, SnappyFramed.filled, hrem]
  by_cases hcut : s.rbc.data.length < length
  · rw [if_pos (by split <;> simp; omega)]
    exact hShort _ hcut
  have hne : s.rbc.data ≠ [] := fun h => by simp [h] at hcut; omega
  have htl : (s.rbc.data.take length).length = length := by simp; omega
  simp only [hne, false_and, if_false, htl, ne_eq, not_true_eq_false, wp_bind, wp_pure,
    ByteBuffer.limited, ByteBuffer.store]
  refine wp_access rfl ?_
  intro events'
  have htake := take_splice_zero l.contents (s.rbc.data.take length)
  rw [htl] at htake
  dsimp only
  rw [htake]
  exact hQ r _ _ (by omega) hr hpr hfr (length_splice (by omega))

/-- The body of a data frame goes to the front of `input`, if there is so much. -/
theorem wp_readFrame (hpool : platform.bufferPool.Reliable) {length : Nat} (h : Poised c v k data s)
    (hpos : 0 < length) (hlt : length < 2 ^ 24) {Q : Bytes → SnappyFramedInputStream → Prop}
    {E : Throwable → SnappyFramedInputStream → Prop}
    (hQ : ∀ t, length ≤ data.length →
      Poised (c.forBody platform.bufferPool length) v k (data.drop length) t →
      Q (data.take length) t)
    (hShort : ∀ t, data.length < length →
      E (.eofException "unexpectd EOF when reading frame") t) :
    wp (readFrame platform length) Q E s := by
  obtain ⟨l, hl, hlen⟩ := h.room.input
  have hcap : capacity s.input = c.input := by rw [hl, ← hlen]; rfl
  have hfill : ∀ {u : SnappyFramedInputStream} {i : Lease},
      Poised (c.forBody platform.bufferPool length) v k data u → u.input = some i →
      length ≤ i.contents.length → ∀ r l' events, length ≤ u.rbc.data.length →
      r.data = u.rbc.data.drop length → (u.rbc.Positive → r.Positive) →
      r.fragments.length ≤ u.rbc.fragments.length → l'.contents.length = i.contents.length →
      Q (u.rbc.data.take length) { u with rbc := r, input := some l', poolEvents := events } := by
    intro u i hu hi hfit r l' events hall hr hpr hfr hcapl
    obtain ⟨i', hi', hleni⟩ := hu.room.input
    obtain rfl := Option.some.inj (hi.symm.trans hi')
    rw [hu.data_eq] at hall hr ⊢
    refine hQ _ hall
      ⟨hr, hpr hu.positive, Nat.le_trans hfr hu.fragments_le, hu.opened, hu.live, hu.verify, ?_⟩
    exact { hu.room with input := ⟨l', rfl, hcapl.trans hleni⟩ }
  simp only [readFrame, wp_bind, wp_get, wp_when, hcap]
  split
  · rename_i hlarge
    have hfor : c.forBody platform.bufferPool length =
        .basedOnSize platform.bufferPool s.allocations length := by
      rw [Capacities.forBody, if_pos hlarge, h.room.allocations]
    apply wp_allocateBuffersBasedOnSize hpool (by omega)
    intro u hplace hroom
    rw [← hfor] at hroom
    have hu := h.samePlace hplace hroom
    obtain ⟨i, hi, hleni⟩ := hu.room.input
    have hle : length ≤ i.contents.length := by
      rw [hleni, hfor]
      exact le_answered_direct hpool _ (by omega)
    have := wp_fillInput hi hle hpos (hfill hu hi hle)
      (fun t hcut => hShort t (by rwa [hu.data_eq] at hcut))
    simpa only [wp_bind] using this
  · rename_i hfits
    have hfor : c.forBody platform.bufferPool length = c := by
      rw [Capacities.forBody, if_neg hfits]
    rw [hfor] at hfill
    have hle : length ≤ l.contents.length := by omega
    have := wp_fillInput hl hle hpos (hfill h hl hle)
      (fun t hcut => hShort t (by rwa [h.data_eq] at hcut))
    simpa only [wp_bind] using this

/-- The frame that was read last is `x`, and nothing of it has been delivered. -/
structure Decoded (x : Bytes) (s : SnappyFramedInputStream) : Prop where
  position : s.position = 0
  valid : s.valid = x.length
  buffer : ∃ b, s.buffer = some b ∧ b.contents.take x.length = x ∧ x.length ≤ b.contents.length

/-- The decoded block, or the bytes of a raw frame, go to the front of `buffer`. -/
theorem wp_copyToBuffer (h : Poised c v k data s) {x : Bytes}
    {Q : Unit → SnappyFramedInputStream → Prop} {E : Throwable → SnappyFramedInputStream → Prop}
    (hQ : ∀ t b, x.length ≤ c.buffer → t.buffer = some b → b.contents.take x.length = x →
      x.length ≤ b.contents.length → Poised c v k data t → t.valid = s.valid →
      t.position = s.position → Q () t)
    (hOver : ∀ t, c.buffer < x.length → E .indexOutOfBoundsException t) :
    wp (copyToBuffer x) Q E s := by
  obtain ⟨l, hl, hlen⟩ := h.room.buffer
  simp only [copyToBuffer, wp_bind, wp_ite, wp_throw, wp_modify]
  apply wp_access hl
  intro events
  split
  · exact hOver _ (by omega)
  rename_i hge
  have hx : x.length ≤ c.buffer := by omega
  have hcap : (splice l.contents 0 x).length = c.buffer := by
    rw [← hlen]
    exact length_splice (by omega)
  refine hQ _ _ hx rfl (take_splice_zero _ _) (by simp only [hcap]; exact hx) ?_ rfl rfl
  exact ⟨h.data_eq, h.positive, h.fragments_le, h.opened, h.live, h.verify,
    { h.room with buffer := ⟨_, rfl, hcap⟩ }⟩

theorem wp_copyFrame (h : Poised c v k data s) {x : Bytes}
    {Q : Unit → SnappyFramedInputStream → Prop} {E : Throwable → SnappyFramedInputStream → Prop}
    (hQ : ∀ t, x.length ≤ c.buffer → Poised c v k data t → Decoded x t → Q () t)
    (hOver : ∀ t, c.buffer < x.length → E .indexOutOfBoundsException t) :
    wp (copyFrame x) Q E s := by
  obtain ⟨i, hi, -⟩ := h.room.input
  simp only [copyFrame, wp_bind, wp_modify]
  refine wp_access (l := i) hi ?_
  intro events
  apply @wp_copyToBuffer c v k data
  · exact { h with room := { h.room with } }
  · intro t b hx hb htake hfits ht hvalid hpos
    exact hQ t hx ht ⟨hpos, hvalid, b, hb, htake, hfits⟩
  · exact hOver

/-- What comes of the block behind the checksum of a compressed frame. -/
theorem wp_uncompressFrame (hpool : platform.bufferPool.Reliable) (h : Poised c v k data s)
    {payload : Bytes}
    {Q : Unit → SnappyFramedInputStream → Prop} {E : Throwable → SnappyFramedInputStream → Prop}
    (hQ : ∀ t x, platform.codec.rawUncompress payload = .ok x → x.length < 2 ^ 31 →
      x.length ≤ (c.forBlock platform.bufferPool x.length).buffer →
      Poised (c.forBlock platform.bufferPool x.length) v k data t → Decoded x t → Q () t)
    (hOver : ∀ t x, platform.codec.rawUncompress payload = .ok x →
      (c.forBlock platform.bufferPool x.length).buffer < x.length → E .indexOutOfBoundsException t)
    (hFault : ∀ t n, platform.codec.getUncompressedLength payload = some n → 2 ^ 31 ≤ n →
      E (.memoryFault .rawUncompress) t)
    (hBad : ∀ t m, (∀ x, platform.codec.rawUncompress payload ≠ .ok x) → E (.ioException m) t) :
    wp (uncompressFrame platform payload) Q E s := by
  obtain ⟨i, hi, -⟩ := h.room.input
  obtain ⟨d, hd, hdl⟩ := h.room.uncompressedDirect
  simp only [uncompressFrame, wp_bind, wp_get, wp_when, wp_modify]
  apply wp_access hi
  intro events
  cases hn : platform.codec.getUncompressedLength payload with
  | none =>
    simp only [Snappy.uncompressedLength, hn, wp_fromExcept_error]
    refine hBad _ _ fun x hx => ?_
    rw [platform.codec.length_rawUncompress _ _ hx] at hn
    cases hn
  | some n =>
    have hn32 := platform.codec.getUncompressedLength_lt _ _ hn
    have hcap : capacity s.uncompressedDirect = c.uncompressedDirect := by rw [hd, ← hdl]; rfl
    by_cases hlt : n < 2 ^ 31
    · -- the destination has room, as it is or larger
      have hrest : ∀ u, Poised (c.forBlock platform.bufferPool n) v k data u →
          n ≤ (c.forBlock platform.bufferPool n).uncompressedDirect →
          wp (uncompress platform.codec payload >>= fun n => do
            modify fun s => { s with valid := n }
            let d ← access SnappyFramedInputStream.uncompressedDirect
            copyToBuffer (d.contents.take n)
            modify fun s => { s with position := 0 }) Q E u := by
        intro u hu hroom
        obtain ⟨i', hi', -⟩ := hu.room.input
        obtain ⟨d', hd', hdl'⟩ := hu.room.uncompressedDirect
        simp only [uncompress, wp_bind, wp_modify]
        apply wp_access hi'
        intro ev₁
        refine wp_access (l := d') hd' ?_
        intro ev₂
        cases hx : platform.codec.rawUncompress payload with
        | error written =>
          have hbad : (Snappy.uncompress platform.codec payload d'.contents).1 =
              .error (throw_error .failedToUncompress) := by
            simp only [Snappy.uncompress, hn, Option.getD_some, hx]
            rw [if_neg (by omega)]
          rw [hbad]
          simp only [wp_fromExcept_error, throw_error]
          exact hBad _ _ fun x h' => by simp [hx] at h'
        | ok x =>
          have hxn : n = x.length := by
            have := platform.codec.length_rawUncompress _ _ hx
            rw [hn] at this
            exact Option.some.inj this
          subst hxn
          simp only [Snappy.uncompress_of_ok hx (show x.length ≤ d'.contents.length by omega) hlt,
            wp_fromExcept_ok, wp_pure, Int.toNat_natCast]
          refine wp_access (l := ⟨d'.id, splice d'.contents 0 x⟩) rfl ?_
          intro ev₃
          dsimp only
          rw [take_splice_zero]
          apply @wp_copyToBuffer (c.forBlock platform.bufferPool x.length) v k data
          · exact ⟨hu.data_eq, hu.positive, hu.fragments_le, hu.opened, hu.live, hu.verify,
              { hu.room with
                uncompressedDirect := ⟨_, rfl, by rw [← hdl']; exact length_splice (by omega)⟩ }⟩
          · intro t b hfit hb htake hfits ht hvalid _
            exact hQ _ x hx hlt hfit { ht with room := { ht.room with } }
              ⟨rfl, hvalid, b, hb, htake, hfits⟩
          · exact fun t hover => hOver t x hx hover
      have hs : Poised c v k data { s with poolEvents := events } := { h with room := { h.room with } }
      simp only [Snappy.uncompressedLength_of_lt hn hlt, wp_fromExcept_ok, hcap, Int.toNat_natCast,
        gt_iff_lt, Nat.cast_lt]
      split
      · rename_i hlarge
        apply wp_reallocateForBlock hpool hs.room hlarge hlt
        intro u hplace hroom hle
        simpa only [wp_bind, wp_modify] using hrest u (hs.samePlace hplace hroom) hle
      · rename_i hfits
        have hfor : c.forBlock platform.bufferPool n = c := by
          rw [Capacities.forBlock, if_neg hfits]
        simpa only [wp_bind, wp_modify] using
          hrest _ (by rw [hfor]; exact hs) (by rw [hfor]; omega)
    · -- the sign of the length is lost, and no larger buffer is allocated
      have hneg : wrap32 n < 0 := by
        have : wrap32 (n : Int) = n - 2 ^ 32 := by
          unfold wrap32
          rw [Int.bmod_def]
          omega
        omega
      have hroom := h.room.direct_lt
      have hfault : (Snappy.uncompress platform.codec payload d.contents).1 =
          .error (.memoryFault .rawUncompress) := by
        simp only [Snappy.uncompress, hn, Option.getD_some]
        rw [if_pos (by omega)]
      simp only [Snappy.uncompressedLength, hn, wp_fromExcept_ok]
      rw [if_neg (by omega)]
      simp only [uncompress, wp_bind, wp_modify]
      refine wp_access (l := i) hi ?_
      intro ev₁
      refine wp_access (l := d) hd ?_
      intro ev₂
      simp only [hfault, wp_fromExcept_error]
      exact hFault _ n hn (by omega)

/-- The checksum decides. -/
theorem wp_verifyFrame (h : Poised c v k data s) {x : Bytes} (hx : Decoded x s)
    {checkSum : BitVec 32} {Q : Unit → SnappyFramedInputStream → Prop}
    {E : Throwable → SnappyFramedInputStream → Prop}
    (hQ : ∀ t, checkSum = SnappyFramed.mask (platform.crc32c x) ∨ v = false →
      Poised c v k data t → Decoded x t → Q () t)
    (hBad : ∀ t, checkSum ≠ SnappyFramed.mask (platform.crc32c x) → v = true →
      E (.ioException "Corrupt input: invalid checksum") t) :
    wp (verifyFrame platform checkSum) Q E s := by
  obtain ⟨b, hb, htake, hfits⟩ := hx.buffer
  have hcrc : SnappyFramed.maskedCrc32c platform.crc32c b.contents 0 x.length =
      SnappyFramed.mask (platform.crc32c x) := by
    rw [SnappyFramed.maskedCrc32c, slice_zero, htake]
  simp only [verifyFrame, wp_bind, wp_get, wp_when, wp_modify, wp_throw, hx.position, hx.valid,
    Nat.sub_zero]
  split
  · rename_i hv
    apply wp_access hb
    intro events
    rw [hcrc]
    split
    · rename_i hne
      exact hBad _ hne (by rw [← h.verify, hv])
    · rename_i heq
      exact hQ _ (.inl (by simpa using heq)) { h with room := { h.room with } }
        ⟨hx.position, hx.valid, b, hb, htake, hfits⟩
  · rename_i hv
    exact hQ _ (.inr (by rw [← h.verify]; simpa using hv)) { h with room := { h.room with } }
      ⟨rfl, rfl, b, hb, htake, hfits⟩

end

/-! ## One frame -/

/-- The frame carries data, compressed or raw. -/
def IsData (f : Frame) : Prop :=
  f.flag = SnappyFramed.compressedDataFlag ∨ f.flag = SnappyFramed.uncompressedDataFlag

instance : DecidablePred IsData := fun _ => inferInstanceAs (Decidable (_ ∨ _))

private theorem flags_ne : SnappyFramed.uncompressedDataFlag ≠ SnappyFramed.compressedDataFlag ∧
    SnappyFramed.streamIdentifierFlag ≠ SnappyFramed.compressedDataFlag ∧
    SnappyFramed.streamIdentifierFlag ≠ SnappyFramed.uncompressedDataFlag := by decide

section
variable {platform : Platform} {f : Frame}

theorem getFrameMetaData_compressed (hf : f.Fits)
    (hflag : f.flag = SnappyFramed.compressedDataFlag) (h5 : 5 ≤ f.body.length) :
    getFrameMetaData f.header = .ok ⟨.uncompress, f.body.length⟩ := by
  simp only [getFrameMetaData, Frame.header, le24, List.getD_cons_zero, List.getD_cons_succ,
    ofLE24_le24 hf, hflag, if_true, if_neg (show ¬ f.body.length < 5 by omega)]

theorem getFrameMetaData_raw (hf : f.Fits)
    (hflag : f.flag = SnappyFramed.uncompressedDataFlag) (h5 : 5 ≤ f.body.length) :
    getFrameMetaData f.header = .ok ⟨.raw, f.body.length⟩ := by
  simp only [getFrameMetaData, Frame.header, le24, List.getD_cons_zero, List.getD_cons_succ,
    ofLE24_le24 hf, hflag, if_neg flags_ne.1, if_true, if_neg (show ¬ f.body.length < 5 by omega)]

/-- A data frame without room for a checksum and a byte. -/
theorem getFrameMetaData_short (hf : f.Fits) (hflag : IsData f) (h5 : f.body.length < 5) :
    ∃ m, getFrameMetaData f.header = .error (.ioException m) := by
  rcases hflag with hflag | hflag
  · simp only [getFrameMetaData, Frame.header, le24, List.getD_cons_zero, List.getD_cons_succ,
      ofLE24_le24 hf, hflag, if_true, if_pos h5]
    exact ⟨_, rfl⟩
  · simp only [getFrameMetaData, Frame.header, le24, List.getD_cons_zero, List.getD_cons_succ,
      ofLE24_le24 hf, hflag, if_neg flags_ne.1, if_true, if_pos h5]
    exact ⟨_, rfl⟩

theorem getFrameMetaData_skip (hf : f.Fits) (hflag : ¬ IsData f) (hgood : f.Good platform) :
    getFrameMetaData f.header = .ok ⟨.skip, f.body.length⟩ := by
  obtain ⟨h0, h1⟩ := not_or.mp hflag
  rw [Frame.Good, if_neg h0, if_neg h1] at hgood
  by_cases h2 : f.flag = SnappyFramed.streamIdentifierFlag
  · rw [if_pos h2] at hgood
    have h3 := ofLE24_le24 hf
    rw [hgood] at h3
    simp only [getFrameMetaData, Frame.header, le24, List.getD_cons_zero, List.getD_cons_succ,
      hgood, h3, h2, if_neg flags_ne.2.1, if_neg flags_ne.2.2, if_true, ne_eq, not_true_eq_false,
      if_false, Nat.lt_irrefl]
  · rw [if_neg h2] at hgood
    have h7 : ¬ f.flag ≤ 0x7f := fun hle => absurd (UInt8.le_trans hgood hle) (by decide)
    simp only [getFrameMetaData, Frame.header, le24, List.getD_cons_zero, List.getD_cons_succ,
      ofLE24_le24 hf, if_neg h0, if_neg h1, if_neg h2, if_neg h7, Nat.not_lt_zero, if_false]

/-- An identifier of a wrong length, or a reserved chunk that may not be skipped. -/
theorem getFrameMetaData_bad (hf : f.Fits) (hflag : ¬ IsData f) (hbad : ¬ f.Good platform) :
    ∃ m, getFrameMetaData f.header = .error (.ioException m) := by
  obtain ⟨h0, h1⟩ := not_or.mp hflag
  rw [Frame.Good, if_neg h0, if_neg h1] at hbad
  by_cases h2 : f.flag = SnappyFramed.streamIdentifierFlag
  · rw [if_pos h2] at hbad
    simp only [getFrameMetaData, Frame.header, le24, List.getD_cons_zero, List.getD_cons_succ,
      ofLE24_le24 hf, h2, if_neg flags_ne.2.1, if_neg flags_ne.2.2, if_true, ne_eq, hbad,
      not_false_eq_true]
    exact ⟨_, rfl⟩
  · rw [if_neg h2] at hbad
    have h7 : f.flag ≤ 0x7f := by
      rw [UInt8.not_le] at hbad
      rw [UInt8.le_iff_toNat_le]
      rw [UInt8.lt_iff_toNat_lt] at hbad
      have h80 : (0x80 : UInt8).toNat = 128 := rfl
      have h7f : (0x7f : UInt8).toNat = 127 := rfl
      omega
    simp only [getFrameMetaData, Frame.header, le24, List.getD_cons_zero, List.getD_cons_succ,
      ofLE24_le24 hf, if_neg h0, if_neg h1, if_neg h2, if_pos h7]
    exact ⟨_, rfl⟩

end

section
variable {platform : Platform} {c : Capacities} {v : Bool} {k : Nat} {s : SnappyFramedInputStream}

/-- A data frame is read, decoded and checked. -/
theorem wp_loadFrame (hpool : platform.bufferPool.Reliable) {f : Frame} {tail : Bytes}
    (hf : f.Fits) (hdata : IsData f) (h5 : 5 ≤ f.body.length)
    (h : Poised c v k (f.body ++ tail) s) {Q : Unit → SnappyFramedInputStream → Prop}
    {E : Throwable → SnappyFramedInputStream → Prop}
    (hQ : ∀ t, f.Good platform ∨ v = false →
      (f.data platform.codec).length ≤ (c.next platform f).buffer →
      Poised (c.next platform f) v k tail t → Decoded (f.data platform.codec) t → Q () t)
    (hOver : ∀ t, (c.next platform f).buffer < (f.data platform.codec).length →
      E .indexOutOfBoundsException t)
    (hFault : ∀ t n, f.flag = SnappyFramed.compressedDataFlag →
      platform.codec.getUncompressedLength f.payload = some n → 2 ^ 31 ≤ n →
      E (.memoryFault .rawUncompress) t)
    (hBad : ∀ t m, ¬ f.Good platform → E (.ioException m) t) :
    wp (loadFrame platform f.flag (f.flag = SnappyFramed.compressedDataFlag) f.body.length) Q E s := by
  simp only [loadFrame, wp_bind, wp_modify]
  apply wp_readFrame hpool h (by omega) hf
  case hShort =>
    intro _ hcut
    rw [List.length_append] at hcut
    omega
  intro t _ ht
  rw [List.take_left]
  rw [List.drop_left] at ht
  have ht' : Poised (c.forBody platform.bufferPool f.body.length) v k tail
      { t with frames := t.frames ++ [⟨f.flag, f.body⟩], verified := false } :=
    { ht with room := { ht.room with } }
  by_cases hflag : f.flag = SnappyFramed.compressedDataFlag
  · simp only [hflag, decide_true, if_true, wp_bind]
    have hx : ∀ x, platform.codec.rawUncompress f.payload = .ok x → f.data platform.codec = x := by
      intro x hx
      simp only [Frame.data, if_pos hflag, hx]
    have hgood : ∀ x, platform.codec.rawUncompress f.payload = .ok x →
        f.checkSum = SnappyFramed.mask (platform.crc32c x) → f.Good platform := by
      intro x hok hsum
      rw [Frame.Good, if_pos hflag, Frame.Intact, hx x hok]
      exact ⟨h5, ⟨x, hok⟩, hsum⟩
    have hnext : ∀ x, platform.codec.rawUncompress f.payload = .ok x →
        (c.forBody platform.bufferPool f.body.length).forBlock platform.bufferPool x.length =
          c.next platform f := by
      intro x hok
      rw [Capacities.next, if_pos hflag, hx x hok]
    apply wp_uncompressFrame hpool (hflag ▸ ht' :)
    · intro u x hok _ hfit hu hdec
      rw [hnext x hok] at hfit hu
      apply wp_verifyFrame hu hdec
      · intro w hsum hw hdecw
        rw [← hx x hok] at hdecw hfit
        refine hQ w ?_ hfit hw hdecw
        rcases hsum with hsum | hv
        · exact .inl (hgood x hok hsum)
        · exact .inr hv
      · intro w hne _
        refine hBad w _ fun hg => hne ?_
        rw [Frame.Good, if_pos hflag, Frame.Intact, hx x hok] at hg
        exact hg.2.2
    · intro u x hok hover
      rw [hnext x hok, ← hx x hok] at hover
      exact hOver u hover
    · exact fun u n hn hlong => hFault u n hflag hn hlong
    · intro u m hnone
      refine hBad u m fun hg => ?_
      rw [Frame.Good, if_pos hflag] at hg
      obtain ⟨-, ⟨x, hok⟩, -⟩ := hg
      exact hnone x hok
  · have hraw : f.flag = SnappyFramed.uncompressedDataFlag := hdata.resolve_left hflag
    have hx : f.data platform.codec = f.payload := by
      rw [Frame.data, if_neg hflag, if_pos hraw]
    have hnext : c.next platform f = c.forBody platform.bufferPool f.body.length := by
      rw [Capacities.next, if_neg hflag, if_pos hraw]
    rw [hnext, hx] at hQ hOver
    simp only [hflag, decide_false, Bool.false_eq_true, if_false, wp_bind]
    refine wp_copyFrame ht' ?_ hOver
    intro u hfit hu hdec
    apply wp_verifyFrame hu hdec
    · intro w hsum hw hdecw
      refine hQ w ?_ hfit hw hdecw
      rcases hsum with hsum | hv
      · refine .inl ?_
        rw [Frame.Good, if_neg hflag, if_pos hraw, Frame.Intact, hx]
        exact ⟨h5, hsum⟩
      · exact .inr hv
    · intro w hne _
      refine hBad w _ fun hg => hne ?_
      rw [Frame.Good, if_neg hflag, if_pos hraw, Frame.Intact, hx] at hg
      exact hg.2

theorem availableNow_eq (h : s.closed = false) : s.availableNow = s.valid - s.position := by
  simp [availableNow, h]

/-- One round of `ensureBuffer` with a complete frame in front of it. -/
theorem wp_ensureBufferRound (hpool : platform.bufferPool.Reliable) {f : Frame} {tail : Bytes}
    (hf : f.Fits) (h : Poised c v k (f.encode ++ tail) s) (hdone : s.valid ≤ s.position)
    {Q : Unit ⊕ Bool → SnappyFramedInputStream → Prop}
    {E : Throwable → SnappyFramedInputStream → Prop}
    (hSkip : ∀ t, f.Good platform → ¬ IsData f → Poised c v k tail t → t.valid = s.valid →
      t.position = s.position → Q (.inl ()) t)
    (hLoad : ∀ t, f.Good platform ∨ v = false → IsData f →
      (f.data platform.codec).length ≤ (c.next platform f).buffer →
      Poised (c.next platform f) v k tail t → Decoded (f.data platform.codec) t → Q (.inr true) t)
    (hOver : ∀ t, (c.next platform f).buffer < (f.data platform.codec).length →
      E .indexOutOfBoundsException t)
    (hFault : ∀ t n, f.flag = SnappyFramed.compressedDataFlag →
      platform.codec.getUncompressedLength f.payload = some n → 2 ^ 31 ≤ n →
      E (.memoryFault .rawUncompress) t)
    (hBad : ∀ t m, ¬ f.Good platform → E (.ioException m) t) :
    wp (ensureBufferRound platform ()) Q E s := by
  have hdata := h.data_eq
  rw [Frame.encode, List.append_assoc] at hdata
  simp only [ensureBufferRound, wp_bind, wp_get, wp_ite, wp_pure, availableNow_eq h.opened, h.live,
    Bool.false_eq_true, if_false]
  rw [if_neg (by omega)]
  have h4 := Frame.length_header f
  have hlen : s.rbc.data.length = 4 + (f.body ++ tail).length := by
    rw [hdata, List.length_append, h4]
  apply wp_readBlockHeader h.positive
  case hEnd =>
    intro _ hnil
    rw [hnil, List.length_nil] at hlen
    omega
  case hShort =>
    intros
    omega
  intro r _ hr hpr hfr
  have htake : s.rbc.data.take 4 = f.header := by rw [hdata, ← h4, List.take_left]
  have hr' : r.data = f.body ++ tail := by rw [hr, hdata, ← h4, List.drop_left]
  rw [htake]
  have hpoised : Poised c v k (f.body ++ tail)
      { s with rbc := r, headerSource := some s.rbc } :=
    ⟨hr', hpr, Nat.le_trans hfr h.fragments_le, h.opened, h.live, h.verify, { h.room with }⟩
  have hhead : f.header.getD 0 0 = f.flag := rfl
  simp only [wp_bind, hhead]
  by_cases hflag : IsData f
  · by_cases h5 : f.body.length < 5
    · obtain ⟨m, hm⟩ := getFrameMetaData_short hf hflag h5
      simp only [hm, wp_fromExcept_error]
      refine hBad _ _ fun hg => ?_
      rcases hflag with hflag | hflag
      · rw [Frame.Good, if_pos hflag] at hg
        omega
      · rw [Frame.Good, if_neg (by rw [hflag]; exact flags_ne.1), if_pos hflag] at hg
        omega
    · have hload : wp (loadFrame platform f.flag (f.flag = SnappyFramed.compressedDataFlag)
          f.body.length) (fun _ t => Q (.inr true) t) E
          { s with rbc := r, headerSource := some s.rbc } :=
        wp_loadFrame hpool hf hflag (by omega) hpoised
          (fun t hg hfit ht hdec => hLoad t hg hflag hfit ht hdec) hOver hFault hBad
      rcases hflag with hflag | hflag
      · simp only [hflag, decide_true] at hload
        simp only [getFrameMetaData_compressed hf hflag (by omega), wp_fromExcept_ok, wp_ite, wp_bind,
          wp_pure, reduceCtorEq, if_false, decide_true, hflag]
        exact hload
      · have hne : ¬ SnappyFramed.uncompressedDataFlag = SnappyFramed.compressedDataFlag := flags_ne.1
        simp only [hflag, hne, decide_false] at hload
        simp only [getFrameMetaData_raw hf hflag (by omega), wp_fromExcept_ok, wp_ite, wp_bind,
          wp_pure, reduceCtorEq, if_false, decide_false, hflag]
        exact hload
  · by_cases hgood : f.Good platform
    · simp only [getFrameMetaData_skip hf hflag hgood, wp_fromExcept_ok, wp_ite, if_true, wp_bind,
        wp_pure]
      apply wp_skipFrame hpoised
      rw [List.drop_left]
      exact fun t ht hvalid hpos => hSkip t hgood hflag ht hvalid hpos
    · obtain ⟨m, hm⟩ := getFrameMetaData_bad hf hflag hgood
      simp only [hm, wp_fromExcept_error]
      exact hBad _ _ hgood

/-- One round of `ensureBuffer` at the end of the data. -/
theorem wp_ensureBufferRound_end (h : Poised c v k [] s) (hdone : s.valid ≤ s.position)
    {Q : Unit ⊕ Bool → SnappyFramedInputStream → Prop}
    {E : Throwable → SnappyFramedInputStream → Prop}
    (hQ : ∀ r : Source, r.data = [] → r.Positive →
      Q (.inr false) { s with rbc := r, headerSource := some s.rbc, eof := true }) :
    wp (ensureBufferRound platform ()) Q E s := by
  simp only [ensureBufferRound, wp_bind, wp_get, wp_ite, wp_pure, availableNow_eq h.opened, h.live,
    Bool.false_eq_true, if_false]
  rw [if_neg (by omega)]
  have hlen : s.rbc.data.length = 0 := by rw [h.data_eq]; rfl
  apply wp_readBlockHeader h.positive
  case hQ =>
    intros
    omega
  case hShort =>
    intros
    omega
  intro r _ hr hpr
  simp only [wp_bind, wp_modify, wp_pure]
  exact hQ r hr hpr

end

/-! ## What a header says -/

/-- The kind and the length of a frame whose header is taken. -/
theorem getFrameMetaData_cases {header : Bytes} {m : FrameMetaData}
    (h : getFrameMetaData header = .ok m) :
    m.length = ofLE24 (header.getD 1 0) (header.getD 2 0) (header.getD 3 0) ∧
      match m.frameAction with
      | .uncompress => header.getD 0 0 = SnappyFramed.compressedDataFlag ∧ 5 ≤ m.length
      | .raw => header.getD 0 0 = SnappyFramed.uncompressedDataFlag ∧ 5 ≤ m.length
      | .skip => header.getD 0 0 ≠ SnappyFramed.compressedDataFlag ∧
          header.getD 0 0 ≠ SnappyFramed.uncompressedDataFlag ∧
          if header.getD 0 0 = SnappyFramed.streamIdentifierFlag then m.length = 6
          else 0x80 ≤ header.getD 0 0 := by
  unfold getFrameMetaData at h
  dsimp only at h
  generalize ofLE24 (header.getD 1 0) (header.getD 2 0) (header.getD 3 0) = length at h ⊢
  generalize header.getD 0 0 = flag at h ⊢
  split at h
  · cases h
  rename_i action minLength haction
  split at h
  · cases h
  rename_i hmin
  obtain rfl := Except.ok.inj h
  refine ⟨rfl, ?_⟩
  dsimp only
  split at haction
  · rename_i hflag
    cases haction
    exact ⟨hflag, Nat.le_of_not_lt hmin⟩
  rename_i hcompressed
  split at haction
  · rename_i hflag
    cases haction
    exact ⟨hflag, Nat.le_of_not_lt hmin⟩
  rename_i hraw
  split at haction
  · rename_i hidentifier
    split at haction
    · cases haction
    · rename_i hsix
      cases haction
      refine ⟨hcompressed, hraw, ?_⟩
      rw [if_pos hidentifier]
      exact not_not.mp hsix
  · rename_i hidentifier
    split at haction
    · cases haction
    · rename_i hlarge
      cases haction
      refine ⟨hcompressed, hraw, ?_⟩
      rw [if_neg hidentifier]
      rw [UInt8.le_iff_toNat_le] at hlarge ⊢
      have h80 : (0x80 : UInt8).toNat = 128 := rfl
      have h7f : (0x7f : UInt8).toNat = 127 := rfl
      omega

/-- Which flag stands in front of a frame that is not skipped, and how long it is at
least. -/
theorem getFrameMetaData_flag {header : Bytes} {m : FrameMetaData}
    (h : getFrameMetaData header = .ok m) (hskip : m.frameAction ≠ .skip) :
    (if m.frameAction = .uncompress then header.getD 0 0 = SnappyFramed.compressedDataFlag
      else header.getD 0 0 = SnappyFramed.uncompressedDataFlag) ∧ 5 ≤ m.length := by
  obtain ⟨-, hkind⟩ := getFrameMetaData_cases h
  cases haction : m.frameAction with
  | raw =>
    rw [haction] at hkind
    exact hkind
  | skip => exact absurd haction hskip
  | uncompress =>
    rw [haction] at hkind
    exact hkind

/-- The frame at the front, which the header describes. -/
theorem encode_front {data : Bytes} {m : FrameMetaData} (hlen : 4 ≤ data.length)
    (hm : m.length = ofLE24 ((data.take 4).getD 1 0) ((data.take 4).getD 2 0) ((data.take 4).getD 3 0))
    (hbody : m.length ≤ (data.drop 4).length) :
    data = (Frame.mk ((data.take 4).getD 0 0) ((data.drop 4).take m.length)).encode ++
        (data.drop 4).drop m.length ∧
      (Frame.mk ((data.take 4).getD 0 0) ((data.drop 4).take m.length)).Fits := by
  obtain ⟨b0, b1, b2, b3, rest, rfl⟩ : ∃ b0 b1 b2 b3 rest, data = b0 :: b1 :: b2 :: b3 :: rest := by
    match data, hlen with
    | b0 :: b1 :: b2 :: b3 :: rest, _ => exact ⟨b0, b1, b2, b3, rest, rfl⟩
  simp only [List.take_succ_cons, List.take_zero, List.drop_succ_cons, List.drop_zero,
    List.getD_cons_zero, List.getD_cons_succ] at hm hbody ⊢
  have hcut : (rest.take m.length).length = m.length := by
    rw [List.length_take]
    omega
  have hlt := ofLE24_lt b1 b2 b3
  refine ⟨?_, by rw [Frame.Fits, hcut]; omega⟩
  simp only [Frame.encode, Frame.header, hcut]
  rw [hm, le24_ofLE24, ← hm, List.append_assoc, List.take_append_drop]
  rfl

end SnappyJava.SnappyFramedInputStream
