import SnappyJava.FrameStream
import SnappyJava.FramedReaderSafety

/-! What lies ahead of a `SnappyFramedInputStream`: the frames that a call comes to,
as far as the stream gets through them, and what they make of its buffers. Any
allocation may fail, and the channel delivers as it likes. -/

namespace SnappyJava

open Exec Memory Words

/-- The frames that a reader lets through: those of the grammar, where a wrong checksum
is noticed only by a reader that verifies it. -/
def Frame.Admitted (platform : Platform) (verifyChecksums : Bool) (f : Frame) : Prop :=
  if f.flag = SnappyFramed.compressedDataFlag then
    5 ≤ f.body.length ∧ (∃ data, platform.codec.rawUncompress f.payload = .ok data) ∧
      (verifyChecksums = true → f.Intact platform)
  else if f.flag = SnappyFramed.uncompressedDataFlag then
    5 ≤ f.body.length ∧ (verifyChecksums = true → f.Intact platform)
  else if f.flag = SnappyFramed.streamIdentifierFlag then f.body.length = 6
  else 0x80 ≤ f.flag

namespace SnappyFramedInputStream

/-! ## The bytes ahead as frames -/

/-- The complete frames at the front of `data`, up to `k` of them. -/
def framesIn : Nat → Bytes → List Frame
  | k + 1, flag :: b0 :: b1 :: b2 :: rest =>
    if ofLE24 b0 b1 b2 ≤ rest.length then
      ⟨flag, rest.take (ofLE24 b0 b1 b2)⟩ :: framesIn k (rest.drop (ofLE24 b0 b1 b2))
    else []
  | _, _ => []

/-- All the complete frames at the front of `data`. -/
def framesOf (data : Bytes) : List Frame := framesIn data.length data

theorem framesIn_encode {f : Frame} (hf : f.Fits) (k : Nat) (rest : Bytes) :
    framesIn (k + 1) (f.encode ++ rest) = f :: framesIn k rest := by
  have hlength := ofLE24_le24 hf
  have hall : f.body.length ≤ (f.body ++ rest).length := by
    rw [List.length_append]
    omega
  simp only [Frame.encode, Frame.header, le24, List.cons_append, List.nil_append, framesIn, hlength]
  rw [if_pos hall, List.take_left, List.drop_left]

theorem framesIn_of_le {k : Nat} {data : Bytes} (h : data.length ≤ k) :
    framesIn k data = framesOf data := by
  have hboth : ∀ (k k' : Nat) (data : Bytes), data.length ≤ k → data.length ≤ k' →
      framesIn k data = framesIn k' data := by
    intro k
    induction k with
    | zero =>
      intro k' data hk _
      obtain rfl := List.length_eq_zero_iff.mp (Nat.le_zero.mp hk)
      cases k' <;> rfl
    | succ k ih =>
      intro k' data hk hk'
      match data, k' with
      | [], 0 | [], _ + 1 | [_], _ + 1 | [_, _], _ + 1 | [_, _, _], _ + 1 => rfl
      | _ :: b0 :: b1 :: b2 :: rest, k' + 1 =>
        have hdrop := @List.length_drop _ (ofLE24 b0 b1 b2) rest
        simp only [List.length_cons] at hk hk'
        simp only [framesIn]
        rw [ih k' _ (by omega) (by omega)]
  exact hboth k _ data h (Nat.le_refl _)

/-- A frame and what stands behind it. -/
theorem framesOf_encode {f : Frame} (hf : f.Fits) (rest : Bytes) :
    framesOf (f.encode ++ rest) = f :: framesOf rest := by
  have hlen : (f.encode ++ rest).length = f.body.length + rest.length + 3 + 1 := by
    rw [Frame.encode, List.length_append, List.length_append, Frame.length_header]
    omega
  rw [framesOf, hlen, framesIn_encode hf, framesIn_of_le (by omega)]

theorem framesOf_flatMap {frames : List Frame} (hf : ∀ f ∈ frames, f.Fits) (rest : Bytes) :
    framesOf (frames.flatMap Frame.encode ++ rest) = frames ++ framesOf rest := by
  induction frames with
  | nil => rfl
  | cons f fs ih =>
    rw [List.flatMap_cons, List.append_assoc, framesOf_encode (hf f List.mem_cons_self),
      ih fun g hg => hf g (List.mem_cons_of_mem _ hg), List.cons_append]

/-! ## Frames that get through -/

/-- The capacities of the buffers that a stream has. -/
def capacities (s : SnappyFramedInputStream) : Capacities :=
  { input := capacity s.input
    uncompressedDirect := capacity s.uncompressedDirect
    buffer := capacity s.buffer
    array := (s.buffer.map Lease.id).getD 0
    allocations := s.allocations }

/-- The allocations of `allocateBuffersBasedOnSize` succeed. -/
def GrantsSize (pool : BufferPool) (allocations size : Nat) : Prop :=
  (pool.allocateDirect allocations size).isOk ∧
    (pool.allocateDirect (allocations + 1) (Snappy.maxCompressedLength size).toNat).isOk ∧
    (pool.allocateArray (allocations + 2) (Snappy.maxCompressedLength size).toNat).isOk

/-- The allocations for a block that does not fit succeed. -/
def GrantsBlock (pool : BufferPool) (allocations uncompressedLength : Nat) : Prop :=
  (pool.allocateDirect allocations uncompressedLength).isOk ∧
    (pool.allocateArray (allocations + 1) uncompressedLength).isOk

/-- The stream gets through the frame: it is let through, the allocations it calls for
succeed, and its data fits. -/
structure Clears (platform : Platform) (verifyChecksums : Bool) (c : Capacities) (f : Frame) :
    Prop where
  admitted : f.Admitted platform verifyChecksums
  body : IsData f → f.body.length > c.input →
    GrantsSize platform.bufferPool c.allocations f.body.length
  block : f.flag = SnappyFramed.compressedDataFlag →
    (f.data platform.codec).length >
      (c.forBody platform.bufferPool f.body.length).uncompressedDirect →
    GrantsBlock platform.bufferPool (c.forBody platform.bufferPool f.body.length).allocations
      (f.data platform.codec).length
  fits : (f.data platform.codec).length ≤ (c.next platform f).buffer

/-- `f` is the first data frame of `data` that the stream gets through to, and `rest`
stands behind it. -/
inductive Arrives (platform : Platform) (verifyChecksums : Bool) (c : Capacities) :
    Bytes → Frame → Bytes → Prop
  | here {f : Frame} {rest : Bytes} (hf : f.Fits) (hdata : IsData f)
      (hclears : Clears platform verifyChecksums c f) :
    Arrives platform verifyChecksums c (f.encode ++ rest) f rest
  | later {g f : Frame} {more rest : Bytes} (hg : g.Fits) (hskip : ¬ IsData g)
      (hclears : Clears platform verifyChecksums c g)
      (hmore : Arrives platform verifyChecksums c more f rest) :
    Arrives platform verifyChecksums c (g.encode ++ more) f rest

/-- `t` is `s` with the data, the buffers and the allocations given, whatever has been
decoded. -/
structure Moved (c : Capacities) (data : Bytes) (s t : SnappyFramedInputStream) : Prop where
  data_eq : t.rbc.data = data
  capacities_eq : t.capacities = c
  closed : t.closed = s.closed
  eof : t.eof = s.eof
  verifyChecksums : t.verifyChecksums = s.verifyChecksums
  direct_lt : c.uncompressedDirect < 2 ^ 31

section
variable {platform : Platform} {c c' : Capacities} {data data' : Bytes}
  {s t u : SnappyFramedInputStream}

theorem Moved.refl (h : s.capacities.uncompressedDirect < 2 ^ 31) :
    Moved s.capacities s.rbc.data s s := ⟨rfl, rfl, rfl, rfl, rfl, h⟩

theorem Moved.trans (h : Moved c data s t) (h' : Moved c' data' t u) : Moved c' data' s u :=
  ⟨h'.data_eq, h'.capacities_eq, h'.closed.trans h.closed, h'.eof.trans h.eof,
    h'.verifyChecksums.trans h.verifyChecksums, h'.direct_lt⟩

/-- The record of what was used is no part of it. -/
theorem Moved.of_used {id : Nat} (h : Moved c data (s.used id) t) : Moved c data s t := { h with }

theorem isOk_of_eq {x : Except Throwable Bytes} {b : Bytes} (h : x = .ok b) : x.isOk := by
  rw [h]
  rfl

/-! ## The buffers -/

theorem moved_allocateBuffersBasedOnSize (hpool : platform.bufferPool.Contract) (size : Nat) :
    wp (allocateBuffersBasedOnSize platform size)
      (fun _ t => GrantsSize platform.bufferPool s.allocations size ∧
        Moved (.basedOnSize platform.bufferPool s.allocations size) s.rbc.data s t)
      (fun _ _ => True) s := by
  simp only [allocateBuffersBasedOnSize, wp_bind, wp_modify]
  refine wp_releaseField fun _ _ => wp_releaseField fun _ _ => wp_releaseField fun _ _ => ?_
  refine wp_allocate_cases (fun i hi => ?_) fun _ => trivial
  refine wp_allocate_cases (fun d hd => ?_) fun _ => trivial
  refine wp_allocate_cases (fun b hb => ?_) fun _ => trivial
  have hlt := (hpool.direct _ _ _ hd).2
  dsimp only at hi hd hb hlt
  refine ⟨⟨isOk_of_eq hi, isOk_of_eq hd, isOk_of_eq hb⟩, rfl, ?_, rfl, rfl, rfl, ?_⟩
  · simp only [capacities, Capacities.basedOnSize, hi, hd, hb]
    rfl
  · simp only [Capacities.basedOnSize, hd]
    exact hlt

theorem moved_reallocateForBlock (hpool : platform.bufferPool.Contract) {n : Nat}
    (hn : n > s.capacities.uncompressedDirect) :
    wp (reallocateForBlock platform n)
      (fun _ t => GrantsBlock platform.bufferPool s.allocations n ∧
        Moved (s.capacities.forBlock platform.bufferPool n) s.rbc.data s t)
      (fun _ _ => True) s := by
  simp only [reallocateForBlock, wp_bind, wp_modify]
  refine wp_releaseField fun _ _ => wp_releaseField fun _ _ => ?_
  refine wp_allocate_cases (fun d hd => ?_) fun _ => trivial
  refine wp_allocate_cases (fun b hb => ?_) fun _ => trivial
  have hlt := (hpool.direct _ _ _ hd).2
  dsimp only at hd hb hlt
  refine ⟨⟨isOk_of_eq hd, isOk_of_eq hb⟩, rfl, ?_, rfl, rfl, rfl, ?_⟩
  · simp only [Capacities.forBlock, if_pos hn]
    simp only [capacities, hd, hb]
    rfl
  · simp only [Capacities.forBlock, if_pos hn]
    simp only [capacities, hd]
    exact hlt

/-! ## A frame -/

/-- A header is four bytes that are there. -/
theorem wp_readBlockHeader_front :
    wp readBlockHeader
      (fun header t => ∀ frameHeader, header = some frameHeader →
        4 ≤ s.rbc.data.length ∧ frameHeader = s.rbc.data.take 4 ∧
          ∃ r : Source, r.data = s.rbc.data.drop 4 ∧
            t = { s with rbc := r, headerSource := some s.rbc })
      (fun _ _ => True) s := by
  by_cases hne : s.rbc.data = []
  · have hrem : (ByteBuffer.wrap (newArray 4)).remaining = 4 := by simp
    simp only [readBlockHeader, onRbc, wp_bind, wp_modify, wp_zoom]
    apply SnappyFramed.wp_readBytes (by rw [hrem]; decide)
    intro r _ _ _
    have hfilled : SnappyFramed.filled (ByteBuffer.wrap (newArray 4)) s.rbc.data =
        (ByteBuffer.wrap (newArray 4)).ended := if_pos hne
    have hcapacity : (ByteBuffer.wrap (newArray 4)).ended.capacity = 4 := rfl
    have hcount : SnappyFramed.readCount (ByteBuffer.wrap (newArray 4)) s.rbc ≤ 0 := by
      rw [SnappyFramed.readCount, hne]
      split <;> simp
    simp only [wp_ite, wp_pure, wp_throw, hfilled, hcapacity]
    split
    · exact fun _ hnone => by cases hnone
    split
    · trivial
    · omega
  · refine wp_readBlockHeader_some hne (fun r h4 hr _ _ => ?_) fun _ _ => trivial
    intro frameHeader hheader
    obtain rfl := Option.some.inj hheader
    exact ⟨h4, rfl, r, hr, rfl⟩

theorem moved_readBlockHeader (h : s.capacities.uncompressedDirect < 2 ^ 31) :
    wp readBlockHeader
      (fun header t => ∀ frameHeader, header = some frameHeader →
        4 ≤ s.rbc.data.length ∧ frameHeader = s.rbc.data.take 4 ∧
          Moved s.capacities (s.rbc.data.drop 4) s t ∧ t.valid = s.valid ∧ t.position = s.position)
      (fun _ _ => True) s := by
  refine wp_mono wp_readBlockHeader_front ?_ fun _ _ _ => trivial
  intro header t ht frameHeader hheader
  obtain ⟨h4, htake, r, hr, rfl⟩ := ht frameHeader hheader
  exact ⟨h4, htake, ⟨hr, rfl, rfl, rfl, rfl, h⟩, rfl, rfl⟩

theorem moved_skipFrame (h : s.capacities.uncompressedDirect < 2 ^ 31) (length : Nat) :
    wp (skipFrame length)
      (fun _ t => Moved s.capacities (s.rbc.data.drop length) s t ∧ t.valid = s.valid ∧
        t.position = s.position) (fun _ _ => True) s := by
  simp only [skipFrame, onRbc, wp_bind, wp_zoom, wp_modify]
  refine wp_access_has (fun l hl => ?_) fun _ => trivial
  refine wp_mono (SnappyFramed.wp_skip_moves (.wrap l.contents) length s.rbc) ?_ fun _ _ _ => trivial
  rintro p r ⟨hp, hr⟩
  have hlength : p.2.array.length = l.contents.length := hp
  refine ⟨⟨hr, ?_, rfl, rfl, rfl, h⟩, rfl, rfl⟩
  have hbuffer : s.buffer = some l := hl
  simp only [capacities, hbuffer, capacity, Option.map_some, Option.getD_some, hlength]
  rfl

/-- The bytes of a frame into the buffer for them. -/
theorem moved_fillInput (h : s.capacities.uncompressedDirect < 2 ^ 31) {length : Nat}
    (hpos : 0 < length) {Q : Bytes → SnappyFramedInputStream → Prop}
    (hQ : ∀ t, length ≤ s.rbc.data.length → Moved s.capacities (s.rbc.data.drop length) s t →
      Q (s.rbc.data.take length) t) :
    wp (access SnappyFramedInputStream.input >>= fun l =>
      fromExcept ((ByteBuffer.wrap l.contents).setLimit length) >>= fun limited =>
      onRbc (SnappyFramed.readBytes limited) >>= fun p => do
        modify fun s => { s with input := some { l with contents := p.2.array } }
        if p.1 ≠ length then
          throw (.eofException "unexpectd EOF when reading frame")
        else
          let t ← access SnappyFramedInputStream.input
          pure (t.contents.take length)) Q (fun _ _ => True) s := by
  by_cases hfits : ∃ l, s.input = some l ∧ length ≤ l.contents.length
  · obtain ⟨l, hl, hle⟩ := hfits
    refine wp_fillInput hl hle hpos (fun r l' events hall hr _ _ hlength => ?_) fun _ _ => trivial
    refine hQ _ hall ⟨hr, ?_, rfl, rfl, rfl, h⟩
    simp only [capacities, hl, capacity, Option.map_some, Option.getD_some, hlength]
  · rw [wp_bind]
    refine wp_access_has (fun l hl => ?_) fun _ => trivial
    have hlt : l.contents.length < length := Nat.lt_of_not_le fun hle => hfits ⟨l, hl, hle⟩
    rw [wp_bind, ByteBuffer.setLimit, dif_neg (by simp [ByteBuffer.capacity, ByteBuffer.wrap]; omega),
      wp_fromExcept_error]
    trivial

theorem moved_readFrame (hpool : platform.bufferPool.Contract)
    (h : s.capacities.uncompressedDirect < 2 ^ 31) {length : Nat} (hpos : 0 < length)
    {Q : Bytes → SnappyFramedInputStream → Prop}
    (hQ : ∀ t, length ≤ s.rbc.data.length →
      (length > s.capacities.input → GrantsSize platform.bufferPool s.allocations length) →
      Moved (s.capacities.forBody platform.bufferPool length) (s.rbc.data.drop length) s t →
      Q (s.rbc.data.take length) t) :
    wp (readFrame platform length) Q (fun _ _ => True) s := by
  have hinput : capacity s.input = s.capacities.input := rfl
  simp only [readFrame, wp_bind, wp_get, wp_when, hinput]
  rw [Capacities.forBody] at hQ
  split
  · rename_i hlarge
    rw [if_pos hlarge] at hQ
    refine wp_mono (moved_allocateBuffersBasedOnSize hpool length) ?_ fun _ _ _ => trivial
    rintro - t ⟨hgrants, ht⟩
    have hlt : t.capacities.uncompressedDirect < 2 ^ 31 := ht.capacities_eq ▸ ht.direct_lt
    have hfill := @moved_fillInput t hlt length hpos Q fun u hall hu => by
      rw [ht.data_eq] at hall hu ⊢
      rw [ht.capacities_eq] at hu
      exact hQ u hall (fun _ => hgrants) (ht.trans hu)
    simpa only [wp_bind] using hfill
  · rename_i hfits
    rw [if_neg hfits] at hQ
    have hfill := @moved_fillInput s h length hpos Q fun u hall hu =>
      hQ u hall (fun hlarge => absurd hlarge hfits) hu
    simpa only [wp_bind] using hfill

theorem moved_copyToBuffer (h : s.capacities.uncompressedDirect < 2 ^ 31) (x : Bytes) :
    wp (copyToBuffer x)
      (fun _ t => Moved s.capacities s.rbc.data s t ∧ t.valid = s.valid ∧ t.position = s.position ∧
        ∃ b, t.buffer = some b ∧ b.contents.take x.length = x ∧ x.length ≤ b.contents.length)
      (fun _ _ => True) s := by
  simp only [copyToBuffer, wp_bind, wp_ite, wp_throw, wp_modify]
  refine wp_access_has (fun l hl => ?_) fun _ => trivial
  split
  · trivial
  rename_i hroom
  have hbuffer : s.buffer = some l := hl
  have hlength : (splice l.contents 0 x).length = l.contents.length := length_splice (by omega)
  refine ⟨⟨rfl, ?_, rfl, rfl, rfl, h⟩, rfl, rfl, _, rfl, take_splice_zero _ _, ?_⟩
  · simp only [capacities, used, hbuffer, capacity, Option.map_some, Option.getD_some, hlength]
  · rw [hlength]
    omega

/-- The decompressed block is at the front of the destination. -/
theorem moved_uncompress (h : s.capacities.uncompressedDirect < 2 ^ 31) (payload : Bytes) :
    wp (uncompress platform.codec payload)
      (fun n t => ∃ x d, platform.codec.rawUncompress payload = .ok x ∧ n = x.length ∧
        x.length ≤ s.capacities.uncompressedDirect ∧ t.uncompressedDirect = some d ∧
        d.contents.take n = x ∧ Moved s.capacities s.rbc.data s t) (fun _ _ => True) s := by
  simp only [uncompress, wp_bind, wp_modify]
  refine wp_access_has (fun i _ => ?_) fun _ => trivial
  refine wp_access_has (fun l hl => ?_) fun _ => trivial
  have hdirect : s.uncompressedDirect = some l := hl
  have hcapacity : s.capacities.uncompressedDirect = l.contents.length := by
    simp only [capacities, capacity, hdirect, Option.map_some, Option.getD_some]
  have hlength := Snappy.length_uncompress platform.codec payload l.contents
  cases hresult : (Snappy.uncompress platform.codec payload l.contents).1 with
  | error e => trivial
  | ok n =>
    obtain ⟨x, hx, rfl, hroom, hcontents⟩ := Snappy.uncompress_ok (hcapacity ▸ h) hresult
    refine ⟨x, _, hx, rfl, hcapacity ▸ hroom, rfl, ?_, rfl, ?_, rfl, rfl, rfl, h⟩
    · rw [Int.toNat_natCast, hcontents]
      exact take_splice_zero _ _
    · simp only [capacities, used, hdirect, capacity, Option.map_some, Option.getD_some, hlength]

/-- `uncompressFrame` once there is room for the block. -/
theorem moved_decompress (h : s.capacities.uncompressedDirect < 2 ^ 31) (payload : Bytes)
    {Q : Unit → SnappyFramedInputStream → Prop}
    (hQ : ∀ x t, platform.codec.rawUncompress payload = .ok x →
      x.length ≤ s.capacities.uncompressedDirect → Moved s.capacities s.rbc.data s t →
      Decoded x t → Q () t) :
    wp (uncompress platform.codec payload >>= fun n => do
      modify fun s => { s with valid := n }
      let d ← access SnappyFramedInputStream.uncompressedDirect
      copyToBuffer (d.contents.take n)
      modify fun s => { s with position := 0 }) Q (fun _ _ => True) s := by
  simp only [wp_bind, wp_modify]
  refine wp_mono (moved_uncompress h payload) ?_ fun _ _ _ => trivial
  rintro n t ⟨x, d, hx, rfl, hroom, hd, htake, ht⟩
  refine wp_access_has (fun d' hd' => ?_) fun _ => trivial
  obtain rfl := Option.some.inj (hd.symm.trans hd')
  have hlt : t.capacities.uncompressedDirect < 2 ^ 31 := ht.capacities_eq ▸ ht.direct_lt
  rw [htake]
  refine wp_mono (moved_copyToBuffer (by exact hlt) x) ?_ fun _ _ _ => trivial
  rintro - u ⟨hu, hvalid, -, hb⟩
  exact hQ x _ hx hroom
    ⟨hu.data_eq.trans ht.data_eq, hu.capacities_eq.trans ht.capacities_eq, hu.closed.trans ht.closed,
      hu.eof.trans ht.eof, hu.verifyChecksums.trans ht.verifyChecksums, h⟩ ⟨rfl, hvalid, hb⟩

theorem moved_uncompressFrame (hpool : platform.bufferPool.Contract)
    (h : s.capacities.uncompressedDirect < 2 ^ 31) (payload : Bytes)
    {Q : Unit → SnappyFramedInputStream → Prop}
    (hQ : ∀ x t, platform.codec.rawUncompress payload = .ok x →
      (x.length > s.capacities.uncompressedDirect →
        GrantsBlock platform.bufferPool s.allocations x.length) →
      Moved (s.capacities.forBlock platform.bufferPool x.length) s.rbc.data s t → Decoded x t →
      Q () t) : wp (uncompressFrame platform payload) Q (fun _ _ => True) s := by
  have hlength : ∀ {x n}, platform.codec.rawUncompress payload = .ok x → x.length < 2 ^ 31 →
      Snappy.uncompressedLength platform.codec payload = .ok n → n = x.length := by
    intro x n hx hlt hn
    have := Snappy.uncompressedLength_of_lt (platform.codec.length_rawUncompress _ _ hx) hlt
    exact Except.ok.inj (hn.symm.trans this)
  simp only [uncompressFrame, wp_bind]
  refine wp_access_has (fun i _ => ?_) fun _ => trivial
  cases hn : Snappy.uncompressedLength platform.codec payload with
  | error e => trivial
  | ok n =>
    have hcapacity : capacity (s.used i.id).uncompressedDirect = s.capacities.uncompressedDirect := rfl
    simp only [wp_fromExcept_ok, wp_get, wp_when, hcapacity]
    split
    · rename_i hlarge
      have hnat : n.toNat > s.capacities.uncompressedDirect := by omega
      refine wp_mono (@moved_reallocateForBlock _ (s.used i.id) hpool _ hnat) ?_ fun _ _ _ => trivial
      rintro - t ⟨hgrants, ht⟩
      have hlt : t.capacities.uncompressedDirect < 2 ^ 31 := ht.capacities_eq ▸ ht.direct_lt
      have hrest := @moved_decompress platform t hlt payload Q fun x u hx hroom hu hdec => by
        obtain rfl := hlength hx (by omega) hn
        rw [ht.data_eq, ht.capacities_eq] at hu
        exact hQ x u hx (fun _ => hgrants) (ht.trans hu).of_used hdec
      simpa only [wp_bind, wp_modify] using hrest
    · rename_i hsmall
      have hrest := @moved_decompress platform (s.used i.id) h payload Q fun x u hx hroom hu hdec => by
        have hfits : ¬ x.length > s.capacities.uncompressedDirect := Nat.not_lt.mpr hroom
        refine hQ x u hx (fun hlarge => absurd hlarge hfits) ?_ hdec
        rw [Capacities.forBlock, if_neg hfits]
        exact hu.of_used
      simpa only [wp_bind, wp_modify] using hrest

theorem moved_copyFrame (h : s.capacities.uncompressedDirect < 2 ^ 31) (payload : Bytes) :
    wp (copyFrame payload)
      (fun _ t => Moved s.capacities s.rbc.data s t ∧ Decoded payload t) (fun _ _ => True) s := by
  simp only [copyFrame, wp_bind, wp_modify]
  refine wp_access_has (fun i _ => ?_) fun _ => trivial
  refine wp_mono (moved_copyToBuffer (by exact h) payload) ?_ fun _ _ _ => trivial
  rintro - t ⟨ht, hvalid, hposition, hb⟩
  exact ⟨⟨ht.data_eq, ht.capacities_eq, ht.closed, ht.eof, ht.verifyChecksums, h⟩,
    hposition, hvalid, hb⟩

/-- What passes the check has the checksum that is stored with it. -/
theorem moved_verifyFrame (h : s.capacities.uncompressedDirect < 2 ^ 31) {x : Bytes}
    (hx : Decoded x s) (checkSum : BitVec 32) :
    wp (verifyFrame platform checkSum)
      (fun _ t => (s.verifyChecksums = true → checkSum = SnappyFramed.mask (platform.crc32c x)) ∧
        Moved s.capacities s.rbc.data s t ∧ Decoded x t) (fun _ _ => True) s := by
  obtain ⟨b, hb, htake, hfits⟩ := hx.buffer
  have hcrc : SnappyFramed.maskedCrc32c platform.crc32c b.contents 0 x.length =
      SnappyFramed.mask (platform.crc32c x) := by
    rw [SnappyFramed.maskedCrc32c, slice_zero, htake]
  have hwhole : SnappyFramed.maskedCrc32c platform.crc32c b.contents s.position
      (s.valid - s.position) = SnappyFramed.mask (platform.crc32c x) := by
    rw [hx.position, hx.valid, Nat.sub_zero, hcrc]
  simp only [verifyFrame, wp_bind, wp_get, wp_when, wp_modify, wp_throw]
  split
  · refine wp_access_has (fun b' hb' => ?_) fun _ => trivial
    obtain rfl := Option.some.inj (hb.symm.trans hb')
    rw [hwhole]
    split
    · trivial
    · rename_i heq
      exact ⟨fun _ => not_not.mp heq, ⟨rfl, rfl, rfl, rfl, rfl, h⟩, hx.position, hx.valid, b, hb, htake,
        hfits⟩
  · rename_i hv
    exact ⟨fun hv' => absurd hv' hv, ⟨rfl, rfl, rfl, rfl, rfl, h⟩, hx.position, hx.valid, b, hb, htake,
      hfits⟩

/-- What has been decoded fits the buffer it is in. -/
theorem Moved.fits (h : Moved c data s t) {x : Bytes} (hx : Decoded x t) : x.length ≤ c.buffer := by
  obtain ⟨b, hb, -, hle⟩ := hx.buffer
  rw [← h.capacities_eq]
  simp only [capacities, capacity, hb, Option.map_some, Option.getD_some]
  exact hle

theorem moved_loadFrame (hpool : platform.bufferPool.Contract)
    (h : s.capacities.uncompressedDirect < 2 ^ 31) {flag : UInt8} {compressed : Bool} {length : Nat}
    (hflag : if compressed then flag = SnappyFramed.compressedDataFlag
      else flag = SnappyFramed.uncompressedDataFlag) (h5 : 5 ≤ length)
    {Q : Unit → SnappyFramedInputStream → Prop}
    (hQ : ∀ (f : Frame) t, f.flag = flag → f.body = s.rbc.data.take length →
      length ≤ s.rbc.data.length → Clears platform s.verifyChecksums s.capacities f →
      Moved (s.capacities.next platform f) (s.rbc.data.drop length) s t →
      Decoded (f.data platform.codec) t → Q () t) :
    wp (loadFrame platform flag compressed length) Q (fun _ _ => True) s := by
  have hne : SnappyFramed.uncompressedDataFlag ≠ SnappyFramed.compressedDataFlag := by decide
  simp only [loadFrame, wp_bind, wp_modify]
  refine moved_readFrame hpool h (by omega) fun t hall hgrants ht => ?_
  have hlength : (s.rbc.data.take length).length = length := List.length_take_of_le hall
  obtain ⟨f, hf⟩ : ∃ f : Frame, f = ⟨flag, s.rbc.data.take length⟩ := ⟨_, rfl⟩
  have hbody : f.body.length = length := by rw [hf, hlength]
  have hlt : t.capacities.uncompressedDirect < 2 ^ 31 := ht.capacities_eq ▸ ht.direct_lt
  rw [← hf]
  -- what the check and the decoding leave
  have hcheck : ∀ u c', Moved c' t.rbc.data t u → Decoded (f.data platform.codec) u →
      c' = s.capacities.next platform f →
      ((s.verifyChecksums = true → f.Intact platform) → f.Admitted platform s.verifyChecksums) →
      (f.flag = SnappyFramed.compressedDataFlag →
        (f.data platform.codec).length > t.capacities.uncompressedDirect →
        GrantsBlock platform.bufferPool t.allocations (f.data platform.codec).length) →
      wp (verifyFrame platform f.checkSum) Q (fun _ _ => True) u := by
    intro u c' hu hx hc hadmitted hblock
    have hult : u.capacities.uncompressedDirect < 2 ^ 31 := hu.capacities_eq ▸ hu.direct_lt
    refine wp_mono (moved_verifyFrame hult hx f.checkSum) ?_ fun _ _ _ => trivial
    rintro - v ⟨hintact, hv, hdec⟩
    rw [hu.capacities_eq, hu.data_eq] at hv
    have hmoved : Moved (s.capacities.next platform f) (s.rbc.data.drop length) s v := by
      rw [← hc, ← ht.data_eq]
      exact ht.trans (hu.trans hv)
    refine hQ f v (by rw [hf]) (by rw [hf]) hall ⟨hadmitted ?_, ?_, ?_, hmoved.fits hdec⟩ hmoved hdec
    · rwa [hu.verifyChecksums, ht.verifyChecksums] at hintact
    · rw [hbody]
      exact fun _ => hgrants
    · rw [hbody, ← ht.capacities_eq]
      exact hblock
  cases compressed with
  | true =>
    have hcompressed : f.flag = SnappyFramed.compressedDataFlag := by rw [hf]; exact hflag
    simp only [if_true, wp_bind]
    refine moved_uncompressFrame hpool (by exact hlt) f.payload fun x u hx hblock hu hdec => ?_
    have hdata : f.data platform.codec = x := by rw [Frame.data, if_pos hcompressed, hx]
    refine hcheck u _ { hu with } (by rw [hdata]; exact hdec) ?_ (fun hintact => ?_) fun _ => ?_
    · rw [Capacities.next, if_pos hcompressed, hbody, ← ht.capacities_eq, hdata]
      rfl
    · rw [Frame.Admitted, if_pos hcompressed]
      exact ⟨by omega, ⟨x, hx⟩, hintact⟩
    · rw [hdata]
      exact hblock
  | false =>
    have hraw : f.flag = SnappyFramed.uncompressedDataFlag := by rw [hf]; exact hflag
    have hnot : ¬ f.flag = SnappyFramed.compressedDataFlag := by rw [hraw]; exact hne
    have hdata : f.data platform.codec = f.payload := by rw [Frame.data, if_neg hnot, if_pos hraw]
    simp only [Bool.false_eq_true, if_false, wp_bind]
    refine wp_mono (moved_copyFrame (by exact hlt) f.payload) ?_ fun _ _ _ => trivial
    rintro - u ⟨hu, hdec⟩
    refine hcheck u _ { hu with } (by rw [hdata]; exact hdec) ?_ (fun hintact => ?_) fun hc => ?_
    · rw [Capacities.next, if_neg hnot, if_pos hraw, hbody, ← ht.capacities_eq]
      rfl
    · rw [Frame.Admitted, if_neg hnot, if_pos hraw]
      exact ⟨by omega, hintact⟩
    · exact absurd hc hnot

/-! ## What `ensureBuffer` arrives at -/

/-- A frame that is skipped calls for nothing. -/
theorem clears_of_not_isData {f : Frame} {v : Bool} (hskip : ¬ IsData f)
    (hadmitted : f.Admitted platform v) : Clears platform v c f where
  admitted := hadmitted
  body hdata := absurd hdata hskip
  block hflag := absurd (.inl hflag) hskip
  fits := by
    rw [data_eq_nil hskip]
    exact Nat.zero_le _

theorem next_of_not_isData {f : Frame} (hskip : ¬ IsData f) : c.next platform f = c := by
  obtain ⟨hcompressed, hraw⟩ := not_or.mp hskip
  rw [Capacities.next, if_neg hcompressed, if_neg hraw]

/-- A round finds data in the buffer or loads a frame, goes past one that is skipped,
or skips all that is left. -/
theorem moved_ensureBufferRound (hpool : platform.bufferPool.Contract)
    (h : s.capacities.uncompressedDirect < 2 ^ 31) :
    wp (ensureBufferRound platform ())
      (fun r t => (r = .inr true → (0 < s.availableNow ∧ t = s) ∨
          (s.availableNow ≤ 0 ∧ s.eof = false ∧ ∃ f rest, s.rbc.data = f.encode ++ rest ∧ f.Fits ∧
            IsData f ∧ Clears platform s.verifyChecksums s.capacities f ∧
            Moved (s.capacities.next platform f) rest s t ∧ Decoded (f.data platform.codec) t)) ∧
        (r = .inl () → s.availableNow ≤ 0 ∧ s.eof = false ∧ ∃ rest, Moved s.capacities rest s t ∧
          t.valid = s.valid ∧ t.position = s.position ∧ (rest = [] ∨ ∃ g : Frame,
            s.rbc.data = g.encode ++ rest ∧ g.Fits ∧ ¬ IsData g ∧
              Clears platform s.verifyChecksums s.capacities g)))
      (fun _ _ => True) s := by
  simp only [ensureBufferRound, wp_bind, wp_get, wp_ite, wp_pure]
  split
  · rename_i hmore
    exact ⟨fun _ => .inl ⟨hmore, trivial⟩, fun hcase => (by cases hcase)⟩
  rename_i hnone
  split
  · exact ⟨fun hcase => (by cases hcase), fun hcase => (by cases hcase)⟩
  rename_i heof
  have hstart : s.availableNow ≤ 0 ∧ s.eof = false := ⟨Int.not_lt.mp hnone, by simpa using heof⟩
  refine wp_mono (moved_readBlockHeader h) ?_ fun _ _ _ => trivial
  intro header t ht
  cases header with
  | none => exact ⟨fun hcase => (by cases hcase), fun hcase => (by cases hcase)⟩
  | some frameHeader =>
    obtain ⟨h4, rfl, hmoved, hvalid, hposition⟩ := ht frameHeader rfl
    have hlt : t.capacities.uncompressedDirect < 2 ^ 31 :=
      hmoved.capacities_eq ▸ hmoved.direct_lt
    show wp (fromExcept (getFrameMetaData (s.rbc.data.take 4)) >>= _) _ _ t
    rw [wp_bind]
    cases hm : getFrameMetaData (s.rbc.data.take 4) with
    | error e => trivial
    | ok m =>
      obtain ⟨hlength, hkind⟩ := getFrameMetaData_cases hm
      simp only [wp_fromExcept_ok, wp_ite, wp_bind, wp_pure]
      split
      · rename_i hskip
        rw [hskip] at hkind
        obtain ⟨hcompressed, hraw, hadmitted⟩ := hkind
        refine wp_mono (moved_skipFrame hlt m.length) ?_ fun _ _ _ => trivial
        rintro - u ⟨hu, huvalid, huposition⟩
        rw [hmoved.data_eq, hmoved.capacities_eq] at hu
        refine ⟨fun hcase => (by cases hcase), fun _ => ⟨hstart.1, hstart.2, _, hmoved.trans hu,
          huvalid.trans hvalid, huposition.trans hposition, ?_⟩⟩
        by_cases hbody : m.length ≤ (s.rbc.data.drop 4).length
        · obtain ⟨hfront, hfits⟩ := encode_front h4 hlength hbody
          refine .inr ⟨_, hfront, hfits, not_or.mpr ⟨hcompressed, hraw⟩, ?_⟩
          refine clears_of_not_isData (not_or.mpr ⟨hcompressed, hraw⟩) ?_
          rw [Frame.Admitted, if_neg hcompressed, if_neg hraw, List.length_take_of_le hbody]
          exact hadmitted
        · exact .inl (List.drop_eq_nil_of_le (by omega))
      · rename_i hskip
        obtain ⟨hflag, h5⟩ := getFrameMetaData_flag hm hskip
        have hloads : if decide (m.frameAction = .uncompress) then
            (s.rbc.data.take 4).getD 0 0 = SnappyFramed.compressedDataFlag
            else (s.rbc.data.take 4).getD 0 0 = SnappyFramed.uncompressedDataFlag := by
          simpa only [decide_eq_true_eq] using hflag
        refine moved_loadFrame hpool hlt hloads h5 fun f u hf hbody hall hclears hu hdec => ?_
        rw [hmoved.data_eq] at hall hbody hu
        rw [hmoved.capacities_eq] at hu
        rw [hmoved.verifyChecksums, hmoved.capacities_eq] at hclears
        obtain ⟨hfront, hfits⟩ := encode_front h4 hlength hall
        obtain rfl : f = ⟨(s.rbc.data.take 4).getD 0 0, (s.rbc.data.drop 4).take m.length⟩ := by
          rw [← hf, ← hbody]
        refine ⟨fun _ => .inr ⟨hstart.1, hstart.2, _, _, hfront, hfits, ?_, hclears, hmoved.trans hu,
          hdec⟩, fun hcase => (by cases hcase)⟩
        split at hflag
        · exact .inl hflag
        · exact .inr hflag

/-- Data is found if it is there already, or if a data frame comes that the stream
gets through to. -/
theorem wp_ensureBuffer_arrives (hpool : platform.bufferPool.Contract)
    (h : s.capacities.uncompressedDirect < 2 ^ 31) :
    wp (ensureBuffer platform)
      (fun ready t => ready = true → (0 < s.availableNow ∧ t = s) ∨
        (s.availableNow ≤ 0 ∧ s.eof = false ∧ ∃ f rest,
          Arrives platform s.verifyChecksums s.capacities s.rbc.data f rest ∧
          Moved (s.capacities.next platform f) rest s t ∧ Decoded (f.data platform.codec) t))
      (fun _ _ => True) s := by
  have hloop : ∀ (n : Nat) (s : SnappyFramedInputStream), s.capacities.uncompressedDirect < 2 ^ 31 →
      wp (loop .outOfFuel (ensureBufferRound platform) n ())
        (fun ready t => ready = true → (0 < s.availableNow ∧ t = s) ∨
          (s.availableNow ≤ 0 ∧ s.eof = false ∧ ∃ f rest,
            Arrives platform s.verifyChecksums s.capacities s.rbc.data f rest ∧
            Moved (s.capacities.next platform f) rest s t ∧ Decoded (f.data platform.codec) t))
        (fun _ _ => True) s := by
    intro n
    induction n with
    | zero => exact fun _ _ => trivial
    | succ n ih =>
      intro s h
      rw [loop, wp_bind]
      refine wp_mono (moved_ensureBufferRound hpool h) ?_ fun _ _ _ => trivial
      rintro r t ⟨hready, hskipped⟩
      cases r with
      | inr ready =>
        rintro rfl
        refine (hready rfl).imp_right ?_
        rintro ⟨hdone, heof, f, rest, hdata, hfits, hflag, hclears, hmoved, hdec⟩
        exact ⟨hdone, heof, f, rest, hdata ▸ .here hfits hflag hclears, hmoved, hdec⟩
      | inl _ =>
        obtain ⟨hdone, heof, rest, hmoved, hvalid, hposition, hpast⟩ := hskipped rfl
        have hdone' : t.availableNow ≤ 0 := by
          rwa [availableNow, hmoved.closed, hvalid, hposition]
        refine wp_mono (ih t (hmoved.capacities_eq ▸ hmoved.direct_lt)) ?_ fun _ _ _ => trivial
        intro ready u hu hready
        rcases hu hready with ⟨hmore, -⟩ | ⟨-, -, f, rest', harrives, hu, hdec⟩
        · omega
        rw [hmoved.verifyChecksums, hmoved.capacities_eq, hmoved.data_eq] at harrives
        rw [hmoved.capacities_eq] at hu
        refine .inr ⟨hdone, heof, f, rest', ?_, hmoved.trans hu, hdec⟩
        rcases hpast with rfl | ⟨g, hdata, hg, hskip, hclears⟩
        · -- a frame is no empty list of bytes
          exfalso
          generalize hnil : ([] : Bytes) = data at harrives
          cases harrives <;> cases hnil
        · exact hdata ▸ .later hg hskip hclears harrives
  simp only [ensureBuffer, wp_bind, wp_get]
  exact hloop _ s h

end

/-! ## `read()` -/

/-- The first data frame that the stream gets through to has data. -/
def DataNext (platform : Platform) (verifyChecksums : Bool) : Capacities → List Frame → Prop
  | _, [] => True
  | c, f :: fs => Clears platform verifyChecksums c f →
    if IsData f then f.data platform.codec ≠ []
    else DataNext platform verifyChecksums (c.next platform f) fs

/-- There is a byte where `ensureBuffer` finds a frame. -/
def NoEmptyAhead (platform : Platform) (s : SnappyFramedInputStream) : Prop :=
  s.availableNow ≤ 0 → s.eof = false →
    DataNext platform s.verifyChecksums s.capacities (framesOf s.rbc.data)

/-! ## Transfers to a channel -/

/-- What is left of the responses of a channel when it has taken `n` bytes, if it takes
them. -/
def taken : List (Nat × Bool) → Nat → Option (List (Nat × Bool))
  | [], _ => some []
  | (_, true) :: _, _ => none
  | (accepts, false) :: responses, n =>
    if n ≤ accepts then some responses else taken responses (n - accepts)

/-- Each data frame that a transfer gets through to goes into the array of allocation
`id`, as long as the channel takes what comes before it. -/
def Stays (platform : Platform) (verifyChecksums : Bool) (id : Nat) :
    Capacities → List (Nat × Bool) → List Frame → Prop
  | _, _, [] => True
  | c, responses, f :: fs => Clears platform verifyChecksums c f →
    platform.bufferPool.object (c.next platform f).array = platform.bufferPool.object id ∧
    ∀ after, (if IsData f then taken responses (f.data platform.codec).length
      else some responses) = some after →
      Stays platform verifyChecksums id (c.next platform f) after fs

/-- So it is with the frames ahead of a stream, which come after the data that is left. -/
def StaysFrom (platform : Platform) (id : Nat) (responses : List (Nat × Bool))
    (s : SnappyFramedInputStream) : Prop :=
  s.eof = false → ∀ after,
    (if 0 < s.availableNow then taken responses s.availableNow.toNat else some responses) =
      some after →
    Stays platform s.verifyChecksums id s.capacities after (framesOf s.rbc.data)

/-- In a transfer to `wbc` the array that is the buffer at the start is the buffer
whenever data comes. -/
def KeepsArray (platform : Platform) (wbc : WritableByteChannel) (s : SnappyFramedInputStream) : Prop :=
  ∀ l, s.buffer = some l → StaysFrom platform l.id wbc.responses s

/-- Between two rounds of a transfer, with a view of the array of allocation `id`. -/
structure Follows (platform : Platform) (id : Nat)
    (p : SnappyFramedInputStream × WritableByteChannel) : Prop where
  opened : p.1.closed = false
  buffer : ∃ b, p.1.buffer = some b ∧ platform.bufferPool.object b.id = platform.bufferPool.object id
  stays : StaysFrom platform id p.2.responses p.1
  direct_lt : p.1.capacities.uncompressedDirect < 2 ^ 31

/-- In a round, when there is data. -/
structure Fronted (platform : Platform) (id : Nat) (responses : List (Nat × Bool))
    (t : SnappyFramedInputStream) : Prop where
  opened : t.closed = false
  buffer : ∃ b, t.buffer = some b ∧ platform.bufferPool.object b.id = platform.bufferPool.object id
  stays : t.eof = false → ∀ after, taken responses t.availableNow.toNat = some after →
    Stays platform t.verifyChecksums id t.capacities after (framesOf t.rbc.data)
  available : 0 ≤ t.availableNow
  direct_lt : t.capacities.uncompressedDirect < 2 ^ 31

section
variable {platform : Platform} {c : Capacities} {v : Bool} {id : Nat} {frames : List Frame}
  {responses : List (Nat × Bool)} {s t : SnappyFramedInputStream}

theorem Arrives.data_ne {data rest : Bytes} {f : Frame} (h : Arrives platform v c data f rest)
    (hnext : DataNext platform v c (framesOf data)) : f.data platform.codec ≠ [] := by
  induction h with
  | @here f rest hf hdata hclears =>
    rw [framesOf_encode hf, DataNext, if_pos hdata] at hnext
    exact hnext hclears
  | @later g f more rest hg hskip hclears _ ih =>
    rw [framesOf_encode hg, DataNext, if_neg hskip, next_of_not_isData hskip] at hnext
    exact ih (hnext hclears)

theorem Arrives.stays {data rest : Bytes} {f : Frame} (h : Arrives platform v c data f rest)
    (hstays : Stays platform v id c responses (framesOf data)) :
    platform.bufferPool.object (c.next platform f).array = platform.bufferPool.object id ∧
      ∀ after, taken responses (f.data platform.codec).length = some after →
        Stays platform v id (c.next platform f) after (framesOf rest) := by
  induction h with
  | @here f rest hf hdata hclears =>
    rw [framesOf_encode hf, Stays, if_pos hdata] at hstays
    exact hstays hclears
  | @later g f more rest hg hskip hclears _ ih =>
    rw [framesOf_encode hg, Stays, if_neg hskip, next_of_not_isData hskip] at hstays
    exact ih ((hstays hclears).2 responses rfl)

/-- `read()` gets a byte. -/
theorem wp_ensureBuffer_byte (hpool : platform.bufferPool.Contract)
    (h : s.capacities.uncompressedDirect < 2 ^ 31) (hopen : s.closed = false)
    (hnext : NoEmptyAhead platform s) :
    wp (ensureBuffer platform) (fun ready t => ready = true → 0 < t.availableNow)
      (fun _ _ => True) s := by
  refine wp_mono (wp_ensureBuffer_arrives hpool h) ?_ fun _ _ _ => trivial
  intro ready t ht hready
  rcases ht hready with ⟨hmore, rfl⟩ | ⟨hdone, heof, f, rest, harrives, hmoved, hdec⟩
  · exact hmore
  · have hne := List.length_pos_iff.mpr (harrives.data_ne (hnext hdone heof))
    rw [availableNow_eq (hmoved.closed.trans hopen), hdec.position, hdec.valid]
    omega

theorem Follows.wp_ensureBuffer (hpool : platform.bufferPool.Contract)
    {p : SnappyFramedInputStream × WritableByteChannel} (h : Follows platform id p) :
    wp (ensureBuffer platform) (fun ready t => ready = true → Fronted platform id p.2.responses t)
      (fun _ _ => True) p.1 := by
  refine wp_mono (wp_ensureBuffer_arrives hpool h.direct_lt) ?_ fun _ _ _ => trivial
  intro ready t ht hready
  rcases ht hready with ⟨hmore, rfl⟩ | ⟨hdone, heof, f, rest, harrives, hmoved, hdec⟩
  · have hstays := h.stays
    rw [StaysFrom, if_pos hmore] at hstays
    exact ⟨h.opened, h.buffer, hstays, Int.le_of_lt hmore, h.direct_lt⟩
  · have hstays := h.stays heof p.2.responses (if_neg (Int.not_lt.mpr hdone))
    obtain ⟨hobject, hrest⟩ := harrives.stays hstays
    obtain ⟨b, hb, -⟩ := hdec.buffer
    have hopen : t.closed = false := hmoved.closed.trans h.opened
    have havailable : t.availableNow = (f.data platform.codec).length := by
      rw [availableNow_eq hopen, hdec.position, hdec.valid]
      omega
    refine ⟨hopen, ⟨b, hb, ?_⟩, fun _ after hafter => ?_, by omega,
      hmoved.capacities_eq ▸ hmoved.direct_lt⟩
    · rw [← hobject, ← hmoved.capacities_eq]
      simp only [capacities, hb, Option.map_some, Option.getD_some]
    · rw [havailable, Int.toNat_natCast] at hafter
      rw [hmoved.verifyChecksums, hmoved.capacities_eq, hmoved.data_eq]
      exact hrest after hafter

/-- After a part of the data has been written. -/
theorem Fronted.follows (h : Fronted platform id responses t) {n : Nat}
    (hn : n = min (responses.head?.getD (t.availableNow.toNat, false)).1 t.availableNow.toNat)
    (hok : (responses.head?.getD (t.availableNow.toNat, false)).2 = false)
    (events : List Leases.Event) (deliveries : List Delivery) {w : WritableByteChannel}
    (hw : w.responses = responses.tail) :
    Follows platform id ({ t with
      position := t.position + n, poolEvents := events, deliveries := deliveries }, w) := by
  refine ⟨h.opened, h.buffer, fun heof after hafter => h.stays heof after ?_, h.direct_lt⟩
  have hpos := h.available
  rw [hw] at hafter
  rw [availableNow_eq h.opened] at hpos hn hok ⊢
  rw [availableNow_eq (by exact h.opened)] at hafter
  simp only at hafter
  cases responses with
  | nil =>
    rw [List.head?_nil, Option.getD_none, min_self] at hn
    rw [if_neg (by omega)] at hafter
    exact hafter
  | cons r rs =>
    obtain ⟨accepts, fails⟩ := r
    rw [List.head?_cons, Option.getD_some] at hn hok
    obtain rfl : fails = false := hok
    simp only [List.tail_cons] at hafter hn
    rw [taken]
    split
    · rwa [if_neg (by omega)] at hafter
    · rw [if_pos (by omega)] at hafter
      rw [← hafter]
      congr 1
      omega

/-- A round that goes on keeps to the view. -/
theorem Follows.wp_round (hpool : platform.bufferPool.Contract) {total : Nat}
    {p : SnappyFramedInputStream × WritableByteChannel} (h : Follows platform id p) :
    wp (transferToChannelRound platform id total)
      (fun r q => Sum.elim (fun _ => Follows platform id q) (fun _ => True) r) (fun _ _ => True) p := by
  obtain ⟨s, w⟩ := p
  refine wp_channelRound (wp_mono (h.wp_ensureBuffer hpool) ?_ fun _ _ _ => trivial)
  intro ready t ht
  split
  · rename_i hready
    have hfronted := ht hready
    refine ⟨fun _ _ => trivial, fun bb hview => ?_⟩
    obtain ⟨-, hposition, hlimit⟩ := ByteBuffer.view_ok hfronted.available hview
    have hremaining : bb.remaining = t.availableNow.toNat := by
      rw [ByteBuffer.remaining, hlimit, hposition, Nat.add_sub_cancel_left]
    apply WritableByteChannel.wp_write_part
    · intro n hn hdef hok
      rw [hremaining] at hdef hok
      have hwritten : (bb.take n hn).position - t.position = n := by
        show bb.position + n - t.position = n
        rw [hposition, Nat.add_sub_cancel_left]
      rw [hwritten]
      exact hfronted.follows hdef hok _ _ rfl
    · exact fun _ _ _ _ => trivial
  · trivial

/-- Every round that a transfer gets to. -/
theorem Follows.of_rounds (hpool : platform.bufferPool.Contract) {p : SnappyFramedInputStream ×
    WritableByteChannel} (h : Follows platform id p) {total total' : Nat}
    {q : SnappyFramedInputStream × WritableByteChannel}
    (hr : Rounds (transferToChannelRound platform id) total p total' q) : Follows platform id q :=
  Rounds.invariant (I := fun _ => Follows platform id) (fun _ _ hp => hp.wp_round hpool) h hr

theorem KeepsArray.follows {wbc : WritableByteChannel} (h : KeepsArray platform wbc s)
    (hopen : s.closed = false) (hlt : s.capacities.uncompressedDirect < 2 ^ 31) {l : Lease}
    (hl : s.buffer = some l) : Follows platform l.id (s, wbc) := ⟨hopen, ⟨l, hl, rfl⟩, h l hl, hlt⟩

theorem direct_lt_of_room (h : ∀ l, s.uncompressedDirect = some l → l.contents.length < 2 ^ 31) :
    s.capacities.uncompressedDirect < 2 ^ 31 := by
  simp only [capacities, capacity]
  cases hd : s.uncompressedDirect with
  | none => decide
  | some l => exact h l hd

theorem Measured.direct_lt (h : Measured s) : s.capacities.uncompressedDirect < 2 ^ 31 :=
  direct_lt_of_room h.room

/-! ## The constructor -/

/-- What it leaves has the buffers of the start, and what stands behind the header. -/
theorem moved_init (hpool : platform.bufferPool.Contract) (rbc : Source) (v : Bool) :
    wp (init platform)
      (fun _ t => Moved (.initial platform.bufferPool) (rbc.data.drop 10) (initial rbc v) t ∧
        t.valid = 0 ∧ t.position = 0)
      (fun _ _ => True) (initial rbc v) := by
  have hplace : OfProgress fun t => t.valid = 0 ∧ t.position = 0 := fun t u hst ht =>
    ⟨hst.valid.trans ht.1, hst.position.trans ht.2⟩
  have hstart := @OfProgress.allocateBuffersBasedOnSize platform _ hplace (maxBlockSize + 5)
    (initial rbc v) ⟨rfl, rfl⟩
  rw [init, wp_bind]
  refine wp_mono (wp_and (moved_allocateBuffersBasedOnSize hpool _) hstart) ?_ fun _ _ _ => trivial
  rintro - t ⟨⟨-, ht⟩, hvalid, hposition⟩
  have hremaining : (ByteBuffer.wrap (newArray SnappyFramed.headerBytes.length)).remaining = 10 := by
    rw [ByteBuffer.remaining_wrap, length_newArray]
    rfl
  simp only [onRbc, wp_bind, wp_zoom, wp_ite, wp_throw, wp_pure]
  refine SnappyFramed.wp_readBytes (by rw [hremaining]; decide) fun r hr _ _ => ?_
  rw [hremaining] at hr
  split
  · trivial
  split
  · trivial
  · exact ⟨⟨by rw [hr, ht.data_eq]; rfl, ht.capacities_eq, ht.closed, ht.eof, ht.verifyChecksums,
      ht.direct_lt⟩, hvalid, hposition⟩

/-! ## Small frames -/

theorem next_of_le {f : Frame} (hbody : f.body.length ≤ c.input)
    (hdata : (f.data platform.codec).length ≤ c.uncompressedDirect) : c.next platform f = c := by
  simp only [Capacities.next, Capacities.forBody, Capacities.forBlock, if_neg (Nat.not_lt.mpr hbody),
    if_neg (Nat.not_lt.mpr hdata)]
  split
  · rfl
  · split <;> rfl

/-- Frames that fit the buffers there are leave the array where it is. -/
theorem Stays.of_le (harray : platform.bufferPool.object c.array = platform.bufferPool.object id)
    (hfits : ∀ f ∈ frames, f.body.length ≤ c.input ∧
      (f.data platform.codec).length ≤ c.uncompressedDirect) : Stays platform v id c responses frames := by
  induction frames generalizing responses with
  | nil => trivial
  | cons f fs ih =>
    obtain ⟨hbody, hdata⟩ := hfits f List.mem_cons_self
    intro _
    rw [next_of_le hbody hdata]
    exact ⟨harray, fun after _ => ih fun g hg => hfits g (List.mem_cons_of_mem _ hg)⟩

theorem KeepsArray.of_le {wbc : WritableByteChannel}
    (hfits : ∀ f ∈ framesOf s.rbc.data, f.body.length ≤ s.capacities.input ∧
      (f.data platform.codec).length ≤ s.capacities.uncompressedDirect) : KeepsArray platform wbc s := by
  intro l hl _ after _
  refine Stays.of_le ?_ hfits
  simp only [capacities, hl, Option.map_some, Option.getD_some]

/-- Frames that all have data. -/
theorem DataNext.of_ne (hne : ∀ f ∈ frames, IsData f → f.data platform.codec ≠ []) :
    DataNext platform v c frames := by
  induction frames generalizing c with
  | nil => trivial
  | cons f fs ih =>
    intro _
    split
    · rename_i hdata
      exact hne f List.mem_cons_self hdata
    · exact ih fun g hg => hne g (List.mem_cons_of_mem _ hg)

end

theorem small_samples {f : Frame} (hf : f ∈ Frame.samples) :
    f.body.length ≤ 16 ∧ (f.data literalPlatform.codec).length ≤ 16 := by
  revert f
  decide +kernel

/-- The sample frames stay in the array that the constructor has got. -/
theorem wp_init_samples {platform : Platform} (hpool : platform.bufferPool.Contract) {rbc : Source}
    {v : Bool} {rest : Bytes} (hdata : rbc.data.drop 10 = Frame.samples.flatMap Frame.encode ++ rest)
    (hrest : framesOf rest = []) (hcodec : platform.codec = literalPlatform.codec)
    (hinput : (Capacities.initial platform.bufferPool).input = 65541)
    (hdirect : (Capacities.initial platform.bufferPool).uncompressedDirect = 76496) :
    wp (init platform) (fun _ t => ∀ wbc, KeepsArray platform wbc t) (fun _ _ => True)
      (initial rbc v) := by
  refine wp_mono (moved_init hpool rbc v) ?_ fun _ _ _ => trivial
  rintro - t ⟨ht, -, -⟩ wbc
  refine KeepsArray.of_le fun f hf => ?_
  rw [ht.data_eq, hdata, framesOf_flatMap fun f hf => (Frame.samples_spec hf).1, hrest,
    List.append_nil] at hf
  obtain ⟨hbody, hlength⟩ := small_samples hf
  rw [ht.capacities_eq, hinput, hdirect, hcodec]
  exact ⟨by omega, by omega⟩

end SnappyFramedInputStream
end SnappyJava
