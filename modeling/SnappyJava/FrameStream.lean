import SnappyJava.FramedReader

/-! What a `SnappyFramedInputStream` still holds at every moment of reading a
stream of frames: the rest of the frame it has decoded, the data of the good
frames ahead, and behind them anything at all. -/

namespace SnappyJava.SnappyFramedInputStream

open Exec Memory Reading Words

/-- The decoded bytes not yet delivered. -/
def undelivered (s : SnappyFramedInputStream) : Bytes :=
  slice ((s.buffer.map Lease.contents).getD []) s.position (s.valid - s.position)

/-- The data of all frames. -/
def contents (codec : Codec) (frames : List Frame) : Bytes := frames.flatMap (Frame.data codec)

@[simp] theorem contents_nil (codec : Codec) : contents codec [] = [] := rfl

@[simp] theorem contents_cons (codec : Codec) (f : Frame) (fs : List Frame) :
    contents codec (f :: fs) = f.data codec ++ contents codec fs := rfl

theorem contents_append (codec : Codec) (fs gs : List Frame) :
    contents codec (fs ++ gs) = contents codec fs ++ contents codec gs :=
  List.flatMap_append

/-- A frame that the reader accepts and whose data it can hold. -/
structure Accepted (platform : Platform) (f : Frame) : Prop where
  fits : f.Fits
  good : f.Good platform
  short : (f.data platform.codec).length < 2 ^ 31

/-- The Java code sees the length that an accepted block declares. -/
theorem Accepted.declared_lt {platform : Platform} {f : Frame} (h : Accepted platform f)
    (hflag : f.flag = SnappyFramed.compressedDataFlag) {n : Nat}
    (hn : platform.codec.getUncompressedLength f.payload = some n) : n < 2 ^ 31 := by
  have hgood := h.good
  rw [Frame.Good, if_pos hflag] at hgood
  obtain ⟨-, ⟨x, hx⟩, -⟩ := hgood
  have hlen := platform.codec.length_rawUncompress _ _ hx
  have hshort := h.short
  rw [hn] at hlen
  simp only [Frame.data, if_pos hflag, hx] at hshort
  have := Option.some.inj hlen
  omega

/-- `frames` are still ahead in the channel, and then `rest`. -/
structure Ahead (platform : Platform) (c : Capacities) (v : Bool) (frames : List Frame)
    (rest : Bytes) (s : SnappyFramedInputStream) : Prop where
  data_eq : s.rbc.data = frames.flatMap Frame.encode ++ rest
  positive : s.rbc.Positive
  accepted : ∀ f ∈ frames, Accepted platform f
  roomy : c.Roomy platform frames
  opened : s.closed = false
  verify : s.verifyChecksums = v
  room : Room c s
  position_le : s.position ≤ c.buffer
  valid_le : s.valid ≤ c.buffer
  finished : s.eof = true → frames = [] ∧ rest = []

section
variable {platform : Platform} {c : Capacities} {v : Bool} {frames : List Frame}
  {rest data : Bytes} {s : SnappyFramedInputStream}

theorem Ahead.length_undelivered (h : Ahead platform c v frames rest s) :
    (undelivered s).length = s.valid - s.position := by
  obtain ⟨b, hb, hlen⟩ := h.room.buffer
  have h₁ := h.position_le
  have h₂ := h.valid_le
  simp only [undelivered, hb, Option.map_some, Option.getD_some]
  exact length_slice _ (by omega)

theorem undelivered_eq_nil (h : s.valid ≤ s.position) : undelivered s = [] := by
  simp [undelivered, Nat.sub_eq_zero_of_le h]

theorem Decoded.undelivered_eq {x : Bytes} (h : Decoded x s) : undelivered s = x := by
  obtain ⟨b, hb, htake, -⟩ := h.buffer
  simp [undelivered, h.position, h.valid, hb, htake]

theorem Ahead.poised (h : Ahead platform c v frames rest s) (heof : s.eof = false) :
    Poised c v s.rbc.fragments.length (frames.flatMap Frame.encode ++ rest) s :=
  ⟨h.data_eq, h.positive, Nat.le_refl _, h.opened, heof, h.verify, h.room⟩

theorem data_eq_nil {f : Frame} (h : ¬ IsData f) : f.data platform.codec = [] := by
  obtain ⟨h0, h1⟩ := not_or.mp h
  rw [Frame.data, if_neg h0, if_neg h1]

/-- `ensureBuffer` goes from frame to frame until one carries data or none is
left; then it goes on with `rest`. -/
theorem wp_ensureLoop (hpool : platform.bufferPool.Reliable)
    {Q : Bool → SnappyFramedInputStream → Prop} {E : Throwable → SnappyFramedInputStream → Prop}
    (h : Ahead platform c v frames rest s) (hdone : s.valid ≤ s.position) {n : Nat}
    (hn : s.rbc.size < n)
    (hLoad : ∀ t f fs c', f ∈ frames → (∀ g ∈ fs, g ∈ frames) →
      contents platform.codec frames = f.data platform.codec ++ contents platform.codec fs →
      c'.after platform fs = c.after platform frames →
      IsData f → Ahead platform c' v fs rest t → Decoded (f.data platform.codec) t →
      t.rbc.size < s.rbc.size → Q true t)
    (hRest : ∀ t m, contents platform.codec frames = [] →
      Ahead platform (c.after platform frames) v [] rest t → t.valid = s.valid →
      t.position = s.position → t.rbc.size ≤ s.rbc.size → t.rbc.size < m →
      wp (loop .outOfFuel (ensureBufferRound platform) m ()) Q E t) :
    wp (loop .outOfFuel (ensureBufferRound platform) n ()) Q E s := by
  induction frames generalizing c s n with
  | nil => exact hRest s n rfl h rfl rfl (Nat.le_refl _) hn
  | cons f fs ih =>
    obtain ⟨m, rfl⟩ : ∃ m, n = m + 1 := ⟨n - 1, by omega⟩
    have hf := h.accepted f (by simp)
    have heof : s.eof = false := by
      cases heof : s.eof with
      | false => rfl
      | true => cases (h.finished heof).1
    have hpoised := h.poised heof
    rw [List.flatMap_cons, List.append_assoc] at hpoised
    have hacc : ∀ g ∈ fs, Accepted platform g := fun g hg => h.accepted g (by simp [hg])
    have hless : ∀ t c', Poised c' v s.rbc.fragments.length
        (fs.flatMap Frame.encode ++ rest) t → t.rbc.size < s.rbc.size := by
      intro t c' ht
      have := ht.fragments_le
      simp only [Source.size, ht.data_eq, h.data_eq, List.flatMap_cons, Frame.encode,
        List.length_append, Frame.length_header]
      omega
    rw [loop, wp_bind]
    apply wp_ensureBufferRound hpool hf.fits hpoised hdone
    · intro t _ hskip ht hvalid hpos
      have hnext : c.next platform f = c := by
        obtain ⟨h0, h1⟩ := not_or.mp hskip
        rw [Capacities.next, if_neg h0, if_neg h1]
      have hroomy := h.roomy.2
      rw [hnext] at hroomy
      have hlt := hless t c ht
      have hnil := @data_eq_nil platform f hskip
      have hafter : c.after platform (f :: fs) = c.after platform fs := by
        rw [Capacities.after, List.foldl_cons, hnext]
        rfl
      refine ih ⟨ht.data_eq, ht.positive, hacc, hroomy, ht.opened, ht.verify, ht.room, ?_, ?_, ?_⟩
        (by omega) (by omega) ?_ ?_
      · rw [hpos]
        exact h.position_le
      · rw [hvalid]
        exact h.valid_le
      · simp [ht.live]
      · intro u g gs c' hg hgs hdata hc' hload hu hdec hlt'
        refine hLoad u g gs c' (by simp [hg]) (fun x hx => by simp [hgs x hx]) ?_ (by rw [hc', hafter])
          hload hu hdec (by omega)
        rw [contents_cons, hnil, List.nil_append, hdata]
      · intro u m' hdata hu hvalid' hpos' hle hm'
        refine hRest u m' ?_ (hafter ▸ hu) (hvalid'.trans hvalid) (hpos'.trans hpos) (by omega) hm'
        rw [contents_cons, hnil, List.nil_append, hdata]
    · intro t _ hload hfit ht hdec
      refine hLoad t f fs _ (by simp) (fun g hg => by simp [hg]) rfl rfl hload
        ⟨ht.data_eq, ht.positive, hacc, h.roomy.2, ht.opened, ht.verify, ht.room, ?_, ?_, ?_⟩ hdec
        (hless t _ ht)
      · rw [hdec.position]
        omega
      · rw [hdec.valid]
        exact hfit
      · simp [ht.live]
    · intro t hover
      have := h.roomy.1
      omega
    · intro t d hflag hd hlong
      have := hf.declared_lt hflag hd
      omega
    · exact fun t m hbad => absurd hf.good hbad

/-- At the end of the channel `ensureBuffer` finds nothing. -/
theorem wp_ensureLoop_end (h : Ahead platform c v [] [] s) (hdone : s.valid ≤ s.position) {n : Nat}
    (hn : 0 < n) {Q : Bool → SnappyFramedInputStream → Prop}
    {E : Throwable → SnappyFramedInputStream → Prop}
    (hQ : ∀ t, Ahead platform c v [] [] t → t.valid = s.valid → t.position = s.position →
      Q false t) :
    wp (loop .outOfFuel (ensureBufferRound platform) n ()) Q E s := by
  obtain ⟨m, rfl⟩ : ∃ m, n = m + 1 := ⟨n - 1, by omega⟩
  rw [loop, wp_bind]
  cases heof : s.eof with
  | true =>
    simp only [ensureBufferRound, wp_bind, wp_get, wp_ite, wp_pure, availableNow_eq h.opened, heof,
      if_true]
    rw [if_neg (by omega)]
    exact hQ s h rfl rfl
  | false =>
    apply wp_ensureBufferRound_end (h.poised heof) hdone
    intro r hr hpr
    exact hQ _ { h with data_eq := hr, positive := hpr, room := { h.room with }
                        finished := fun _ => ⟨rfl, rfl⟩ } rfl rfl

end

/-- The stream still holds `data`, and behind it `rest`. Each data frame ahead
has something to deliver. -/
def Holds (platform : Platform) (v : Bool) (rest data : Bytes) (s : SnappyFramedInputStream) :
    Prop :=
  s.position ≤ s.valid ∧ ∃ c frames, (∀ f ∈ frames, IsData f → f.data platform.codec ≠ []) ∧
    Ahead platform c v frames rest s ∧ data = undelivered s ++ contents platform.codec frames

section
variable {platform : Platform} {v : Bool} {rest data : Bytes} {s : SnappyFramedInputStream}

/-- `ensureBuffer` finds a byte wherever there is one. -/
theorem wp_ensureBuffer (hpool : platform.bufferPool.Reliable) (h : Holds platform v rest data s)
    {Q : Bool → SnappyFramedInputStream → Prop} {E : Throwable → SnappyFramedInputStream → Prop}
    (hReady : ∀ t, Holds platform v rest data t → t.position < t.valid → Q true t)
    (hRest : ∀ t m c, data = [] → Ahead platform c v [] rest t → t.valid = t.position →
      t.rbc.size < m → wp (loop .outOfFuel (ensureBufferRound platform) m ()) Q E t) :
    wp (ensureBuffer platform) Q E s := by
  obtain ⟨hle, c, frames, hne, ha, hdata⟩ := h
  simp only [ensureBuffer, wp_bind, wp_get]
  by_cases hmore : s.position < s.valid
  · simp only [loop, ensureBufferRound, wp_bind, wp_get, wp_ite, wp_pure, availableNow_eq ha.opened]
    rw [if_pos (by omega)]
    exact hReady s ⟨hle, c, frames, hne, ha, hdata⟩ hmore
  rw [undelivered_eq_nil (by omega), List.nil_append] at hdata
  apply wp_ensureLoop hpool ha (by omega) (Nat.lt_succ_self _)
  · intro t f fs c' hf hfs hcont _ hload ht hdec _
    refine hReady t ⟨?_, c', fs, fun g hg => hne g (hfs g hg), ht, ?_⟩ ?_
    · rw [hdec.position]
      omega
    · rw [hdec.undelivered_eq, hdata, hcont]
    · rw [hdec.position, hdec.valid]
      exact List.length_pos_iff.mpr (hne f hf hload)
  · intro t m hnil ht hvalid hpos _ hm
    exact hRest t m _ (by rw [hdata, hnil]) ht (by omega) hm

theorem Holds.of_end {c : Capacities} (h : Ahead platform c v [] [] s) (hdone : s.valid = s.position) :
    Holds platform v [] [] s :=
  ⟨Nat.le_of_eq hdone.symm, c, [], by simp, h,
    by simp [undelivered_eq_nil (Nat.le_of_eq hdone)]⟩

/-- Before the first frame is read. -/
theorem Ahead.holds {c : Capacities} {frames : List Frame} (h : Ahead platform c v frames rest s)
    (hdone : s.valid = s.position) (hne : ∀ f ∈ frames, IsData f → f.data platform.codec ≠ []) :
    Holds platform v rest (contents platform.codec frames) s :=
  ⟨Nat.le_of_eq hdone.symm, c, frames, hne, h,
    by rw [undelivered_eq_nil (Nat.le_of_eq hdone), List.nil_append]⟩

/-- The bytes of the frame that was read last come first. -/
theorem Holds.available_le (h : Holds platform v rest data s) : s.valid - s.position ≤ data.length := by
  obtain ⟨-, c, frames, -, ha, rfl⟩ := h
  rw [List.length_append, ha.length_undelivered]
  omega

theorem Holds.opened (h : Holds platform v rest data s) : s.closed = false := by
  obtain ⟨-, c, frames, -, ha, -⟩ := h
  exact ha.opened

theorem Holds.position_le (h : Holds platform v rest data s) : s.position ≤ s.valid := h.1

/-- Delivering a part of what has been decoded. -/
theorem Holds.deliver (h : Holds platform v rest data s) {n : Nat} (hn : n ≤ s.valid - s.position) :
    ∃ b, s.buffer = some b ∧ s.position + n ≤ b.contents.length ∧
      slice b.contents s.position n = data.take n ∧
      ∀ events deliveries, Holds platform v rest (data.drop n)
        { s with position := s.position + n, poolEvents := events, deliveries := deliveries } := by
  obtain ⟨hp, c, frames, hne, ha, rfl⟩ := h
  obtain ⟨b, hb, hlen⟩ := ha.room.buffer
  have hv := ha.valid_le
  have hund : undelivered s = slice b.contents s.position (s.valid - s.position) := by
    simp [undelivered, hb]
  have hsplit := slice_append b.contents s.position n (s.valid - s.position - n)
  rw [Nat.add_sub_of_le hn] at hsplit
  have hnl : (slice b.contents s.position n).length = n := length_slice _ (by omega)
  refine ⟨b, hb, by omega, ?_, ?_⟩
  · rw [hund, ← hsplit, List.append_assoc, List.take_left' hnl]
  · intro events deliveries
    refine ⟨?_, c, frames, hne, { ha with position_le := ?_, room := { ha.room with } }, ?_⟩
    · simp only
      omega
    · simp only
      omega
    · rw [hund, ← hsplit, List.append_assoc, List.drop_left' hnl]
      simp [undelivered, hb, Nat.sub_add_eq]

/-- `ensureBuffer` where the good frames are the whole stream, or not yet used up. -/
theorem wp_ensureBuffer_of_good (hpool : platform.bufferPool.Reliable)
    (h : Holds platform v rest data s) (hmore : data = [] → rest = [])
    {Q : Bool → SnappyFramedInputStream → Prop} {E : Throwable → SnappyFramedInputStream → Prop}
    (hReady : ∀ t, Holds platform v rest data t → t.position < t.valid → Q true t)
    (hEnd : ∀ t, data = [] → Holds platform v rest [] t → Q false t) :
    wp (ensureBuffer platform) Q E s := by
  apply wp_ensureBuffer hpool h hReady
  intro t m c hnil ht hdone hm
  obtain rfl := hmore hnil
  apply wp_ensureLoop_end ht (Nat.le_of_eq hdone) (by omega)
  intro u hu hvalid hpos
  exact hEnd u hnil (.of_end hu (by omega))

/-- `read()` delivers the next byte, or -1 at the end. -/
theorem wp_readByte (hpool : platform.bufferPool.Reliable) (h : Holds platform v rest data s)
    (hmore : data = [] → rest = []) {Q : Int → SnappyFramedInputStream → Prop}
    {E : Throwable → SnappyFramedInputStream → Prop}
    (hEnd : ∀ t, data = [] → Holds platform v rest [] t → Q (-1) t)
    (hByte : ∀ t x tail, data = x :: tail → Holds platform v rest tail t → Q x.toNat t) :
    wp (readByte platform) Q E s := by
  simp only [readByte, wp_bind, wp_get, wp_ite, wp_pure, h.opened, Bool.false_eq_true, if_false]
  apply wp_ensureBuffer_of_good hpool h hmore
  · intro t ht hlt
    obtain ⟨b, hb, hlen, hdel, hrest⟩ := @Holds.deliver _ _ _ _ _ ht 1 (by omega)
    simp only [if_true, advance, wp_modify]
    apply wp_access hb
    intro events
    have hget : b.contents[t.position]? = some b.contents[t.position] :=
      List.getElem?_eq_getElem (by omega)
    have hone : slice b.contents t.position 1 = [b.contents[t.position]] := by
      rw [slice, List.drop_eq_getElem_cons (by omega)]
      rfl
    rw [hone] at hdel
    simp only [hget, deliver, wp_bind, wp_modify, wp_pure]
    refine hByte _ _ (data.drop 1) ?_ (hrest _ _)
    rw [← List.singleton_append, hdel, List.take_append_drop]
  · intro t hnil ht
    simp only [Bool.false_eq_true, if_false]
    exact hEnd t hnil ht

/-- The bulk methods hand out what is left of the frame, as far as there is room. -/
theorem wp_takeAvailable (h : Holds platform v rest data s) {room : Nat}
    {Q : Bytes → SnappyFramedInputStream → Prop} {E : Throwable → SnappyFramedInputStream → Prop}
    (hQ : ∀ t n, n = min room (s.valid - s.position) → Holds platform v rest (data.drop n) t →
      Q (data.take n) t) :
    wp (takeAvailable room) Q E s := by
  have hp := h.position_le
  have hsize : (min (room : Int) s.availableNow).toNat = min room (s.valid - s.position) := by
    rw [availableNow_eq h.opened]
    omega
  obtain ⟨b, hb, hlen, hdel, hrest⟩ := @Holds.deliver _ _ _ _ _ h
    (min room (s.valid - s.position)) (by omega)
  simp only [takeAvailable, wp_bind, wp_get, hsize, wp_ite, wp_throw]
  apply wp_access hb
  intro events
  rw [if_neg (by omega)]
  simp only [deliver, advance, wp_modify, wp_pure, hdel]
  exact hQ _ _ rfl (hrest _ _)

/-- `read(byte[], int, int)` with a range inside the array. -/
theorem wp_read (hpool : platform.bufferPool.Reliable) (h : Holds platform v rest data s)
    (hmore : data = [] → rest = []) {output : Bytes} {offset length : Int}
    (hok : RangeOk output offset length) (hsize : output.length < 2 ^ 31)
    {Q : Int × Bytes → SnappyFramedInputStream → Prop}
    {E : Throwable → SnappyFramedInputStream → Prop}
    (hEnd : ∀ t, 0 < length → data = [] → Holds platform v rest [] t → Q (-1, output) t)
    (hTake : ∀ t n, n ≤ length.toNat → n ≤ data.length → (0 < length → 0 < n) →
      Holds platform v rest (data.drop n) t →
      Q (n, splice output offset.toNat (data.take n)) t) :
    wp (read platform output offset length) Q E s := by
  obtain ⟨hoff, hlen, hend, -⟩ := hok
  simp only [read, wp_bind, wp_get, wp_ite, wp_throw, wp_pure, h.opened, Bool.false_eq_true, if_false]
  rw [wrap32_of_range (by omega) (by omega), if_neg (by omega)]
  split
  · have := hTake s 0 (by omega) (by omega) (by omega) (by simpa using h)
    simpa using this
  rename_i hne
  apply wp_ensureBuffer_of_good hpool h hmore
  · intro t ht hlt
    have hav := availableNow_eq ht.opened
    have hav' := ht.available_le
    simp only [if_true, hav]
    rw [if_neg (by omega)]
    apply wp_takeAvailable ht
    intro u n hn hu
    have htake : (data.take n).length = n := by simp; omega
    simp only [htake]
    exact hTake u n (by omega) (by omega) (by omega) hu
  · intro t hnil ht
    simp only [Bool.false_eq_true, if_false]
    exact hEnd t (by omega) hnil ht

/-- `read(ByteBuffer)`. -/
theorem wp_readBuffer (hpool : platform.bufferPool.Reliable) (h : Holds platform v rest data s)
    (hmore : data = [] → rest = []) {dst : ByteBuffer}
    {Q : Int × ByteBuffer → SnappyFramedInputStream → Prop}
    {E : Throwable → SnappyFramedInputStream → Prop}
    (hEnd : ∀ t, 0 < dst.remaining → data = [] → Holds platform v rest [] t → Q (-1, dst) t)
    (hTake : ∀ t n (hn : (data.take n).length ≤ dst.remaining), n ≤ data.length →
      (0 < dst.remaining → 0 < n) → Holds platform v rest (data.drop n) t →
      Q (n, dst.store (data.take n) hn) t) :
    wp (readBuffer platform dst) Q E s := by
  simp only [readBuffer, wp_bind, wp_get, wp_ite, wp_throw, wp_pure, h.opened, Bool.false_eq_true,
    if_false]
  split
  · have := hTake s 0 (by simp) (by omega) (by omega) (by simpa using h)
    have hstore : dst.store (data.take 0) (by simp) = dst :=
      ByteBuffer.ext (splice_nil dst.array dst.position) rfl rfl
    rw [hstore] at this
    exact this
  rename_i hne
  apply wp_ensureBuffer_of_good hpool h hmore
  · intro t ht hlt
    have hav := ht.available_le
    simp only [if_true]
    apply wp_takeAvailable ht
    intro u n hn hu
    have htake : (data.take n).length = n := by simp; omega
    have hput : dst.put (data.take n) = .ok (dst.store (data.take n) (by omega)) := by
      rw [ByteBuffer.put, dif_pos]
    simp only [hput, wp_fromExcept_ok, htake]
    exact hTake u n (by omega) (by omega) (by omega) hu
  · intro t hnil ht
    simp only [Bool.false_eq_true, if_false]
    exact hEnd t (by omega) hnil ht

end

/-! ## Reading by any calls -/

namespace ReadCall

/-- One of the four methods that read piece by piece, with a range inside the array. -/
def Reads : ReadCall → Prop
  | .readByte => True
  | .read output offset length => RangeOk output offset length ∧ output.length < 2 ^ 31
  | .readBuffer _ => True
  | .available => True
  | _ => False

instance : DecidablePred Reads
  | .readByte => inferInstanceAs (Decidable True)
  | .read _ _ _ => inferInstanceAs (Decidable (_ ∧ _))
  | .readBuffer _ => inferInstanceAs (Decidable True)
  | .transferToStream _ => inferInstanceAs (Decidable False)
  | .transferToChannel _ => inferInstanceAs (Decidable False)
  | .available => inferInstanceAs (Decidable True)
  | .close _ => inferInstanceAs (Decidable False)

end ReadCall

section
variable {platform : Platform} {v : Bool} {rest data : Bytes} {s : SnappyFramedInputStream}

theorem serves_end {demands : Bool} (h : demands = true) :
    Serves ([] : Bytes) ⟨demands, [], true, 0⟩ :=
  ⟨List.nil_prefix, by simp [h], fun _ h => absurd rfl h, by simp, by simp⟩

theorem serves_take {demands : Bool} {n : Nat} (hn : n ≤ data.length)
    (hpos : demands = true → 0 < n) : Serves data ⟨demands, data.take n, false, 0⟩ := by
  refine ⟨List.take_prefix _ _, ?_, ?_, by simp, by simp⟩
  · simp only [Bool.false_eq_true, false_iff, not_and]
    rintro hd rfl
    have := hpos hd
    simp at hn
    omega
  · intro hd _ hnil
    have := hpos hd
    have := congrArg List.length hnil
    rw [List.length_take, List.length_nil] at this
    omega

/-- Every call serves what the stream holds. -/
theorem wp_perform (hpool : platform.bufferPool.Reliable) (h : Holds platform v rest data s)
    (hmore : data = [] → rest = []) {call : ReadCall} (hr : call.Reads) :
    wp (perform platform call)
      (fun a t => Serves data a ∧ Holds platform v rest (data.drop a.given.length) t)
      (fun _ _ => False) s := by
  cases call with
  | readByte =>
    simp only [perform, wp_bind, wp_pure]
    apply wp_readByte hpool h hmore
    · rintro t rfl ht
      exact ⟨serves_end rfl, by simpa using ht⟩
    · rintro t x tail rfl ht
      have hne : (x.toNat : Int) ≠ -1 := by omega
      rw [if_neg hne, toByte_toNat]
      exact ⟨@serves_take (x :: tail) true 1 (by simp) (by simp), by simpa using ht⟩
  | read output offset length =>
    obtain ⟨hok, hsize⟩ := hr
    have hoff := hok.1
    have hlen := hok.2.1
    have hend := hok.2.2.1
    simp only [perform, wp_bind, wp_pure]
    apply wp_read hpool h hmore hok hsize
    · rintro t hpos rfl ht
      have hnil : (-1 : Int).toNat = 0 := rfl
      simp only [decide_true, hnil, slice_self_zero]
      exact ⟨serves_end (by simpa using hpos), by simpa using ht⟩
    · intro t n hn hnd hpos ht
      have htake : (data.take n).length = n := by simp; omega
      have hsl := @slice_splice _ output (data.take n) offset.toNat (by omega)
      rw [htake] at hsl
      have hne : ((n : Int) = -1) = False := by simp
      simp only [hne, decide_false, Int.toNat_natCast, hsl]
      refine ⟨serves_take hnd (by simpa using hpos), ?_⟩
      rw [htake]
      exact ht
  | readBuffer dst =>
    simp only [perform, wp_bind, wp_pure]
    apply wp_readBuffer hpool h hmore
    · rintro t hpos rfl ht
      have hnil : (-1 : Int).toNat = 0 := rfl
      simp only [decide_true, hnil, slice_self_zero]
      exact ⟨serves_end (by simpa using hpos), by simpa using ht⟩
    · intro t n hn hnd hpos ht
      have htake : (data.take n).length = n := by simp; omega
      have hle := dst.position_le
      have hle' := dst.limit_le
      have hsl := @slice_splice _ dst.array (data.take n) dst.position (by omega)
      rw [htake] at hsl
      have hne : ((n : Int) = -1) = False := by simp
      simp only [hne, decide_false, Int.toNat_natCast, ByteBuffer.store, hsl]
      refine ⟨serves_take hnd (by simpa using hpos), ?_⟩
      rw [htake]
      exact ht
  | available =>
    have hav := h.available_le
    have hp := h.position_le
    simp only [perform, wp_bind, wp_get, wp_pure, availableNow_eq h.opened]
    exact ⟨⟨List.nil_prefix, by simp, by simp, by simp only; omega, by simp only; omega⟩,
      by simpa using h⟩
  | transferToStream os => exact hr.elim
  | transferToChannel wbc => exact hr.elim
  | close sourceFails => exact hr.elim

end

end SnappyJava.SnappyFramedInputStream
