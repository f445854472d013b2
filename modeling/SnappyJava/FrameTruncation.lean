import SnappyJava.FramePools

/-! A stream of frames that is cut off: which cuts a `SnappyFramedInputStream`
reports, and which it takes for the end of the stream. -/

namespace SnappyJava.SnappyFramedInputStream

open Exec Memory Reading Words

/-! ## Reading up to whatever is behind the frames -/

section
variable {platform : Platform} {c : Capacities} {v : Bool} {frames : List Frame}
  {rest : Bytes} {s : SnappyFramedInputStream}

/-- The bulk methods take from the decoded frame, and from nothing else. -/
theorem wp_takeAvailable_ahead (h : Ahead platform c v frames rest s) {room : Nat}
    {Q : Bytes → SnappyFramedInputStream → Prop} {E : Throwable → SnappyFramedInputStream → Prop}
    (hQ : ∀ t xs, xs.length ≤ room → (xs.length : Int) ≤ max 0 s.availableNow →
      Ahead platform c v frames rest t → Q xs t) :
    wp (takeAvailable room) Q E s := by
  obtain ⟨b, hb, hlen⟩ := h.room.buffer
  have hp := h.position_le
  have hv := h.valid_le
  have hav := availableNow_eq h.opened
  simp only [takeAvailable, wp_bind, wp_get, wp_ite, wp_throw]
  apply wp_access hb
  intro events
  rw [if_neg (by omega)]
  simp only [deliver, advance, wp_modify, wp_pure]
  have hsl : (slice b.contents s.position (min (room : Int) s.availableNow).toNat).length =
      (min (room : Int) s.availableNow).toNat := length_slice _ (by omega)
  refine hQ _ _ (by omega) (by omega) { h with position_le := ?_, room := { h.room with } }
  simp only
  omega

/-- Where what is behind the frames ends every reading call with an exception, no
reading call reports the end. -/
theorem wp_perform_ahead (hpool : platform.bufferPool.Reliable)
    (h : Ahead platform c v frames rest s) {call : ReadCall} (hr : call.Reads)
    {E : Throwable → SnappyFramedInputStream → Prop}
    (hRest : ∀ t m c', Ahead platform c' v [] rest t → t.valid ≤ t.position → t.rbc.size < m →
      wp (loop .outOfFuel (ensureBufferRound platform) m ()) (fun _ _ => False) E t) :
    wp (perform platform call)
      (fun a t => a.ended = false ∧ ∃ c' fs, Ahead platform c' v fs rest t) E s := by
  have hrest : ∀ {Q : Bool → SnappyFramedInputStream → Prop} t m c',
      Ahead platform c' v [] rest t → t.valid ≤ t.position → t.rbc.size < m →
      wp (loop .outOfFuel (ensureBufferRound platform) m ()) Q E t :=
    fun t m c' ht hdone hm => wp_mono (hRest t m c' ht hdone hm) (fun _ _ h => h.elim) (fun _ _ h => h)
  cases call with
  | readByte =>
    simp only [perform, readByte, wp_bind, wp_get, wp_ite, wp_pure, h.opened, Bool.false_eq_true,
      if_false]
    apply wp_ensureBuffer_ahead hpool h
    · intro t c' fs ht _ _ hlt _
      obtain ⟨b, hb, hlen⟩ := ht.room.buffer
      have hget : b.contents[t.position]? = some b.contents[t.position] :=
        List.getElem?_eq_getElem (by omega)
      simp only [if_true, advance, wp_modify]
      apply wp_access hb
      intro events
      simp only [hget, deliver, wp_bind, wp_modify, wp_pure]
      rw [if_neg (by omega)]
      exact ⟨rfl, c', fs, { ht with position_le := hlt, room := { ht.room with } }⟩
    · exact fun t m _ ht hdone hm => hrest t m _ ht hdone hm
  | read output offset length =>
    obtain ⟨⟨hoff, hlen, hend, -⟩, hsize⟩ := hr
    simp only [perform, read, wp_bind, wp_get, wp_ite, wp_throw, wp_pure, h.opened,
      Bool.false_eq_true, if_false]
    rw [wrap32_of_range (by omega) (by omega), if_neg (by omega)]
    split
    · exact ⟨rfl, c, frames, h⟩
    apply wp_ensureBuffer_ahead hpool h
    · intro t c' fs ht _ _ _ _
      simp only [if_true]
      rw [if_neg (by omega)]
      apply wp_takeAvailable_ahead ht
      intro u xs _ _ hu
      refine ⟨?_, c', fs, hu⟩
      simp only [decide_eq_false_iff_not]
      omega
    · exact fun t m _ ht hdone hm => hrest t m _ ht hdone hm
  | readBuffer dst =>
    simp only [perform, readBuffer, wp_bind, wp_get, wp_ite, wp_throw, wp_pure, h.opened,
      Bool.false_eq_true, if_false]
    split
    · exact ⟨rfl, c, frames, h⟩
    apply wp_ensureBuffer_ahead hpool h
    · intro t c' fs ht _ _ _ _
      simp only [if_true]
      apply wp_takeAvailable_ahead ht
      intro u xs hxs _ hu
      have hput : dst.put xs = .ok (dst.store xs hxs) := by rw [ByteBuffer.put, dif_pos]
      simp only [hput, wp_fromExcept_ok]
      refine ⟨?_, c', fs, hu⟩
      simp only [decide_eq_false_iff_not]
      omega
    · exact fun t m _ ht hdone hm => hrest t m _ ht hdone hm
  | available =>
    simp only [perform, wp_bind, wp_get, wp_pure]
    exact ⟨trivial, c, frames, h⟩
  | transferToStream os => exact hr.elim
  | transferToChannel wbc => exact hr.elim
  | close sourceFails => exact hr.elim

/-- Nor does any run of reading calls. -/
theorem wp_runAll_ahead (hpool : platform.bufferPool.Reliable)
    (h : Ahead platform c v frames rest s) {calls : List ReadCall} (hr : ∀ o ∈ calls, o.Reads)
    {E : Throwable → SnappyFramedInputStream → Prop}
    (hRest : ∀ t m c', Ahead platform c' v [] rest t → t.valid ≤ t.position → t.rbc.size < m →
      wp (loop .outOfFuel (ensureBufferRound platform) m ()) (fun _ _ => False) E t) :
    wp (runAll (perform platform) calls) (fun answers _ => ∀ a ∈ answers, a.ended = false) E s := by
  induction calls generalizing c frames s with
  | nil => simp [runAll]
  | cons o os ih =>
    simp only [runAll, wp_bind, wp_pure]
    refine wp_mono (wp_perform_ahead hpool h (hr o (by simp)) hRest) ?_ (fun _ _ h => h)
    rintro a t ⟨ha, c', fs, ht⟩
    refine wp_mono (ih ht fun o ho => hr o (by simp [ho])) ?_ (fun _ _ h => h)
    intro as u has
    simpa [ha] using has

/-! ## A frame that is cut off -/

/-- A good data frame has room for a checksum and a byte. -/
theorem five_le_of_good {f : Frame} (hflag : IsData f) (hgood : f.Good platform) :
    5 ≤ f.body.length := by
  rcases hflag with hc | hu
  · rw [Frame.Good, if_pos hc] at hgood
    exact hgood.1
  · have hne : SnappyFramed.uncompressedDataFlag ≠ SnappyFramed.compressedDataFlag := by decide
    rw [Frame.Good, hu, if_neg hne, if_pos rfl] at hgood
    exact hgood.1

/-- A cut inside a frame is noticed, but for one inside the body of a frame that
is skipped. -/
theorem wp_ensureLoop_cut (hpool : platform.bufferPool.Reliable) {f : Frame}
    (hf : f.Fits) {j : Nat} (hj : 0 < j) (hlt : j < f.encode.length)
    (h : Ahead platform c v [] (f.encode.take j) s) (hdone : s.valid ≤ s.position) {m : Nat}
    (hm : s.rbc.size < m) {Q : Bool → SnappyFramedInputStream → Prop}
    {E : Throwable → SnappyFramedInputStream → Prop}
    (hQ : ∀ t, ¬ IsData f → 4 ≤ j → Q false t)
    (hE : ∀ t message, IsData f ∨ j < 4 → E (.eofException message) t)
    (hBad : ∀ t message, ¬ f.Good platform → E (.ioException message) t) :
    wp (loop .outOfFuel (ensureBufferRound platform) m ()) Q E s := by
  have h4 := Frame.length_header f
  have hlen : (f.encode.take j).length = j := by rw [List.length_take]; omega
  have hsize : j ≤ s.rbc.size := by
    rw [Source.size, h.data_eq, List.flatMap_nil, List.nil_append, hlen]
    omega
  have heof : s.eof = false := by
    cases heof : s.eof with
    | false => rfl
    | true =>
      rw [(h.finished heof).2, List.length_nil] at hlen
      omega
  have hpoised := h.poised heof
  rw [List.flatMap_nil, List.nil_append] at hpoised
  obtain ⟨k, rfl⟩ : ∃ k, m = k + 1 := ⟨m - 1, by omega⟩
  rw [loop, wp_bind]
  have hdlen : s.rbc.data.length = j := by rw [hpoised.data_eq, hlen]
  have hbody : 4 ≤ j → s.rbc.data = f.header ++ f.body.take (j - 4) := by
    intro hge
    rw [hpoised.data_eq, Frame.encode, List.take_append, h4, List.take_of_length_le (by omega)]
  simp only [ensureBufferRound, wp_bind, wp_get, wp_ite, wp_pure, availableNow_eq h.opened, heof,
    Bool.false_eq_true, if_false]
  rw [if_neg (by omega)]
  apply wp_readBlockHeader h.positive
  case hEnd =>
    intro _ hnil
    rw [hnil, List.length_nil] at hdlen
    omega
  case hShort => exact fun t _ hcut => hE t _ (.inr (by omega))
  intro r hge hr hpr hfr
  have hcut := hbody (by omega)
  have htake : s.rbc.data.take 4 = f.header := by rw [hcut, ← h4, List.take_left]
  have hr' : r.data = f.body.take (j - 4) := by rw [hr, hcut, ← h4, List.drop_left]
  have hblen : (f.body.take (j - 4)).length < f.body.length := by
    rw [Frame.encode, List.length_append, h4] at hlt
    rw [List.length_take]
    omega
  have hp : Poised c v s.rbc.fragments.length (f.body.take (j - 4))
      { s with rbc := r, headerSource := some s.rbc } :=
    ⟨hr', hpr, hfr, h.opened, heof, h.verify, { h.room with }⟩
  have hhead : f.header.getD 0 0 = f.flag := rfl
  simp only [htake, hhead, wp_bind]
  by_cases hflag : IsData f
  · by_cases h5 : f.body.length < 5
    · obtain ⟨message, hm⟩ := getFrameMetaData_short hf hflag h5
      simp only [hm, wp_fromExcept_error]
      exact hBad _ _ fun hgood => absurd (five_le_of_good hflag hgood) (by omega)
    -- the body of a data frame is read whole or not at all
    have hload : ∀ b (P : Unit → SnappyFramedInputStream → Prop),
        wp (loadFrame platform f.flag b f.body.length) P E
          { s with rbc := r, headerSource := some s.rbc } := by
      intro b P
      simp only [loadFrame, wp_bind]
      apply wp_readFrame hpool hp (by omega) hf
      · intro _ hle
        omega
      · exact fun t _ => hE t _ (.inl hflag)
    rcases hflag with hc | hu
    · simp only [getFrameMetaData_compressed hf hc (by omega), wp_fromExcept_ok, wp_ite, wp_bind,
        wp_pure, reduceCtorEq, if_false]
      exact hload _ _
    · simp only [getFrameMetaData_raw hf hu (by omega), wp_fromExcept_ok, wp_ite, wp_bind,
        wp_pure, reduceCtorEq, if_false]
      exact hload _ _
  by_cases hgood : f.Good platform
  · simp only [getFrameMetaData_skip hf hflag hgood, wp_fromExcept_ok, wp_ite, if_true, wp_bind,
      wp_pure]
    apply wp_skipFrame hp
    intro t ht hvalid hpos
    rw [List.drop_eq_nil_of_le (Nat.le_of_lt hblen)] at ht
    have hat : Ahead platform c v [] [] t :=
      ⟨ht.data_eq, ht.positive, by simp, trivial, ht.opened, ht.verify, ht.room,
        by rw [hpos]; exact h.position_le, by rw [hvalid]; exact h.valid_le, by simp⟩
    apply wp_ensureLoop_end hat (by rw [hpos, hvalid]; exact hdone) (by omega)
    exact fun u _ _ _ => hQ u hflag (by omega)
  · obtain ⟨message, hm⟩ := getFrameMetaData_bad hf hflag hgood
    simp only [hm, wp_fromExcept_error]
    exact hBad _ _ hgood

end

/-! ## Cuts -/

/-- The first `n` bytes end where a frame ends, or the identifier. -/
def AtBoundary (frames : List Frame) (n : Nat) : Prop :=
  ∃ k, k ≤ frames.length ∧ (Frame.stream (frames.take k)).length = n

instance (frames : List Frame) (n : Nat) : Decidable (AtBoundary frames n) :=
  inferInstanceAs (Decidable (∃ k, k ≤ frames.length ∧ _))

/-- The first `n` bytes end inside the body of a frame that is skipped, or just
before it. -/
def CutInSkipped (frames : List Frame) (n : Nat) : Prop :=
  ∃ pre f post, frames = pre ++ f :: post ∧ ¬ IsData f ∧ (Frame.stream pre).length + 4 ≤ n ∧
    n < (Frame.stream pre).length + f.encode.length

/-- A cut that is not at a boundary is inside a frame. -/
private theorem exists_cut {frames : List Frame} {k : Nat} (hk : k < (frames.flatMap Frame.encode).length)
    (hb : ∀ pre post, frames = pre ++ post → k ≠ (pre.flatMap Frame.encode).length) :
    ∃ pre f post j, frames = pre ++ f :: post ∧ k = (pre.flatMap Frame.encode).length + j ∧ 0 < j ∧
      j < f.encode.length := by
  induction frames generalizing k with
  | nil => simp at hk
  | cons f fs ih =>
    by_cases hf : k < f.encode.length
    · refine ⟨[], f, fs, k, rfl, by simp, ?_, hf⟩
      have := hb [] (f :: fs) rfl
      simp at this
      omega
    · rw [List.flatMap_cons, List.length_append] at hk
      obtain ⟨pre, g, post, j, rfl, hj, hpos, hlt⟩ := @ih (k - f.encode.length) (by omega) (by
        intro pre post hfs h
        refine hb (f :: pre) post (by rw [hfs]; rfl) ?_
        rw [List.flatMap_cons, List.length_append]
        omega)
      refine ⟨f :: pre, g, post, j, rfl, ?_, hpos, hlt⟩
      rw [List.flatMap_cons, List.length_append]
      omega

/-- What is left of a stream that is cut inside a frame. -/
theorem take_stream {pre post : List Frame} {f : Frame} {j : Nat} (hj : j < f.encode.length) :
    (Frame.stream (pre ++ f :: post)).take ((Frame.stream pre).length + j) =
      SnappyFramed.headerBytes ++ (pre.flatMap Frame.encode ++ f.encode.take j) := by
  have hsplit : Frame.stream (pre ++ f :: post) =
      Frame.stream pre ++ (f.encode ++ post.flatMap Frame.encode) := by
    simp [Frame.stream, List.flatMap_append]
  rw [hsplit, List.take_length_add_append, List.take_append_of_le_length (by omega), Frame.stream,
    List.append_assoc]

section
variable {platform : Platform} {v : Bool} {frames : List Frame} {rbc : Source} {n : Nat}

/-- Draining ends with an `EOFException`, and no run of reading calls reports the
end. -/
def Noticed (platform : Platform) (rbc : Source) (v : Bool) : Prop :=
  (∃ message transferred, drain platform rbc v = (.error (.eofException message), transferred)) ∧
  ∀ s, new platform rbc v = .ok s → ∀ calls : List ReadCall, (∀ o ∈ calls, o.Reads) →
    wp (runAll (perform platform) calls) (fun answers _ => ∀ a ∈ answers, a.ended = false)
      (fun e _ => ∃ message, e = .eofException message) s

/-- Too short for the stream identifier. -/
theorem noticed_of_short (hpool : platform.bufferPool.Reliable) (hp : rbc.Positive)
    (hlt : rbc.data.length < 10) : Noticed platform rbc v := by
  have hne : rbc.data.take 10 ≠ SnappyFramed.headerBytes := by
    intro h
    have := congrArg List.length h
    have h10 : SnappyFramed.headerBytes.length = 10 := rfl
    rw [List.length_take, h10] at this
    omega
  have hnew := @new_error platform v rbc hpool hp hne
  rw [if_pos hlt] at hnew
  refine ⟨⟨_, [], drain_of_error hnew⟩, fun s hs => ?_⟩
  rw [hs] at hnew
  cases hnew

/-- A cut inside a frame of an accepted stream. -/
theorem noticed_or_skipped (hpool : platform.bufferPool.Reliable) (hp : rbc.Positive)
    {pre : List Frame} {f : Frame} {j : Nat}
    (hdata : rbc.data =
      SnappyFramed.headerBytes ++ (pre.flatMap Frame.encode ++ f.encode.take j))
    (hacc : ∀ g ∈ pre, Accepted platform g) (hf : Accepted platform f)
    (hroomy : (Capacities.initial platform.bufferPool).Roomy platform pre) (hj : 0 < j)
    (hlt : j < f.encode.length) :
    if ¬ IsData f ∧ 4 ≤ j then
      drain platform rbc v = (.ok (contents platform.codec pre).length, contents platform.codec pre)
    else Noticed platform rbc v := by
  split
  · rename_i hskip
    refine @drain_frames platform v pre (f.encode.take j) rbc hpool hp hdata hacc hroomy
      (fun r => r = (.ok _, _)) ?_
    intro t m ht hdone hm
    apply wp_ensureLoop_cut hpool hf.fits hj hlt ht hdone hm
    · exact fun _ _ _ => ⟨rfl, rfl⟩
    · rintro _ _ (hdata' | hj')
      · exact absurd hdata' hskip.1
      · omega
    · exact fun _ _ hbad => absurd hf.good hbad
  · rename_i hno
    have hcut : IsData f ∨ j < 4 := by
      by_cases h : IsData f
      · exact .inl h
      · exact .inr (Nat.lt_of_not_le fun h4 => hno ⟨h, h4⟩)
    constructor
    · refine @drain_frames platform v pre (f.encode.take j) rbc hpool hp hdata hacc hroomy
        (fun r => ∃ message transferred, r = (.error (.eofException message), transferred)) ?_
      intro t m ht hdone hm
      apply wp_ensureLoop_cut hpool hf.fits hj hlt ht hdone hm
      · rintro _ h h4
        exact absurd ⟨h, h4⟩ hno
      · exact fun _ message _ => ⟨message, _, rfl⟩
      · exact fun _ _ hbad => absurd hf.good hbad
    · intro s hs calls hcalls
      obtain ⟨s', hs', ha, -⟩ := @new_ahead platform v rbc hpool hp pre _ hdata hacc hroomy
      obtain rfl : s' = s := by
        rw [hs'] at hs
        exact Except.ok.inj hs
      apply wp_runAll_ahead hpool ha hcalls
      intro t m c' ht hdone hm
      apply wp_ensureLoop_cut hpool hf.fits hj hlt ht hdone hm
      · rintro _ h h4
        exact absurd ⟨h, h4⟩ hno
      · exact fun _ message _ => ⟨message, rfl⟩
      · exact fun _ _ hbad => absurd hf.good hbad

/-- A proper prefix of a stream of accepted frames that does not end at a frame
boundary is noticed to be one, unless it is cut inside a frame that is skipped. -/
theorem noticed_iff_not_cutInSkipped (hpool : platform.bufferPool.Reliable) (hp : rbc.Positive)
    (hacc : ∀ f ∈ frames, Accepted platform f)
    (hroomy : (Capacities.initial platform.bufferPool).Roomy platform frames)
    (hn : n < (Frame.stream frames).length) (hb : ¬ AtBoundary frames n)
    (hdata : rbc.data = (Frame.stream frames).take n) :
    Noticed platform rbc v ↔ ¬ CutInSkipped frames n := by
  have h10 : SnappyFramed.headerBytes.length = 10 := rfl
  have hlen : ∀ fs : List Frame, (Frame.stream fs).length = 10 + (fs.flatMap Frame.encode).length :=
    fun fs => by rw [Frame.stream, List.length_append, h10]
  constructor
  · rintro ⟨⟨message, transferred, he⟩, -⟩ ⟨pre, f, post, rfl, hskip, hge, hlt⟩
    obtain ⟨j, rfl⟩ : ∃ j, n = (Frame.stream pre).length + j :=
      ⟨n - (Frame.stream pre).length, by omega⟩
    rw [take_stream (by omega)] at hdata
    have hcut := @noticed_or_skipped platform v rbc hpool hp pre f j hdata
      (fun g hg => hacc g (by simp [hg])) (hacc f (by simp))
      (Capacities.roomy_append.mp hroomy).1 (by omega) (by omega)
    rw [if_pos ⟨hskip, by omega⟩, he] at hcut
    cases hcut
  · intro hno
    by_cases hshort : n < 10
    · exact noticed_of_short hpool hp (by rw [hdata, List.length_take]; omega)
    rw [hlen] at hn
    obtain ⟨pre, f, post, j, rfl, hj, hpos, hlt⟩ := @exists_cut frames (n - 10) (by omega) (by
      intro pre post hpre h
      refine hb ⟨pre.length, by rw [hpre, List.length_append]; omega, ?_⟩
      rw [hpre, List.take_left, hlen]
      omega)
    obtain rfl : n = (Frame.stream pre).length + j := by
      rw [hlen]
      omega
    rw [take_stream hlt] at hdata
    have hcut := @noticed_or_skipped platform v rbc hpool hp pre f j hdata
      (fun g hg => hacc g (by simp [hg])) (hacc f (by simp))
      (Capacities.roomy_append.mp hroomy).1 hpos hlt
    rwa [if_neg (fun h => hno ⟨pre, f, post, rfl, h.1, by omega, by omega⟩)] at hcut

end

theorem noticed_iff_not_cutInSkipped_samples :
    Noticed literalPlatform ⟨(Frame.stream Frame.samples).take 12, [1, 2]⟩ true ↔
      ¬ CutInSkipped Frame.samples 12 := by
  have hpool := QuiescentBufferPool.builtIn
  refine @noticed_iff_not_cutInSkipped literalPlatform true Frame.samples _ 12 hpool.reliable
    (by decide) (fun f hf => ?_) ?_ (by decide) (by decide) rfl
  · obtain ⟨hfits, hgood, hshort⟩ := Frame.samples_spec hf
    exact ⟨hfits, hgood, hshort⟩
  · exact Capacities.roomy_of_builtIn hpool fun f hf =>
      ⟨(Frame.samples_spec hf).1, (Frame.samples_spec hf).2.2⟩

/-- One of two padding bytes is missing, and the stream ends as if it were
complete. -/
theorem cut_in_padding_unnoticed :
    let padding : Frame := ⟨0x80, [0, 0]⟩
    15 < (Frame.stream [padding]).length ∧ ¬ AtBoundary [padding] 15 ∧ padding.Good literalPlatform ∧
      drain literalPlatform ⟨(Frame.stream [padding]).take 15, []⟩ true = (.ok 0, []) ∧
      ¬ Noticed literalPlatform ⟨(Frame.stream [padding]).take 15, []⟩ true := by
  intro padding
  obtain ⟨hfits, hgood, hshort⟩ := @Frame.samples_spec padding (by simp [padding, Frame.samples])
  have hdrain := @noticed_or_skipped literalPlatform true ⟨(Frame.stream [padding]).take 15, []⟩
    QuiescentBufferPool.builtIn.reliable (by decide) [] padding 5 (by decide) (by simp)
    ⟨hfits, hgood, hshort⟩ trivial (by decide) (by decide)
  rw [if_pos (by decide)] at hdrain
  refine ⟨by decide, by decide, hgood, hdrain, ?_⟩
  rintro ⟨⟨message, transferred, he⟩, -⟩
  rw [hdrain] at he
  cases he

end SnappyJava.SnappyFramedInputStream
