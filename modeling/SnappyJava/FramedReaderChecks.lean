import SnappyJava.FrameTimingRuns
import SnappyJava.FramedReaderSafety
import SnappyJava.FramedReaderLeases

/-! The checksums of a `SnappyFramedInputStream`: which bytes are handed out, over
whole runs, where some frames fail their check and the calls go on. -/

namespace SnappyJava.SnappyFramedInputStream

open Exec Memory Words

/-! ## The data in the buffer -/

/-- Every byte is one of the frame that had been read last, and the checksum of
that frame is right. -/
def Genuine (platform : Platform) (d : Delivery) : Prop :=
  ∀ i x, d.bytes[i]? = some x → ∃ f, d.frame = some f ∧ f.Intact platform ∧
    (f.data platform.codec)[d.position + i]? = some x

/-- `buffer` holds the data of the frame that was read last, whose checksum is
right. -/
def Showing (platform : Platform) (s : SnappyFramedInputStream) : Prop :=
  ∃ f b, s.frames.getLast? = some f ∧ f.Intact platform ∧ s.buffer = some b ∧
    b.contents.take s.valid = f.data platform.codec

/-- Checksums are verified, and what has been handed out is genuine. -/
structure Logged (platform : Platform) (s : SnappyFramedInputStream) : Prop where
  verifying : s.verifyChecksums = true
  genuine : ∀ d ∈ s.deliveries, Genuine platform d

/-- What is left in the buffer may be handed out. -/
structure Sound (platform : Platform) (s : SnappyFramedInputStream) : Prop extends
    Logged platform s where
  measured : Measured s
  opened : s.closed = false
  vouched : s.valid ≤ s.position ∨ Showing platform s

/-- What a call leaves: what is in the buffer may be handed out if the last frame
has passed its check. -/
structure Checked (platform : Platform) (s : SnappyFramedInputStream) : Prop extends
    Logged platform s where
  measured : Measured s
  vouched : s.verified = true → s.closed = true ∨ s.valid ≤ s.position ∨ Showing platform s

/-- Nothing is left in the buffer. -/
structure Spent (platform : Platform) (s : SnappyFramedInputStream) : Prop extends
    Logged platform s where
  opened : s.closed = false
  done : s.valid ≤ s.position

/-- The frame `f` has been read, and has not passed its check yet. -/
structure Loading (platform : Platform) (f : Frame) (s : SnappyFramedInputStream) : Prop extends
    Logged platform s where
  opened : s.closed = false
  last : s.frames.getLast? = some f
  unverified : s.verified = false

section
variable {platform : Platform} {s t : SnappyFramedInputStream} {f : Frame}

theorem Logged.progress (h : Logged platform s) (hst : SameProgress s t) : Logged platform t :=
  ⟨by rw [hst.verifyChecksums, h.verifying], by rw [hst.deliveries]; exact h.genuine⟩

theorem ofProgress_spent (platform : Platform) : OfProgress (Spent platform) := fun _ _ hst h =>
  { h.toLogged.progress hst with
    opened := by rw [hst.closed, h.opened]
    done := by rw [hst.valid, hst.position]; exact h.done }

theorem ofProgress_loading : OfProgress (Loading platform f) := fun _ _ hst h =>
  { h.toLogged.progress hst with
    opened := by rw [hst.closed, h.opened]
    last := by rw [hst.frames, h.last]
    unverified := by rw [hst.verified, h.unverified] }

theorem Sound.checked (h : Sound platform s) : Checked platform s :=
  { h with vouched := fun _ => .inr h.vouched }

theorem Spent.sound (h : Spent platform s) (hm : Measured s) : Sound platform s :=
  { h with measured := hm, vouched := .inl h.done }

theorem Loading.checked (h : Loading platform f s) (hm : Measured s) : Checked platform s :=
  { h with
    measured := hm
    vouched := fun hv => by
      rw [h.unverified] at hv
      cases hv }

/-! ## Loading a frame -/

/-- A frame that passes its check is shown by the buffer. -/
theorem wp_verifyFrame_sound (h : Loading platform f s) (hm : Measured s)
    (hx : Decoded (f.data platform.codec) s) :
    wp (verifyFrame platform f.checkSum) (fun _ => Sound platform) (fun _ => Checked platform) s := by
  obtain ⟨b, hb, htake, -⟩ := hx.buffer
  have hcrc : SnappyFramed.maskedCrc32c platform.crc32c b.contents 0 (f.data platform.codec).length =
      SnappyFramed.mask (platform.crc32c (f.data platform.codec)) := by
    rw [SnappyFramed.maskedCrc32c, slice_zero, htake]
  simp only [verifyFrame, wp_bind, wp_get, wp_when, wp_modify, wp_throw, h.verifying, if_true]
  refine wp_access_has (fun b' hb' => ?_) (fun _ => h.checked hm)
  obtain rfl := Option.some.inj (hb.symm.trans hb')
  have hused : Loading platform f (s.used b.id) :=
    ofProgress_loading s _ ⟨rfl, rfl, rfl, rfl, rfl, rfl, rfl⟩ h
  have hmused : Measured (s.used b.id) := hm.frame rfl rfl
  rw [hx.position, hx.valid, Nat.sub_zero, hcrc]
  split
  · exact hused.checked hmused
  · rename_i heq
    refine { hused with
      measured := hm.frame rfl rfl
      vouched := .inr ⟨f, b, h.last, not_not.mp heq, hb, ?_⟩ }
    show b.contents.take s.valid = f.data platform.codec
    rw [hx.valid, htake]

/-- A data frame comes into the buffer checked, or not at all. -/
theorem wp_loadFrame_sound (hpool : platform.bufferPool.Contract) {flag : UInt8} {compressed : Bool}
    {length : Nat} (hflag : if compressed then flag = SnappyFramed.compressedDataFlag
      else flag = SnappyFramed.uncompressedDataFlag) (h : Spent platform s) (hm : Measured s) :
    wp (loadFrame platform flag compressed length) (fun _ => Sound platform)
      (fun _ => Checked platform) s := by
  have hplace : ∀ (g : Frame) v n k, Loading platform g v →
      Loading platform g { v with valid := n, position := k } := fun g v n k hv =>
    { hv with last := hv.last }
  have hdecode : ∀ (f : Frame) u, f.flag = flag → Loading platform f u → Measured u →
      wp (do
        if compressed then uncompressFrame platform f.payload else copyFrame f.payload
        verifyFrame platform f.checkSum) (fun _ => Sound platform) (fun _ => Checked platform) u := by
    intro f u hf hu hmu
    cases compressed with
    | true =>
      simp only [if_true, wp_bind]
      have hkeeps := (ofProgress_loading.uncompressFrame (hplace f) f.payload).and
        (keeps_uncompressFrame hpool f.payload)
      have hdecoded : wp (uncompressFrame platform f.payload) (fun _ v => ∃ x,
          platform.codec.rawUncompress f.payload = .ok x ∧ Decoded x v) (fun _ _ => True) u :=
        moved_uncompressFrame hpool hmu.direct_lt f.payload fun x v hx _ _ hdec => ⟨x, hx, hdec⟩
      refine wp_mono (wp_and (hkeeps u ⟨hu, hmu⟩) hdecoded) ?_
        (fun _ v hv => hv.1.1.checked hv.1.2)
      rintro - v ⟨⟨hv, hmv⟩, x, hx, hdec⟩
      refine wp_verifyFrame_sound hv hmv ?_
      rwa [Frame.data, if_pos (hf.trans hflag), hx]
    | false =>
      simp only [Bool.false_eq_true, if_false, wp_bind]
      have hkeeps := (ofProgress_loading.copyFrame (hplace f) f.payload).and
        (handling_measured.copyFrame f.payload)
      refine wp_mono (wp_and (hkeeps u ⟨hu, hmu⟩) (moved_copyFrame hmu.direct_lt f.payload)) ?_
        (fun _ v hv => hv.1.1.checked hv.1.2)
      rintro - v ⟨⟨hv, hmv⟩, -, hdec⟩
      have hraw : f.flag = SnappyFramed.uncompressedDataFlag := hf.trans hflag
      refine wp_verifyFrame_sound hv hmv ?_
      rwa [Frame.data, if_neg (by rw [hraw]; decide), if_pos hraw]
  have hread := ((ofProgress_spent platform).readFrame length).and
    ((upkeep_measured hpool).readFrame length)
  rw [loadFrame, wp_bind]
  refine wp_mono (hread s ⟨h, hm⟩) ?_ (fun _ t ht => (ht.1.sound ht.2).checked)
  rintro body t ⟨ht, hmt⟩
  refine hdecode ⟨flag, body⟩ _ rfl { ht with last := ?_, unverified := rfl } (hmt.frame rfl rfl)
  exact List.getLast?_concat ..

theorem upholds_ensureBufferRound (hpool : platform.bufferPool.Contract) (u : Unit) :
    Upholds (Sound platform) (Checked platform) (ensureBufferRound platform u) := by
  intro s h
  simp only [ensureBufferRound, wp_bind, wp_get, wp_ite, wp_pure]
  split
  · exact h
  · rename_i hdone
    split
    · exact h
    · rw [availableNow_eq h.opened] at hdone
      have hspent : Spent platform s := { h with done := by omega }
      have hheader := (ofProgress_spent platform).readBlockHeader.and handling_measured.readBlockHeader
      refine wp_mono (hheader s ⟨hspent, h.measured⟩) ?_ (fun _ t ht => (ht.1.sound ht.2).checked)
      rintro header t ⟨ht, hmt⟩
      cases header with
      | none => exact Spent.sound { ht with done := ht.done } (hmt.frame rfl rfl)
      | some frameHeader =>
        show wp (fromExcept (getFrameMetaData frameHeader) >>= _) _ _ t
        rw [wp_bind]
        cases hm : getFrameMetaData frameHeader with
        | error e => exact (ht.sound hmt).checked
        | ok m =>
          simp only [wp_fromExcept_ok, wp_ite, wp_bind, wp_pure]
          split
          · have hskip := ((ofProgress_spent platform).skipFrame m.length).and
              (handling_measured.skipFrame m.length)
            exact wp_mono (hskip t ⟨ht, hmt⟩) (fun _ u hu => hu.1.sound hu.2)
              (fun _ u hu => (hu.1.sound hu.2).checked)
          · rename_i hskip
            refine wp_loadFrame_sound hpool ?_ ht hmt
            simpa only [decide_eq_true_eq] using (getFrameMetaData_flag hm hskip).1

theorem upholds_ensureBuffer (hpool : platform.bufferPool.Contract) :
    Upholds (Sound platform) (Checked platform) (ensureBuffer platform) :=
  Upholds.bind Upholds.get fun _ =>
    Upholds.loop (fun _ h => h.checked) (upholds_ensureBufferRound hpool) _ _

/-! ## Handing out -/

/-- The position may move on, whatever is done with the buffers of the pool. -/
theorem Sound.advance (h : Sound platform s) (k : Nat) :
    Sound platform { s with position := s.position + k } :=
  { h with
    measured := h.measured.frame rfl rfl
    vouched := h.vouched.imp_left fun hle => Nat.le_trans hle (Nat.le_add_right _ _) }

theorem Sound.used (h : Sound platform s) (id : Nat) : Sound platform (s.used id) :=
  { h with measured := h.measured.frame rfl rfl, vouched := h.vouched }

/-- Bytes of the buffer are genuine as far as there are any available. -/
theorem Sound.deliver (h : Sound platform s) {l : Lease} (hl : s.buffer = some l) {n : Nat}
    (hn : n ≤ s.availableNow.toNat) :
    Sound platform { s with
      deliveries := s.deliveries ++ [⟨slice l.contents s.position n, s.position, s.frames.getLast?⟩] } := by
  have hgenuine : Genuine platform ⟨slice l.contents s.position n, s.position, s.frames.getLast?⟩ := by
    intro i x hi
    rw [availableNow_eq h.opened] at hn
    have hin : i < n := by
      obtain ⟨hlt, -⟩ := List.getElem?_eq_some_iff.mp hi
      have := List.length_take_le n (l.contents.drop s.position)
      exact Nat.lt_of_lt_of_le hlt this
    have hx : l.contents[s.position + i]? = some x := by
      rw [← hi, slice, List.getElem?_take_of_lt hin, List.getElem?_drop]
    obtain ⟨f, b, hlast, hintact, hb, htake⟩ := h.vouched.resolve_left (by omega)
    obtain rfl := Option.some.inj (hl.symm.trans hb)
    refine ⟨f, hlast, hintact, ?_⟩
    rw [← htake, List.getElem?_take_of_lt (show s.position + i < s.valid by omega), hx]
  refine { h with genuine := ?_, measured := h.measured.frame rfl rfl, vouched := h.vouched }
  intro d hd
  rcases List.mem_append.mp hd with hd | hd
  · exact h.genuine d hd
  · rw [List.mem_singleton.mp hd]
    exact hgenuine

/-- `read()`, which does not ask whether the frame it has got is empty. -/
theorem wp_readByte_sound (hpool : platform.bufferPool.Contract) (h : Sound platform s)
    (hnext : NoEmptyAhead platform s) :
    wp (readByte platform) (fun _ => Checked platform) (fun _ => Checked platform) s := by
  simp only [readByte, SnappyFramedInputStream.advance, SnappyFramedInputStream.deliver, wp_bind,
    wp_get, wp_ite, wp_pure, wp_modify]
  rw [if_neg (by rw [h.opened]; decide)]
  have hbyte := wp_ensureBuffer_byte hpool h.measured.direct_lt h.opened hnext
  refine wp_mono (wp_and (upholds_ensureBuffer hpool s h) hbyte) ?_ (fun _ _ ht => ht.1)
  rintro ready t ⟨ht, havailable⟩
  split
  · rename_i hready
    refine wp_access_has (fun l hl => ?_) (fun _ => ht.checked)
    cases hx : l.contents[t.position]? with
    | none =>
      have hnone : l.contents[(t.used l.id).position]? = none := hx
      simp only [hnone, wp_throw]
      exact ((ht.used l.id).advance 1).checked
    | some x =>
      have hsome : l.contents[(t.used l.id).position]? = some x := hx
      have hone : slice l.contents t.position 1 = [x] := by
        obtain ⟨hlt, hx⟩ := List.getElem?_eq_some_iff.mp hx
        rw [slice, List.drop_eq_getElem_cons hlt, hx]
        rfl
      have hdeliver := (ht.used l.id).deliver hl (n := 1) (by
        have := havailable hready
        show 1 ≤ t.availableNow.toNat
        omega)
      simp only [hsome, wp_bind, wp_modify, wp_pure]
      rw [← hone]
      exact (hdeliver.advance 1).checked
  · exact ht.checked

theorem wp_takeAvailable_sound (h : Sound platform s) (room : Nat) :
    wp (takeAvailable room) (fun _ => Sound platform) (fun _ => Sound platform) s := by
  simp only [takeAvailable, SnappyFramedInputStream.advance, SnappyFramedInputStream.deliver, wp_bind,
    wp_get, wp_ite, wp_throw, wp_modify, wp_pure]
  refine wp_access_has (fun l hl => ?_) (fun _ => h)
  split
  · exact h.used l.id
  · exact ((h.used l.id).deliver hl (show _ ≤ s.availableNow.toNat by omega)).advance _

theorem wp_read_sound (hpool : platform.bufferPool.Contract) (h : Sound platform s) (output : Bytes)
    (offset length : Int) :
    wp (read platform output offset length) (fun _ => Checked platform) (fun _ => Checked platform) s := by
  simp only [read, wp_bind, wp_get, wp_ite, wp_throw, wp_pure]
  split
  · exact h.checked
  · split
    · exact h.checked
    · split
      · exact h.checked
      · refine wp_mono (upholds_ensureBuffer hpool s h) (fun ready t ht => ?_) (fun _ _ ht => ht)
        split
        · split
          · exact ht.checked
          · exact wp_mono (wp_takeAvailable_sound ht _) (fun _ _ hu => hu.checked)
              (fun _ _ hu => hu.checked)
        · exact ht.checked

theorem wp_readBuffer_sound (hpool : platform.bufferPool.Contract) (h : Sound platform s)
    (dst : ByteBuffer) :
    wp (readBuffer platform dst) (fun _ => Checked platform) (fun _ => Checked platform) s := by
  simp only [readBuffer, wp_bind, wp_get, wp_ite, wp_throw, wp_pure]
  split
  · exact h.checked
  · split
    · exact h.checked
    · refine wp_mono (upholds_ensureBuffer hpool s h) (fun ready t ht => ?_) (fun _ _ ht => ht)
      split
      · refine wp_mono (wp_takeAvailable_sound ht _) (fun bytes u hu => ?_) (fun _ _ hu => hu.checked)
        cases dst.put bytes with
        | error e => exact hu.checked
        | ok filled => exact hu.checked
      · exact ht.checked

theorem wp_transferToStream_sound (hpool : platform.bufferPool.Contract) (h : Sound platform s)
    (os : OutputStream) :
    wp (transferToStream platform) (fun _ p => Checked platform p.1) (fun _ p => Checked platform p.1)
      (s, os) := by
  have hround : ∀ total, Upholds (fun p : SnappyFramedInputStream × OutputStream => Sound platform p.1)
      (fun p => Checked platform p.1) (transferToStreamRound platform total) := by
    rintro total ⟨s, os⟩ hs
    simp only [transferToStreamRound, onStream, SnappyFramedInputStream.advance,
      SnappyFramedInputStream.deliver, wp_bind, wp_zoom, wp_get, wp_ite, wp_throw, wp_modify, wp_pure]
    refine wp_mono (upholds_ensureBuffer hpool s hs) (fun ready t ht => ?_) (fun _ _ ht => ht)
    split
    · refine wp_access_has (fun l hl => ?_) (fun _ => ht.checked)
      split
      · exact (ht.used l.id).checked
      · refine wp_mono (wp_true _ _) (fun _ o _ => ?_) (fun _ o _ => (ht.used l.id).checked)
        exact ((ht.used l.id).deliver hl (Nat.le_refl _)).advance _
    · exact ht
  simp only [transferToStream, onStream, wp_bind, wp_zoom, wp_get, wp_ite, wp_throw]
  split
  · exact h.checked
  · refine wp_mono (Upholds.loop (fun _ hp => hp.checked) hround _ _ (s, os) h) ?_ (fun _ _ hp => hp)
    exact fun _ p hp => hp.checked

/-- A round of a transfer whose view shows the buffer. -/
theorem wp_transferToChannelRound_sound (hpool : platform.bufferPool.Contract) {id total : Nat}
    {p : SnappyFramedInputStream × WritableByteChannel} (h : Sound platform p.1)
    (hfollows : Follows platform id p) :
    wp (transferToChannelRound platform id total) (fun _ q => Sound platform q.1)
      (fun _ q => Checked platform q.1) p := by
  obtain ⟨s, w⟩ := p
  refine wp_channelRound (wp_mono (wp_and (upholds_ensureBuffer hpool s h) (hfollows.wp_ensureBuffer hpool))
    ?_ fun _ _ ht => ht.1)
  rintro ready t ⟨ht, hfronted⟩
  split
  · rename_i hready
    have hfront := hfronted hready
    obtain ⟨b, hb, hobject⟩ := hfront.buffer
    refine ⟨fun _ _ => ht.checked, fun bb hview => ?_⟩
    obtain ⟨harray, -, hlimit⟩ := ByteBuffer.view_ok hfront.available hview
    rw [viewed_of_buffer hb hobject] at harray
    have hdelivered : ∀ n (hn : n ≤ bb.remaining),
        Sound platform (shownTo platform id bb ((bb.take n hn).position - t.position) t) := by
      intro n hn
      have hle := (bb.take n hn).position_le
      have hend : (bb.take n hn).limit = t.position + t.availableNow.toNat := hlimit
      rw [shownTo, viewed_of_buffer hb hobject, harray]
      exact (ht.used b.id).deliver hb (show _ ≤ t.availableNow.toNat by omega)
    refine WritableByteChannel.wp_write_part (fun n hn _ _ => ?_) (fun n hn _ _ => ?_)
    · exact (hdelivered n hn).advance _
    · exact (hdelivered n hn).checked
  · exact ht

theorem wp_transferToChannel_sound (hpool : platform.bufferPool.Contract) (h : Sound platform s)
    {wbc : WritableByteChannel} (hkeeps : KeepsArray platform wbc s) :
    wp (transferToChannel platform) (fun _ p => Checked platform p.1) (fun _ p => Checked platform p.1)
      (s, wbc) := by
  simp only [transferToChannel, wp_bind, wp_get, wp_ite, wp_throw]
  split
  · exact h.checked
  · cases hb : s.buffer with
    | none => exact h.checked
    | some l =>
      have hleaves : ∀ p : SnappyFramedInputStream × WritableByteChannel, Sound platform p.1 →
          Checked platform p.1 := fun _ hp => hp.checked
      have hstart := hkeeps.follows h.opened h.measured.direct_lt hb
      refine wp_mono (wp_loop_rounds hleaves (fun total p hp hsound => ?_) h _)
        (fun _ _ hp => hp.checked) (fun _ _ hp => hp)
      exact wp_transferToChannelRound_sound hpool hsound (hstart.of_rounds hpool hp)

theorem wp_close_checked (h : Checked platform s) (sourceFails : Bool) :
    wp (close sourceFails) (fun _ => Checked platform) (fun _ => Checked platform) s := by
  have hlogged : Keeps (fun t => Logged platform t ∧ Measured t) (close sourceFails) :=
    Keeps.and (@OfProgress.close (Logged platform) (fun _ _ hst ht => ht.progress hst)
      (fun _ ht => ⟨ht.verifying, ht.genuine⟩) sourceFails) (keeps_close sourceFails)
  have hchecked : ∀ t, Logged platform t ∧ Measured t → t.closed = true → Checked platform t :=
    fun t ht hc => { ht.1 with measured := ht.2, vouched := fun _ => .inl hc }
  exact wp_mono (wp_and (hlogged s ⟨h.toLogged, h.measured⟩) (wp_close sourceFails))
    (fun _ t ht => hchecked t ht.1 ht.2.2.1) (fun _ t ht => hchecked t ht.1 ht.2.2.1)

/-! ## Runs -/

/-- The call hands out nothing, whatever there is. -/
def Silent : ReadCall → Prop
  | .read output offset length =>
    (offset < 0 ∨ length < 0 ∨ wrap32 (offset + length) > output.length) ∨ length = 0
  | .readBuffer dst => dst.remaining = 0
  | .available => True
  | .close _ => True
  | _ => False

/-- The call does not find the bytes of a frame that has not passed its check;
`read()` does not come to an empty frame; and the view of a transfer to a channel
does not go stale. -/
def Guarded (platform : Platform) (c : ReadCall) (s : SnappyFramedInputStream) : Prop :=
  (s.verified = true ∨ s.availableNow ≤ 0 ∨ Silent c) ∧
  (c = .readByte → s.closed = false → NoEmptyAhead platform s) ∧
  ∀ wbc, c = .transferToChannel wbc → KeepsArray platform wbc s

/-- A silent call but `close()`, or any other one of a closed stream, changes
nothing. -/
theorem wp_perform_same {c : ReadCall} (h : s.closed = true ∨ Silent c)
    (hc : ∀ sourceFails, c ≠ .close sourceFails) {I : SnappyFramedInputStream → Prop} (hI : I s) :
    wp (perform platform c) (fun _ => I) (fun _ => I) s := by
  cases c with
  | readByte =>
    simp only [perform, readByte, wp_bind, wp_get, wp_ite, wp_pure]
    rw [if_pos (h.resolve_right id)]
    exact hI
  | read output offset length =>
    simp only [perform, read, wp_bind, wp_get, wp_ite, wp_throw, wp_pure]
    split
    · exact hI
    · rename_i hargs
      split
      · exact hI
      · rename_i hclosed
        rw [if_pos ((h.resolve_left hclosed).resolve_left hargs)]
        exact hI
  | readBuffer dst =>
    simp only [perform, readBuffer, wp_bind, wp_get, wp_ite, wp_throw, wp_pure]
    split
    · exact hI
    · rename_i hclosed
      rw [if_pos (show dst.remaining = 0 from h.resolve_left hclosed)]
      exact hI
  | transferToStream os =>
    simp only [perform, transferToStream, onStream, wp_bind, wp_withLocal, wp_zoom, wp_get, wp_ite,
      wp_throw]
    rw [if_pos (h.resolve_right id)]
    exact hI
  | transferToChannel wbc =>
    simp only [perform, transferToChannel, wp_bind, wp_withLocal, wp_get, wp_ite, wp_throw]
    rw [if_pos (h.resolve_right id)]
    exact hI
  | available => exact hI
  | close sourceFails => exact absurd rfl (hc sourceFails)

theorem wp_perform_checked (hpool : platform.bufferPool.Contract) {c : ReadCall}
    (hc : Guarded platform c s) (h : Checked platform s) :
    wp (perform platform c) (fun _ => Checked platform) (fun _ => Checked platform) s := by
  by_cases hclose : ∃ sourceFails, c = .close sourceFails
  · obtain ⟨sourceFails, rfl⟩ := hclose
    simp only [perform, wp_bind, wp_pure]
    exact wp_close_checked h sourceFails
  by_cases hsilent : s.closed = true ∨ Silent c
  · exact wp_perform_same hsilent (fun sourceFails heq => hclose ⟨sourceFails, heq⟩) h
  obtain ⟨hopen, hloud⟩ := not_or.mp hsilent
  have hs : Sound platform s := by
    have hopened : s.closed = false := by simpa using hopen
    refine { h with opened := hopened, vouched := ?_ }
    rcases hc.1 with hv | hdone | hq
    · exact (h.vouched hv).resolve_left hopen
    · rw [availableNow_eq hopened] at hdone
      exact .inl (by omega)
    · exact absurd hq hloud
  cases c with
  | readByte =>
    simp only [perform, wp_bind, wp_pure]
    exact wp_readByte_sound hpool hs (hc.2.1 rfl hs.opened)
  | read output offset length =>
    simp only [perform, wp_bind, wp_pure]
    exact wp_read_sound hpool hs output offset length
  | readBuffer dst =>
    simp only [perform, wp_bind, wp_pure]
    exact wp_readBuffer_sound hpool hs dst
  | transferToStream os =>
    simp only [perform, wp_bind, wp_withLocal, wp_pure]
    exact wp_mono (wp_transferToStream_sound hpool hs os) (fun _ _ hp => hp) (fun _ _ hp => hp)
  | transferToChannel wbc =>
    simp only [perform, wp_bind, wp_withLocal, wp_pure]
    exact wp_mono (wp_transferToChannel_sound hpool hs (hc.2.2 wbc rfl)) (fun _ _ hp => hp)
      (fun _ _ hp => hp)
  | available => exact absurd trivial hloud
  | close sourceFails => exact absurd ⟨sourceFails, rfl⟩ hclose

theorem wp_init_spent (hpool : platform.bufferPool.Contract) (rbc : Source) :
    wp (init platform) (fun _ t => Spent platform t ∧ Measured t)
      (fun _ t => Spent platform t ∧ Measured t) (initial rbc true) := by
  have hspent : Spent platform (initial rbc true) := ⟨⟨rfl, by simp [initial]⟩, rfl, Nat.le_refl _⟩
  have hmeasured : Measured (initial rbc true) := ⟨by simp [initial], by simp [initial]⟩
  have hprogress : Keeps (Spent platform) (init platform) := by
    have h := ofProgress_spent platform
    refine Keeps.bind (h.allocateBuffersBasedOnSize _) fun _ => Keeps.bind (h.onRbc _) fun p => ?_
    exact Keeps.ite (Keeps.throw _) (Keeps.ite (Keeps.throw _) (Keeps.pure _))
  have hroom : Keeps Measured (init platform) := by
    refine Keeps.bind (keeps_basedOnSize hpool _) fun _ => Keeps.bind (handling_measured.onRbc _) fun p => ?_
    exact Keeps.ite (Keeps.throw _) (Keeps.ite (Keeps.throw _) (Keeps.pure _))
  exact hprogress.and hroom _ ⟨hspent, hmeasured⟩

/-- With checksums verified, every byte handed out is one of a frame whose
checksum is right, in every run whose calls are all guarded, those after an
exception included. -/
theorem openRun_genuine (hpool : platform.bufferPool.Contract) (rbc : Source) (calls : List ReadCall) :
    wp (init platform)
      (fun _ s => Meets Throwable.Fatal (perform platform) (Guarded platform) calls s →
        wp (runOn Throwable.Fatal (perform platform) calls)
          (fun _ t => ∀ d ∈ t.deliveries, Genuine platform d)
          (fun _ t => ∀ d ∈ t.deliveries, Genuine platform d) s)
      (fun _ s => ∀ d ∈ s.deliveries, Genuine platform d) (initial rbc true) := by
  refine wp_mono (wp_init_spent hpool rbc) (fun _ s hs hcalls => ?_) (fun _ _ hs => hs.1.genuine)
  refine wp_mono (wp_runOn_meets (fun c t hc ht => wp_perform_checked hpool hc ht) hcalls
    (hs.1.sound hs.2).checked) ?_ ?_
  · exact fun _ _ ht => ht.genuine
  · exact fun _ _ ht => ht.genuine

end

/-! ## A frame that fails its check -/

section
variable {platform : Platform} {c : Capacities} {k : Nat} {tail : Bytes} {s : SnappyFramedInputStream}
  {f : Frame}

/-- A raw frame that fails its check is in the buffer all the same. -/
theorem wp_readByte_refused (hpool : platform.bufferPool.Reliable) (hfits : f.Fits)
    (hraw : f.flag = SnappyFramed.uncompressedDataFlag) (h5 : 5 ≤ f.body.length)
    (hbad : ¬ f.Intact platform) (h : Poised c true k (f.encode ++ tail) s) (hdone : s.valid ≤ s.position)
    (hroom : f.payload.length ≤ (c.forBody platform.bufferPool f.body.length).buffer) :
    wp (readByte platform) (fun _ _ => False)
      (fun e t => e = .ioException "Corrupt input: invalid checksum" ∧ t.closed = false ∧
        t.frames = s.frames ++ [f] ∧ t.deliveries = s.deliveries ∧ Decoded f.payload t) s := by
  have hdata := h.data_eq
  rw [Frame.encode, List.append_assoc] at hdata
  have h4 := Frame.length_header f
  have hlen : s.rbc.data.length = 4 + (f.body ++ tail).length := by
    rw [hdata, List.length_append, h4]
  have hrecords : OfProgress fun t => t.frames = s.frames ∧ t.deliveries = s.deliveries :=
    fun t u hst ht => ⟨hst.frames.trans ht.1, hst.deliveries.trans ht.2⟩
  simp only [readByte, ensureBuffer, loop, ensureBufferRound, wp_bind, wp_get, wp_ite, wp_pure,
    availableNow_eq h.opened, h.opened, h.live, Bool.false_eq_true, if_false]
  rw [if_neg (by omega)]
  apply wp_readBlockHeader h.positive
  case hEnd =>
    intro _ hnil
    rw [hnil, List.length_nil] at hlen
    omega
  case hShort =>
    intros
    omega
  intro r _ hr hpr hfr
  have htake : s.rbc.data.take 4 = f.header := by rw [hdata, ← h4, List.take_left]
  have hr' : r.data = f.body ++ tail := by rw [hr, hdata, ← h4, List.drop_left]
  have hpoised : Poised c true k (f.body ++ tail) { s with rbc := r, headerSource := some s.rbc } :=
    ⟨hr', hpr, Nat.le_trans hfr h.fragments_le, h.opened, h.live, h.verify, { h.room with }⟩
  have hhead : f.header.getD 0 0 = f.flag := rfl
  simp only [htake, wp_bind, hhead, getFrameMetaData_raw hfits hraw h5, wp_fromExcept_ok, wp_ite,
    reduceCtorEq, if_false, decide_false, loadFrame, Bool.false_eq_true, wp_modify, wp_pure]
  have hread : wp (readFrame platform f.body.length) (fun body t => body = f.body ∧
      Poised (c.forBody platform.bufferPool f.body.length) true k tail t) (fun _ _ => False)
      { s with rbc := r, headerSource := some s.rbc } := by
    apply wp_readFrame hpool hpoised (by omega) hfits
    · intro t _ ht
      exact ⟨List.take_left, by rwa [List.drop_left] at ht⟩
    · intro _ hcut
      rw [List.length_append] at hcut
      omega
  have hsame : Keeps _ (readFrame platform f.body.length) := hrecords.readFrame f.body.length
  refine wp_mono (wp_and hread (hsame _ ⟨rfl, rfl⟩)) ?_ (fun _ _ hf => hf.1.elim)
  rintro body t ⟨⟨rfl, ht⟩, hframes, hdeliveries⟩
  have hcopy : ∀ u : SnappyFramedInputStream,
      Poised (c.forBody platform.bufferPool f.body.length) true k tail u →
      wp (copyFrame f.payload) (fun _ v => Decoded f.payload v ∧
        Poised (c.forBody platform.bufferPool f.body.length) true k tail v) (fun _ _ => False) u :=
    fun u hu => wp_copyFrame hu (fun _ _ hv hdec => ⟨hdec, hv⟩) fun _ hover => absurd hover (by omega)
  have hkept : OfProgress fun u => u.frames = s.frames ++ [f] ∧ u.deliveries = s.deliveries :=
    fun u v hst hu => ⟨hst.frames.trans hu.1, hst.deliveries.trans hu.2⟩
  have hrecorded := hkept.copyFrame (fun _ _ _ hu => hu) f.payload
  refine wp_mono (wp_and (hcopy _ { ht with room := { ht.room with } }) (hrecorded _ ⟨?_, hdeliveries⟩))
    ?_ (fun _ _ hf => hf.1.elim)
  · rw [hframes]
  rintro - u ⟨⟨hdec, hu⟩, hframes, hdeliveries⟩
  obtain ⟨b, hb, htake, hfit⟩ := hdec.buffer
  have hcrc : SnappyFramed.maskedCrc32c platform.crc32c b.contents 0 f.payload.length =
      SnappyFramed.mask (platform.crc32c (f.data platform.codec)) := by
    have hdata : f.data platform.codec = f.payload := by
      rw [Frame.data, if_neg (by rw [hraw]; decide), if_pos hraw]
    rw [SnappyFramed.maskedCrc32c, slice_zero, htake, hdata]
  simp only [verifyFrame, wp_bind, wp_get, wp_when, wp_throw, hu.verify, if_true]
  apply wp_access hb
  intro events
  rw [hdec.position, hdec.valid, Nat.sub_zero, hcrc, if_pos (show Frame.checkSum ⟨f.flag, f.body⟩ ≠
    SnappyFramed.mask (platform.crc32c (f.data platform.codec)) from hbad)]
  exact ⟨trivial, hu.opened, hframes, hdeliveries, rfl, rfl, b, hb, htake, hfit⟩

/-- What `ensureBuffer` finds in the buffer is handed out, whatever its frame. -/
theorem wp_readByte_decoded {x : UInt8} {xs : Bytes} {P : SnappyFramedInputStream → Prop}
    (hopen : s.closed = false) (h : wp (ensureBuffer platform)
      (fun ready t => ready = true ∧ Decoded (x :: xs) t ∧ P t) (fun _ _ => False) s) :
    wp (readByte platform) (fun n t => n = x.toNat ∧ ∃ u, P u ∧
      t.deliveries = u.deliveries ++ [⟨[x], 0, u.frames.getLast?⟩]) (fun _ _ => False) s := by
  simp only [readByte, advance, deliver, wp_bind, wp_get, wp_ite, wp_pure, wp_modify, hopen,
    Bool.false_eq_true, if_false]
  refine wp_mono h ?_ fun _ _ hf => hf
  rintro ready t ⟨rfl, hdec, ht⟩
  obtain ⟨b, hb, htake, hfit⟩ := hdec.buffer
  have hx : b.contents[t.position]? = some x := by
    rw [hdec.position, ← List.getElem?_take_of_lt (show 0 < (x :: xs).length from Nat.succ_pos _), htake]
    rfl
  simp only [if_true]
  apply wp_access hb
  intro events
  simp only [hx, wp_bind, wp_modify, wp_pure]
  rw [hdec.position]
  exact ⟨trivial, t, ht, rfl⟩

end

@[irreducible] def samplesSource : Source := ⟨Frame.stream Frame.samples, [3, 1]⟩

/-- The first of the sample frames is read. -/
theorem wp_ensureBuffer_samples {s : SnappyFramedInputStream} {k : Nat}
    (h : Poised (.initial literalPlatform.bufferPool) true k (Frame.samples.flatMap Frame.encode) s)
    (hdone : s.valid ≤ s.position) :
    wp (ensureBuffer literalPlatform) (fun ready t => ready = true ∧ Decoded [1, 2] t ∧ True)
      (fun _ _ => False) s := by
  have hpool : literalPlatform.bufferPool.Reliable := QuiescentBufferPool.builtIn.reliable
  have hflat : Frame.samples.flatMap Frame.encode =
      (Frame.ofBlock literalPlatform false [1, 2] [1, 2]).encode ++
        Frame.samples.tail.flatMap Frame.encode :=
    rfl
  obtain ⟨hfits, hgood, -⟩ := @Frame.samples_spec
    (Frame.ofBlock literalPlatform false [1, 2] [1, 2]) List.mem_cons_self
  simp only [ensureBuffer, loop, wp_bind, wp_get]
  refine wp_ensureBufferRound hpool hfits (hflat ▸ h) hdone ?_ ?_ ?_ ?_ ?_
  · exact fun _ _ hskip => absurd (.inr rfl) hskip
  · exact fun t _ _ _ _ hdec => ⟨rfl, hdec, trivial⟩
  · intro _ hover
    have hinput : (Capacities.initial literalPlatform.bufferPool).input = 65541 := length_newArray _
    have hdirect : (Capacities.initial literalPlatform.bufferPool).uncompressedDirect = 76496 :=
      length_newArray _
    have hbuffer : (Capacities.initial literalPlatform.bufferPool).buffer = 76496 := length_newArray _
    obtain ⟨hbody, hlength⟩ := @small_samples
      (Frame.ofBlock literalPlatform false [1, 2] [1, 2]) List.mem_cons_self
    rw [next_of_le (by omega) (by omega), hbuffer] at hover
    omega
  · intro _ _ hflag
    exact absurd hflag (by decide)
  · exact fun _ _ hbad => hbad hgood

/-- The first frame is read, and its first byte is handed out. -/
theorem openRun_genuine_samples :
    wp (init literalPlatform)
      (fun _ s => wp (runOn Throwable.Fatal (perform literalPlatform) [.readByte, .available])
        (fun _ t => (∃ d ∈ t.deliveries, d.bytes = [1]) ∧ ∀ d ∈ t.deliveries, Genuine literalPlatform d)
        (fun _ t => ∀ d ∈ t.deliveries, Genuine literalPlatform d) s)
      (fun _ s => ∀ d ∈ s.deliveries, Genuine literalPlatform d) (initial samplesSource true) := by
  have hpool : literalPlatform.bufferPool.Reliable := QuiescentBufferPool.builtIn.reliable
  have hdata : samplesSource.data.drop 10 = Frame.samples.flatMap Frame.encode := by
    rw [samplesSource]
    rfl
  have hpoised : wp (init literalPlatform) (fun _ t =>
      Poised (.initial literalPlatform.bufferPool) true samplesSource.fragments.length
        (Frame.samples.flatMap Frame.encode) t) (fun _ _ => True) (initial samplesSource true) := by
    refine wp_init hpool ?_ (fun t _ ht _ _ => hdata ▸ ht) (fun _ _ => trivial) fun _ _ _ => trivial
    rw [samplesSource]
    decide
  refine wp_mono (wp_and (wp_and (openRun_genuine hpool.toContract samplesSource [.readByte, .available])
    (wp_init_spent hpool.toContract samplesSource)) hpoised) ?_ (fun _ _ h => h.1.1)
  rintro - s ⟨⟨hrun, hs, -⟩, hpoised⟩
  have hahead : framesOf s.rbc.data = Frame.samples := by
    rw [hpoised.data_eq, ← List.append_nil (Frame.samples.flatMap Frame.encode),
      framesOf_flatMap fun f hf => (Frame.samples_spec hf).1]
    exact List.append_nil _
  have hdone : s.availableNow ≤ 0 := by
    have := hs.done
    rw [availableNow_eq hs.opened]
    omega
  have hnext : NoEmptyAhead literalPlatform s := fun _ _ => by
    rw [hahead]
    exact DataNext.of_ne (by decide +kernel)
  have hlast : ∀ t, Meets Throwable.Fatal (perform literalPlatform) (Guarded literalPlatform)
      [.available] t :=
    fun t => ⟨⟨.inr (.inr trivial), (fun h => by cases h), (fun _ h => by cases h)⟩,
      wp_mono (wp_true _ _) (fun _ _ _ => trivial) fun _ _ _ _ => trivial⟩
  have hgenuine := hrun ⟨⟨.inr (.inl hdone), (fun _ _ => hnext), (fun _ h => by cases h)⟩,
    wp_mono (wp_true _ _) (fun _ t _ => hlast t) (fun _ t _ _ => hlast t)⟩
  have hbyte : wp (runOn Throwable.Fatal (perform literalPlatform) [.readByte, .available])
      (fun _ t => ∃ d ∈ t.deliveries, d.bytes = [1]) (fun _ _ => True) s := by
    simp only [runOn, perform, wp_bind, wp_attempt, wp_get, wp_pure]
    refine wp_mono (wp_readByte_decoded hs.opened (wp_ensureBuffer_samples hpoised hs.done)) ?_ (fun _ _ hf => hf.elim)
    rintro n t ⟨rfl, u, -, hu⟩
    rw [hu]
    exact ⟨_, List.mem_concat_self, rfl⟩
  refine wp_mono (wp_and hgenuine hbyte) (fun _ t ht => ⟨ht.2, ht.1⟩) (fun _ t ht => ht.1)

/-- A raw frame of one byte with a checksum of zeros. -/
def forged : Frame := ⟨SnappyFramed.uncompressedDataFlag, [0, 0, 0, 0, 42]⟩

@[irreducible] def forgedStream : Source := ⟨Frame.stream [forged], []⟩

theorem forged_not_intact : ¬ forged.Intact literalPlatform := by
  unfold Frame.Intact
  decide +kernel

private theorem wp_forged {s₀ : SnappyFramedInputStream} (hs₀ : s₀ = initial forgedStream true) :
    wp (openRun literalPlatform [.readByte, .readByte])
      (fun _ t => ¬ ∀ d ∈ t.deliveries, Genuine literalPlatform d) (fun _ _ => False) s₀ := by
  have hpool : literalPlatform.bufferPool.Reliable := QuiescentBufferPool.builtIn.reliable
  have hinit : wp (init literalPlatform)
      (fun _ t => Poised (.initial literalPlatform.bufferPool) true 0 (forged.encode ++ []) t ∧
        t.valid ≤ t.position) (fun _ _ => False) s₀ := by
    rw [hs₀, forgedStream]
    apply wp_init hpool (by simp [Source.Positive])
    · intro t _ ht hvalid hposition
      exact ⟨ht, by omega⟩
    · intro _ hshort
      exact absurd hshort (by decide)
    · intro _ _ hbad
      exact hbad (by decide)
  have hstart : OfProgress fun t => t.frames = [] ∧ t.deliveries = [] :=
    fun t u hst ht => ⟨hst.frames.trans ht.1, hst.deliveries.trans ht.2⟩
  have hnothing : Keeps (fun t => t.frames = [] ∧ t.deliveries = []) (init literalPlatform) := by
    refine Keeps.bind (hstart.allocateBuffersBasedOnSize _) fun _ => Keeps.bind (hstart.onRbc _) fun p => ?_
    exact Keeps.ite (Keeps.throw _) (Keeps.ite (Keeps.throw _) (Keeps.pure _))
  have hroom : forged.payload.length ≤ ((Capacities.initial literalPlatform.bufferPool).forBody
      literalPlatform.bufferPool forged.body.length).buffer := by
    have hinput : (Capacities.initial literalPlatform.bufferPool).input = 65541 := length_newArray _
    have hbuffer : (Capacities.initial literalPlatform.bufferPool).buffer = 76496 := length_newArray _
    have hbody : forged.body.length = 5 := rfl
    have hpayload : forged.payload.length = 1 := rfl
    rw [Capacities.forBody, if_neg (by omega), hbuffer, hpayload]
    decide
  rw [openRun, wp_bind]
  refine wp_mono (wp_and hinit (hnothing _ (by rw [hs₀]; exact ⟨rfl, rfl⟩))) ?_ (fun _ _ hf => hf.1)
  rintro - s ⟨⟨hs, hdone⟩, hframes, hdeliveries⟩
  simp only [runOn, perform, wp_bind, wp_attempt, wp_ite, wp_throw, wp_pure]
  refine wp_mono (wp_readByte_refused hpool (by unfold Frame.Fits; decide) rfl (by decide)
    forged_not_intact hs hdone hroom) (fun _ _ hf => hf.elim) ?_
  rintro e t ⟨rfl, hopen, hframes', hdeliveries', hdec⟩
  rw [if_neg (by decide)]
  have hready : wp (ensureBuffer literalPlatform)
      (fun ready u => ready = true ∧ Decoded [42] u ∧ u = t) (fun _ _ => False) t := by
    have hmore : t.availableNow > 0 := by
      rw [availableNow_eq hopen, hdec.position, hdec.valid]
      decide
    simp only [ensureBuffer, loop, ensureBufferRound, wp_bind, wp_get, wp_ite, wp_pure, if_pos hmore]
    exact ⟨trivial, hdec, trivial⟩
  refine wp_mono (wp_readByte_decoded hopen hready) ?_ (fun _ _ hf => hf.elim)
  rintro n u ⟨rfl, _, rfl, hu⟩
  -- the byte comes from a frame that is not intact
  intro hgenuine
  rw [hdeliveries', hdeliveries, hframes', hframes] at hu
  have hmem : (⟨[42], 0, some forged⟩ : Delivery) ∈ u.deliveries := by
    rw [hu]
    exact List.mem_cons_self
  obtain ⟨g, hg, hintact, -⟩ := hgenuine _ hmem 0 42 rfl
  obtain rfl : forged = g := Option.some.inj hg
  exact forged_not_intact hintact

/-- After `read()` has thrown on a frame that fails its check, the next `read()`
hands out the first byte of that frame. -/
theorem forged_delivered :
    wp (openRun literalPlatform [.readByte, .readByte])
      (fun _ t => ¬ ∀ d ∈ t.deliveries, Genuine literalPlatform d) (fun _ _ => False)
      (initial forgedStream true) := wp_forged rfl

end SnappyJava.SnappyFramedInputStream
