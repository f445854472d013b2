import SnappyJava.FramedReader
import SnappyJava.FramedWriter
import SnappyJava.PureJavaCrc32C
import SnappyJava.Lib.CrcBursts

/-! What the checksum of a raw frame notices: every change of at most four bytes
of the payload next to each other, and every change of the stored checksum. -/

namespace SnappyJava

open Exec Memory Words

namespace SnappyFramed

/-- The mask can be taken off again. -/
theorem mask_injective {a b : BitVec 32} (h : mask a = mask b) : a = b := by
  have hrotate : (a >>> 15 ||| a <<< 17) = (b >>> 15 ||| b <<< 17) := by
    have hsub := congrArg (· - maskDelta) h
    simpa only [mask, BitVec.add_sub_cancel] using hsub
  apply BitVec.eq_of_getLsbD_eq
  intro i hi
  have hbit := fun j => congrArg (fun c : BitVec 32 => c.getLsbD j) hrotate
  simp only [BitVec.getLsbD_or, BitVec.getLsbD_ushiftRight, BitVec.getLsbD_shiftLeft] at hbit
  rcases Nat.lt_or_ge i 15 with hlow | hhigh
  · have := hbit (i + 17)
    simpa [show ¬ i + 17 < 17 by omega, show i + 17 < 32 by omega,
      BitVec.getLsbD_of_ge a (15 + (i + 17)) (by omega),
      BitVec.getLsbD_of_ge b (15 + (i + 17)) (by omega)] using this
  · have := hbit (i - 15)
    simpa [show i - 15 < 17 by omega, show 15 + (i - 15) = i by omega] using this

end SnappyFramed

namespace Frame

variable {f g : Frame}

theorem take_body_append (f : Frame) : f.body.take 4 ++ f.payload = f.body :=
  List.take_append_drop 4 f.body

/-- The stored checksum is that of the four bytes in front of the payload. -/
theorem le32_checkSum (h : 4 ≤ f.body.length) : le32 f.checkSum = f.body.take 4 := by
  obtain ⟨flag, body⟩ := f
  match body, h with
  | b0 :: b1 :: b2 :: b3 :: rest, _ => exact le32_ofBytes b3 b2 b1 b0

/-- The frame header is as it was. In the body there is another window of up to
four bytes in the payload, or another checksum. -/
inductive Corrupts (f g : Frame) : Prop
  | payload (flag : g.flag = f.flag) (checkSum : g.body.take 4 = f.body.take 4)
      (burst : Crc.Burst f.payload g.payload)
  | checkSum (flag : g.flag = f.flag) (length : g.body.length = f.body.length)
      (checkSum : g.body.take 4 ≠ f.body.take 4) (payload : g.payload = f.payload)

theorem Corrupts.flag_eq (h : Corrupts f g) : g.flag = f.flag := by
  cases h with
  | payload flag => exact flag
  | checkSum flag => exact flag

theorem Corrupts.length_eq (h : Corrupts f g) : g.body.length = f.body.length := by
  cases h with
  | payload flag checkSum burst =>
    rw [← take_body_append g, ← take_body_append f, List.length_append, List.length_append,
      checkSum, burst.length_eq]
  | checkSum flag length => exact length

theorem Corrupts.header_eq (h : Corrupts f g) : g.header = f.header := by
  rw [header, header, h.flag_eq, h.length_eq]

/-- A raw frame that has been corrupted does not pass the check. -/
theorem Corrupts.checkSum_ne (h : Corrupts f g) (h4 : 4 ≤ f.body.length)
    (hf : f.checkSum = SnappyFramed.mask (Crc.crc32c f.payload)) :
    g.checkSum ≠ SnappyFramed.mask (Crc.crc32c g.payload) := by
  have hlen := h.length_eq
  have hsum : le32 g.checkSum = g.body.take 4 := le32_checkSum (by omega)
  have hsum' := le32_checkSum h4
  intro heq
  cases h with
  | payload flag checkSum burst =>
    have hsame : g.checkSum = f.checkSum := by
      have hbytes : le32 g.checkSum = le32 f.checkSum := by rw [hsum, hsum', checkSum]
      rw [← ofBytes_byteOf g.checkSum, ← ofBytes_byteOf f.checkSum]
      simp only [le32, List.cons.injEq, and_true] at hbytes
      obtain ⟨h0, h1, h2, h3⟩ := hbytes
      rw [h0, h1, h2, h3]
    rw [hsame, hf] at heq
    exact burst.crc32c_ne (SnappyFramed.mask_injective heq)
  | checkSum flag length checkSum payload =>
    rw [payload, ← hf] at heq
    exact checkSum (by rw [← hsum, heq, hsum'])

end Frame

namespace SnappyFramedInputStream

/-! ## The reader before such a frame -/

/-- An open stream that verifies checksums has delivered all it had, and the
frame `g` comes next. -/
structure Before (g : Frame) (more : Bytes) (s : SnappyFramedInputStream) : Prop where
  opened : s.closed = false
  live : s.eof = false
  verify : s.verifyChecksums = true
  done : s.valid ≤ s.position
  data_eq : s.rbc.data = g.encode ++ more

/-- The buffers have room for the frame, as those of the constructor have for
every frame of the writer. -/
def Suffice (g : Frame) (s : SnappyFramedInputStream) : Prop :=
  (∃ l, s.input = some l ∧ g.body.length ≤ l.contents.length) ∧
    ∃ l, s.buffer = some l ∧ g.payload.length ≤ l.contents.length

section
variable {platform : Platform} {s : SnappyFramedInputStream}

/-- An allocation by any pool. -/
theorem wp_allocate_any {answer : Nat → Nat → Except Throwable Bytes} {size : Nat}
    {Q : Lease → SnappyFramedInputStream → Prop} {E : Throwable → SnappyFramedInputStream → Prop}
    (hQ : ∀ l events, Q l { s with allocations := s.allocations + 1, poolEvents := events })
    (hE : ∀ e t, E e t) : wp (allocate answer size) Q E s := by
  simp only [allocate, record, wp_bind, wp_get, wp_set]
  cases answer s.allocations size with
  | ok b => exact hQ ⟨s.allocations, b⟩ _
  | error e => exact hE e _

theorem wp_allocateBuffersBasedOnSize_any {size : Nat}
    {Q : Unit → SnappyFramedInputStream → Prop} {E : Throwable → SnappyFramedInputStream → Prop}
    (hQ : ∀ l t, SamePlace s t → t.input = some l → Q () t) (hE : ∀ e t, E e t) :
    wp (allocateBuffersBasedOnSize platform size) Q E s := by
  simp only [allocateBuffersBasedOnSize, wp_bind, wp_modify]
  apply wp_releaseField
  intro _ _
  apply wp_releaseField
  intro _ _
  apply wp_releaseField
  intro _ _
  refine wp_allocate_any (fun l _ => ?_) hE
  refine wp_allocate_any (fun _ _ => ?_) hE
  refine wp_allocate_any (fun _ _ => ?_) hE
  exact hQ l _ ⟨rfl, rfl, rfl, rfl, rfl, rfl⟩ rfl

/-- The body is read whole. The buffers are the old ones if `input` was large
enough; else anything may go wrong on the way. -/
theorem wp_readFrame_any {length : Nat} (hpos : 0 < length) (hall : length ≤ s.rbc.data.length)
    {Q : Bytes → SnappyFramedInputStream → Prop}
    {E : Throwable → SnappyFramedInputStream → Prop}
    (hQ : ∀ l t, t.verifyChecksums = s.verifyChecksums → t.input = some l →
      ((∃ l, s.input = some l ∧ length ≤ l.contents.length) → t.buffer = s.buffer) →
      Q (s.rbc.data.take length) t)
    (hE : ¬ (∃ l, s.input = some l ∧ length ≤ l.contents.length) → ∀ e t, E e t) :
    wp (readFrame platform length) Q E s := by
  simp only [readFrame, wp_bind, wp_get, wp_when]
  split
  · rename_i hlarge
    have hsmall : ¬ ∃ l, s.input = some l ∧ length ≤ l.contents.length := by
      rintro ⟨l, hl, hle⟩
      rw [hl] at hlarge
      exact absurd hlarge (Nat.not_lt.mpr hle)
    refine wp_allocateBuffersBasedOnSize_any (fun l u hplace hl => ?_) (hE hsmall)
    by_cases hle : length ≤ l.contents.length
    · have hfill : wp (_ >>= _) Q E u := wp_fillInput hl hle hpos
        (fun r l' events _ _ _ _ _ => hplace.rbc ▸ hQ l' _ hplace.verifyChecksums rfl
          fun hsuff => absurd hsuff hsmall)
        (fun t _ => hE hsmall _ t)
      simpa only [wp_bind] using hfill
    · apply wp_access hl
      intro events
      simp only [ByteBuffer.setLimit_wrap_error (Nat.lt_of_not_le hle), wp_fromExcept_error]
      exact hE hsmall _ _
  · rename_i hfits
    obtain hnone | ⟨l, hl⟩ : s.input = none ∨ ∃ l, s.input = some l := by
      cases s.input with
      | none => exact .inl rfl
      | some l => exact .inr ⟨l, rfl⟩
    · rw [hnone] at hfits
      exact absurd hpos hfits
    · rw [hl] at hfits
      have hle : length ≤ l.contents.length := Nat.le_of_not_lt hfits
      have hfill : wp (_ >>= _) Q E s := wp_fillInput hl hle hpos
        (fun r l' events _ _ _ _ _ => hQ l' _ rfl rfl fun _ => rfl)
        (fun t hcut => absurd hall (Nat.not_le.mpr hcut))
      simpa only [wp_bind] using hfill

/-- A raw frame whose checksum is wrong is read and refused. -/
theorem wp_loadFrame_corrupt {g : Frame} {more : Bytes} (hlen : 0 < g.body.length)
    (hsum : g.checkSum ≠ SnappyFramed.mask (platform.crc32c g.payload))
    (hv : s.verifyChecksums = true) (hdata : s.rbc.data = g.body ++ more) :
    wp (loadFrame platform g.flag false g.body.length) (fun _ _ => False)
      (fun e _ => Suffice g s → e = .ioException "Corrupt input: invalid checksum") s := by
  simp only [loadFrame, wp_bind, wp_modify, Bool.false_eq_true, if_false]
  have hall : g.body.length ≤ s.rbc.data.length := by
    rw [hdata, List.length_append]
    omega
  refine wp_readFrame_any hlen hall ?_ fun hsmall _ _ hsuff => absurd hsuff.1 hsmall
  intro l t hverify hl hbuffer
  have hbody : s.rbc.data.take g.body.length = g.body := by rw [hdata, List.take_left]
  rw [hbody]
  simp only [copyFrame, copyToBuffer, wp_bind, wp_modify]
  refine wp_access (l := l) hl ?_
  intro events
  cases hb : t.buffer with
  | none =>
    simp only [access, wp_bind, wp_get, wp_throw]
    intro hsuff
    obtain ⟨b, hb', -⟩ := hsuff.2
    rw [← hbuffer hsuff.1, hb] at hb'
    cases hb'
  | some b =>
    refine wp_access (l := b) rfl ?_
    intro events'
    simp only [wp_ite, wp_throw, wp_modify]
    split
    · rename_i hshort
      intro hsuff
      obtain ⟨b', hb', hle⟩ := hsuff.2
      rw [← hbuffer hsuff.1, hb] at hb'
      obtain rfl := Option.some.inj hb'
      exact absurd hshort (Nat.not_lt.mpr hle)
    · simp only [verifyFrame, wp_bind, wp_get, wp_when, wp_throw]
      rw [if_pos (hverify.trans hv)]
      refine wp_access rfl ?_
      intro events''
      rw [Nat.sub_zero, SnappyFramed.maskedCrc32c, slice_zero]
      dsimp only
      rw [take_splice_zero, if_pos hsum]
      exact fun _ => trivial

/-- So is one before which the reader stands. -/
theorem wp_ensureBuffer_corrupt {g : Frame} {more : Bytes} (hfits : g.Fits)
    (h5 : 5 ≤ g.body.length) (hraw : g.flag = SnappyFramed.uncompressedDataFlag)
    (hsum : g.checkSum ≠ SnappyFramed.mask (platform.crc32c g.payload)) (h : Before g more s) :
    wp (ensureBuffer platform) (fun _ _ => False)
      (fun e _ => Suffice g s → e = .ioException "Corrupt input: invalid checksum") s := by
  have hdone := h.done
  have hdata := h.data_eq
  rw [Frame.encode, List.append_assoc] at hdata
  have h4 := Frame.length_header g
  have hlen : s.rbc.data.length = 4 + (g.body ++ more).length := by
    rw [hdata, List.length_append, h4]
  simp only [ensureBuffer, loop, ensureBufferRound, wp_bind, wp_get, wp_ite, wp_pure,
    availableNow_eq h.opened, h.live, Bool.false_eq_true, if_false]
  rw [if_neg (by omega)]
  apply wp_readBlockHeader_some (List.length_pos_iff.mp (by omega))
  case hShort =>
    intros
    omega
  intro r _ hr _ _
  have htake : s.rbc.data.take 4 = g.header := by rw [hdata, ← h4, List.take_left]
  have hr' : r.data = g.body ++ more := by rw [hr, hdata, ← h4, List.drop_left]
  have hflag : g.header.getD 0 0 = g.flag := rfl
  rw [htake]
  simp only [wp_bind, wp_ite, wp_pure, getFrameMetaData_raw hfits hraw h5, wp_fromExcept_ok,
    reduceCtorEq, if_false, decide_false, hflag]
  have hload := @wp_loadFrame_corrupt platform { s with rbc := r, headerSource := some s.rbc } g
    more (by omega) hsum h.verify hr'
  exact wp_mono hload (fun _ _ hfalse => hfalse.elim) fun _ _ he hsuff => he hsuff

end

/-! ## Short corruptions -/

section
variable {w : FrameWriter} {platform : Platform} {x : Bytes} {g : Frame}

/-- The checksum of a raw frame of the writer notices every change of up to four
bytes of the payload next to each other and every change of its own bytes, and
the reader throws at the frame. -/
theorem corrupted_refused (hw : w.crc32c = PureJavaCrc32C.crc32c)
    (hp : platform.crc32c = PureJavaCrc32C.crc32c) (hx : x ≠ [])
    (hmax : x.length ≤ SnappyFramedOutputStream.maxBlockSize) (hraw : w.chosen x = false)
    (hg : (w.frame x).Corrupts g) {more : Bytes} {s : SnappyFramedInputStream}
    (hs : Before g more s) :
    g.header = (w.frame x).header ∧
      SnappyFramed.maskedCrc32c platform.crc32c g.payload 0 g.payload.length ≠ g.checkSum ∧
      wp (ensureBuffer platform) (fun _ _ => False)
        (fun e _ => Suffice g s → e = .ioException "Corrupt input: invalid checksum") s := by
  have hM : SnappyFramedOutputStream.maxBlockSize = 65536 := rfl
  have hpos := List.length_pos_iff.mpr hx
  have hpayload : (w.frame x).payload = x := by
    rw [FrameWriter.frame, Frame.payload_ofBlock, FrameWriter.payload, hraw]
    rfl
  have hbody : (w.frame x).body.length = x.length + 4 := by
    rw [FrameWriter.frame, Frame.length_body_ofBlock, FrameWriter.payload, hraw]
    rfl
  have hsum : (w.frame x).checkSum = SnappyFramed.mask (Crc.crc32c (w.frame x).payload) := by
    rw [hpayload, FrameWriter.frame, Frame.checkSum_ofBlock, hw, PureJavaCrc32C.crc32c_eq]
  have hflag : g.flag = SnappyFramed.uncompressedDataFlag := by
    rw [hg.flag_eq, FrameWriter.frame, Frame.flag_ofBlock, hraw]
    rfl
  have hlen := hg.length_eq
  have hne : g.checkSum ≠ SnappyFramed.mask (platform.crc32c g.payload) := by
    rw [hp, PureJavaCrc32C.crc32c_eq]
    exact hg.checkSum_ne (by omega) hsum
  have hfits : g.Fits := by
    rw [Frame.Fits]
    omega
  refine ⟨hg.header_eq, ?_, wp_ensureBuffer_corrupt hfits (by omega) hflag hne hs⟩
  rw [SnappyFramed.maskedCrc32c, slice_zero, List.take_length]
  exact hne.symm

end

/-- A writer that compresses nothing, with the checksum of the library. -/
def rawWriter : FrameWriter :=
  { literalPlatform with crc32c := PureJavaCrc32C.crc32c, acceptable := fun _ _ => false }

/-- The frame of `[1, 2]` with a 3 in place of the 2. -/
def changedFrame : Frame :=
  ⟨SnappyFramed.uncompressedDataFlag, (rawWriter.frame [1, 2]).body.take 4 ++ [1, 3]⟩

/-- A stream with small buffers in front of that frame. -/
def beforeChanged : SnappyFramedInputStream :=
  { initial ⟨changedFrame.encode, [3, 0, 2]⟩ true with
    input := some ⟨0, newArray 8⟩, uncompressedDirect := some ⟨1, newArray 8⟩
    buffer := some ⟨2, newArray 8⟩, allocations := 3 }

theorem corrupted_refused_changedFrame :
    changedFrame.header = (rawWriter.frame [1, 2]).header ∧
      SnappyFramed.maskedCrc32c rawWriter.crc32c changedFrame.payload 0
        changedFrame.payload.length ≠ changedFrame.checkSum ∧
      wp (ensureBuffer rawWriter.toPlatform) (fun _ _ => False)
        (fun e _ => Suffice changedFrame beforeChanged →
          e = .ioException "Corrupt input: invalid checksum") beforeChanged :=
  @corrupted_refused rawWriter rawWriter.toPlatform [1, 2] changedFrame rfl rfl (by decide)
    (by decide) rfl
    (.payload rfl rfl ⟨[1], [2], [3], [], rfl, rfl, rfl, by decide, by decide⟩) []
    beforeChanged
    ⟨rfl, rfl, rfl, Nat.le_refl 0, (List.append_nil _).symm⟩

end SnappyFramedInputStream

end SnappyJava
