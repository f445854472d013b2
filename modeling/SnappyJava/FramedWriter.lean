import SnappyJava.Lib.Blocks
import SnappyJava.SnappyFramedOutputStream

/-! What a `SnappyFramedOutputStream` hands to its channel, and where a failing
channel leaves it. A frame is two writes, a header and a payload, and the
channel may take any first part of each. -/

namespace SnappyJava

open Exec Memory Words

/-! ## Channels that take a part of what they are offered -/

namespace WritableByteChannel

/-- What the channel takes of `xs` at its next write, and whether it then throws. -/
def accepted (c : WritableByteChannel) (xs : Bytes) : Bytes :=
  xs.take (c.responses.head?.getD (xs.length, false)).1

def fails (c : WritableByteChannel) : Bool := (c.responses.head?.getD (0, false)).2

/-- The channel after a write of `xs`. -/
def after (c : WritableByteChannel) (xs : Bytes) : WritableByteChannel :=
  { c with received := c.received ++ c.accepted xs, responses := c.responses.tail }

theorem length_accepted_le (c : WritableByteChannel) (xs : Bytes) :
    (c.accepted xs).length ≤ xs.length := by
  rw [accepted, List.length_take]
  exact Nat.min_le_right _ _

theorem wp_write {c : WritableByteChannel} {b : ByteBuffer}
    {Q : Nat → WritableByteChannel × ByteBuffer → Prop}
    {E : Throwable → WritableByteChannel × ByteBuffer → Prop}
    (hQ : ∀ h, c.fails = false →
      Q (c.accepted b.content).length (c.after b.content, b.take (c.accepted b.content).length h))
    (hE : ∀ h, c.fails = true → E .underlyingException
      (c.after b.content, b.take (c.accepted b.content).length h)) :
    wp write Q E (c, b) := by
  have hlen := b.length_content
  have hle : (c.accepted b.content).length ≤ b.remaining := by
    rw [← hlen]
    exact c.length_accepted_le _
  have hslice : ∀ n, n ≤ b.remaining → slice b.array b.position n = b.content.take n := by
    intro n hn
    rw [ByteBuffer.content, slice, slice, List.take_take, Nat.min_eq_left hn]
  have hn : (c.accepted b.content).length =
      min (c.responses.head?.getD (b.remaining, false)).1 b.remaining := by
    rw [accepted, List.length_take, hlen]
  have hacc : slice b.array b.position
      (min (c.responses.head?.getD (b.remaining, false)).1 b.remaining) = c.accepted b.content := by
    rw [hslice _ (Nat.min_le_right _ _), accepted, hlen, ← hlen, ← List.take_eq_take_min]
  have hfails : (c.responses.head?.getD (b.remaining, false)).2 = c.fails := by
    rw [fails]
    cases c.responses <;> rfl
  have hQ' := hQ hle
  have hE' := hE hle
  simp only [hn] at hQ' hE'
  simp only [write, wp_bind, wp_get, wp_set, wp_ite, wp_throw, wp_pure, hacc, hfails]
  split
  · rename_i hf
    exact hE' hf
  · rename_i hf
    exact hQ' (by simpa using hf)

end WritableByteChannel

/-! ## Frames -/

namespace FrameWriter

variable (w : FrameWriter)

/-- Whether the block `x` is written in its compressed form. -/
def chosen (x : Bytes) : Bool := w.acceptable (w.codec.compress x).length x.length

def payload (x : Bytes) : Bytes := if w.chosen x then w.codec.compress x else x

def header (x : Bytes) : Bytes :=
  SnappyFramedOutputStream.frameHeader (w.chosen x) (w.payload x).length
    (SnappyFramed.mask (w.crc32c x))

/-- The writes that make up the frame of `x`. -/
def pieces (x : Bytes) : List Bytes := [w.header x, w.payload x]

/-- The frame of the block `x`. -/
def frame (x : Bytes) : Frame := Frame.ofBlock w.toPlatform (w.chosen x) (w.payload x) x

@[simp] theorem length_header (x : Bytes) : (w.header x).length = 8 := by
  simp [header, SnappyFramedOutputStream.frameHeader]

theorem encode_frame (x : Bytes) : (w.frame x).encode = w.header x ++ w.payload x := by
  have hlen := Frame.length_body_ofBlock w.toPlatform (w.chosen x) (w.payload x) x
  simp only [frame, Frame.encode, Frame.header, hlen, header,
    SnappyFramedOutputStream.frameHeader, Frame.flag_ofBlock]
  simp [Frame.ofBlock]

theorem flatten_pieces (x : Bytes) : (w.pieces x).flatten = (w.frame x).encode := by
  rw [encode_frame]
  simp [pieces]

theorem encode_frame_ne_nil (x : Bytes) : (w.frame x).encode ≠ [] := by
  rw [encode_frame]
  simp [header, SnappyFramedOutputStream.frameHeader]

theorem decodes_payload (hc : w.codec.Lawful) {x : Bytes} (hx : x.length < 2 ^ 31) :
    Frame.Decodes w.codec (w.chosen x) (w.payload x) x := by
  unfold payload
  cases w.chosen x with
  | true => exact hc.rawUncompress_compress x hx
  | false => rfl

theorem data_frame (hc : w.codec.Lawful) {x : Bytes} (hx : x.length < 2 ^ 31) :
    (w.frame x).data w.codec = x := Frame.data_ofBlock (w.decodes_payload hc hx)

end FrameWriter

namespace SnappyFramedOutputStream

/-! ## The shape of an open stream -/

/-- An open stream with block size `b`, also after a failure. -/
structure Open (b : Nat) (s : SnappyFramedOutputStream) : Prop where
  blockSize_eq : s.blockSize = b
  pos : 0 < b
  le_max : b ≤ maxBlockSize
  le_capacity : b ≤ s.buffer.capacity
  limit_le : s.buffer.limit ≤ b
  limit_pos : 0 < s.buffer.limit
  capacity_header : s.headerBuffer.capacity = 8
  le_direct : b ≤ s.directInputBuffer.capacity
  le_output : 32 + b + b / 6 ≤ s.outputBuffer.capacity
  notClosed : s.closed = false

/-- The bytes put into `buffer` and not yet written. -/
def pending (s : SnappyFramedOutputStream) : Bytes := s.buffer.array.take s.buffer.position

theorem length_pending (s : SnappyFramedOutputStream) :
    (pending s).length = s.buffer.position := by
  have h₁ := s.buffer.position_le
  have h₂ := s.buffer.limit_le
  simp only [pending, List.length_take]
  omega

/-- Where a flush of `s` that failed has left the stream: the data is still in
`buffer`, the limit behind it, the position at `k`. -/
structure Failed (b : Nat) (s : SnappyFramedOutputStream) (k : Nat) (t : SnappyFramedOutputStream) :
    Prop extends Open b t where
  array_eq : t.buffer.array = s.buffer.array
  position_eq : t.buffer.position = k
  limit_eq : t.buffer.limit = s.buffer.position
  taken_eq : t.taken = s.taken
  released_eq : t.released = s.released

section
variable {w : FrameWriter} {b : Nat} {s : SnappyFramedOutputStream}

/-- The buffer `d` after a write to a channel that took `n` bytes of it. -/
def Advanced (d : ByteBuffer) (n : Nat) (d' : ByteBuffer) : Prop :=
  d'.array = d.array ∧ d'.limit = d.limit ∧ d'.position = d.position + n

theorem wp_writeOut {get : SnappyFramedOutputStream → ByteBuffer}
    {put : ByteBuffer → SnappyFramedOutputStream → SnappyFramedOutputStream}
    {Q : Unit → SnappyFramedOutputStream → Prop} {E : Throwable → SnappyFramedOutputStream → Prop}
    (hQ : ∀ d, Advanced (get s) (s.out.accepted (get s).content).length d → s.out.fails = false →
      Q () (put d { s with out := s.out.after (get s).content }))
    (hE : ∀ d, Advanced (get s) (s.out.accepted (get s).content).length d → s.out.fails = true →
      E .underlyingException (put d { s with out := s.out.after (get s).content })) :
    wp (writeOut get put) Q E s := by
  simp only [writeOut, wp_bind, wp_zoom, wp_pure]
  exact WritableByteChannel.wp_write (fun h hf => hQ _ ⟨rfl, rfl, rfl⟩ hf)
    (fun h hf => hE _ ⟨rfl, rfl, rfl⟩ hf)

/-- The buffer that `writeBlock` is given. -/
def dataBuffer (compressed : Bool) (s : SnappyFramedOutputStream) : ByteBuffer :=
  if compressed then s.outputBuffer else s.buffer

def putData (compressed : Bool) (d : ByteBuffer) (s : SnappyFramedOutputStream) :
    SnappyFramedOutputStream :=
  if compressed then { s with outputBuffer := d } else { s with buffer := d }

/-- The header goes to its buffer, then header and data go to the channel. -/
theorem wp_writeBlock {compressed : Bool} {crc32c : BitVec 32} (hcap : s.headerBuffer.capacity = 8)
    {hdr : Bytes} (hhdr : frameHeader compressed (dataBuffer compressed s).remaining crc32c = hdr)
    {Q : Unit → SnappyFramedOutputStream → Prop} {E : Throwable → SnappyFramedOutputStream → Prop}
    (hHeader : ∀ header : ByteBuffer, header.capacity = 8 → s.out.fails = true →
      E .underlyingException { s with headerBuffer := header, out := s.out.after hdr })
    (hQ : ∀ header d : ByteBuffer, header.capacity = 8 → Advanced (dataBuffer compressed s)
        ((s.out.after hdr).accepted (dataBuffer compressed s).content).length d →
      s.out.fails = false → (s.out.after hdr).fails = false →
      Q () (putData compressed d { s with
        headerBuffer := header
        out := (s.out.after hdr).after (dataBuffer compressed s).content }))
    (hPayload : ∀ header d : ByteBuffer, header.capacity = 8 → Advanced (dataBuffer compressed s)
        ((s.out.after hdr).accepted (dataBuffer compressed s).content).length d →
      s.out.fails = false → (s.out.after hdr).fails = true →
      E .underlyingException (putData compressed d { s with
        headerBuffer := header
        out := (s.out.after hdr).after (dataBuffer compressed s).content })) :
    wp (writeBlock compressed crc32c) Q E s := by
  have hroom : hdr.length ≤ s.headerBuffer.clear.remaining := by
    have hclear : s.headerBuffer.clear.remaining = 8 := hcap
    rw [hclear, ← hhdr]
    simp [frameHeader]
  have hput : s.headerBuffer.clear.put hdr = .ok (s.headerBuffer.clear.store hdr hroom) :=
    dif_pos hroom
  have hcontent : (s.headerBuffer.clear.store hdr hroom).flip.content = hdr := by
    rw [ByteBuffer.content_flip_store]
    simp [ByteBuffer.content_flip, ByteBuffer.clear]
  have hcap' : (s.headerBuffer.clear.store hdr hroom).flip.capacity = 8 :=
    (ByteBuffer.capacity_store s.headerBuffer.clear hdr hroom).trans hcap
  generalize (s.headerBuffer.clear.store hdr hroom) = filled at hput hcontent hcap'
  have hkeep : ∀ d, Advanced filled.flip (s.out.accepted hdr).length d → d.capacity = 8 := by
    intro d hd
    rw [ByteBuffer.capacity, hd.1]
    exact hcap'
  simp only [writeBlock, wp_bind, wp_get]
  rw [show (if compressed then s.outputBuffer else s.buffer) = dataBuffer compressed s from rfl,
    hhdr, hput]
  simp only [wp_fromExcept_ok, wp_set, wp_ite]
  apply wp_writeOut
  · intro d hd hf
    dsimp only at hd hf ⊢
    rw [hcontent] at hd ⊢
    have hc := hkeep d hd
    cases compressed with
    | true =>
      simp only [if_true]
      apply wp_writeOut
      · exact fun d' hd' hf' => hQ d d' hc hd' hf hf'
      · exact fun d' hd' hf' => hPayload d d' hc hd' hf hf'
    | false =>
      simp only [Bool.false_eq_true, if_false]
      apply wp_writeOut
      · exact fun d' hd' hf' => hQ d d' hc hd' hf hf'
      · exact fun d' hd' hf' => hPayload d d' hc hd' hf hf'
  · intro d hd hf
    dsimp only at hd hf ⊢
    rw [hcontent] at hd ⊢
    exact hHeader d (hkeep d hd) hf

/-- Compression into the output buffer, which is large enough for every block. -/
theorem compressDirect_clear {codec : Codec} (hc : codec.Bounded) {x : Bytes} {b : Nat}
    (hx : x.length ≤ b) (hb : b ≤ maxBlockSize) {input output : ByteBuffer}
    (hin : input.content = x) (hout : 32 + b + b / 6 ≤ output.capacity) :
    ∃ d, Snappy.compressDirect codec input output.clear = .ok d ∧
      d.content = codec.compress x ∧ d.capacity = output.capacity := by
  have hM : maxBlockSize = 65536 := rfl
  have hlen := hc.length_compress_le x (by omega)
  have hfit : output.clear.position + (codec.compress x).length ≤ output.clear.array.length := by
    have hcap : output.clear.array.length = output.capacity := rfl
    rw [hcap, ByteBuffer.clear, ByteBuffer.position_wrap]
    omega
  simp only [Snappy.compressDirect, hin, dif_pos hfit]
  refine ⟨_, rfl, ?_, length_splice hfit⟩
  simp only [ByteBuffer.content, ByteBuffer.remaining, Nat.add_sub_cancel_left]
  exact slice_splice (by omega)

/-- A flush of pending data writes one frame and empties the buffer. Where the
channel fails, the limit stays behind the data, and the position at its end if
the data was compressed; if not, at its beginning, moved by what the channel has
taken. -/
theorem wp_flushBuffer (hc : w.codec.Bounded) (h : Open b s) (hpos : 0 < s.buffer.position)
    {x : Bytes} (hx : pending s = x)
    {Q : Unit → SnappyFramedOutputStream → Prop} {E : Throwable → SnappyFramedOutputStream → Prop}
    (hQ : ∀ t, Open b t → t.buffer.position = 0 → t.buffer.limit = b → t.taken = s.taken →
      t.released = s.released → s.out.fails = false → (s.out.after (w.header x)).fails = false →
      t.out = (s.out.after (w.header x)).after (w.payload x) → Q () t)
    (hHeader : ∀ t, Failed b s (if w.chosen x then x.length else 0) t → s.out.fails = true →
      t.out = s.out.after (w.header x) → E .underlyingException t)
    (hPayload : ∀ t, Failed b s (if w.chosen x then x.length
        else ((s.out.after (w.header x)).accepted x).length) t →
      s.out.fails = false → (s.out.after (w.header x)).fails = true →
      t.out = (s.out.after (w.header x)).after (w.payload x) → E .underlyingException t) :
    wp (flushBuffer w) Q E s := by
  have hlen := length_pending s
  have hple := s.buffer.position_le
  have hlim := h.limit_le
  rw [hx] at hlen
  have hcontent : s.buffer.flip.content = x := hx
  have hroom : x.length ≤ s.directInputBuffer.clear.remaining := by
    have hcap : s.directInputBuffer.clear.remaining = s.directInputBuffer.capacity := rfl
    have := h.le_direct
    omega
  have hput : s.directInputBuffer.clear.put x = .ok (s.directInputBuffer.clear.store x hroom) :=
    dif_pos hroom
  have hdirect : (s.directInputBuffer.clear.store x hroom).flip.content = x := by
    rw [ByteBuffer.content_flip_store]
    simp [ByteBuffer.content_flip, ByteBuffer.clear]
  have hdcap : b ≤ (s.directInputBuffer.clear.store x hroom).flip.capacity := by
    have := ByteBuffer.capacity_store s.directInputBuffer.clear x hroom
    exact h.le_direct.trans_eq this.symm
  generalize (s.directInputBuffer.clear.store x hroom) = filled at hput hdirect hdcap
  obtain ⟨compressed, hcomp, hccontent, hccap⟩ :=
    compressDirect_clear hc (by omega : x.length ≤ b) h.le_max hdirect h.le_output
  have hcrem : compressed.remaining = (w.codec.compress x).length := by
    rw [← ByteBuffer.length_content, hccontent]
  have hrem : s.buffer.flip.remaining = x.length := by rw [ByteBuffer.remaining_flip, hlen]
  have hcrc : SnappyFramed.maskedCrc32c w.crc32c s.buffer.flip.array 0 x.length =
      SnappyFramed.mask (w.crc32c x) := by
    rw [SnappyFramed.maskedCrc32c, slice_zero, hlen]
    exact congrArg (fun y => SnappyFramed.mask (w.crc32c y)) hx
  -- what stays of the stream after either write
  have hdone : ∀ (header d : ByteBuffer) (out : WritableByteChannel) (output : ByteBuffer),
      header.capacity = 8 → 32 + b + b / 6 ≤ output.capacity → d.array = s.buffer.array →
      s.out.fails = false → (s.out.after (w.header x)).fails = false →
      out = (s.out.after (w.header x)).after (w.payload x) →
      wp (do
          let t ← get
          let limited ← fromExcept (t.buffer.clear.setLimit t.blockSize)
          set { t with buffer := limited } : Method Unit) Q E
        { s with
          buffer := d, directInputBuffer := filled.flip, headerBuffer := header
          outputBuffer := output, out } := by
    intro header d out output hheader houtput hd hf hf' hout
    have hle : s.blockSize ≤ d.array.length := by
      rw [hd, h.blockSize_eq]
      exact h.le_capacity
    simp only [wp_bind, wp_get, ByteBuffer.clear, ByteBuffer.setLimit_wrap hle, wp_fromExcept_ok,
      wp_set]
    refine hQ _ ?_ rfl h.blockSize_eq rfl rfl hf hf' hout
    exact { h with
      le_capacity := by
        have := h.le_capacity
        rwa [ByteBuffer.capacity, ← hd] at this
      limit_le := Nat.le_of_eq h.blockSize_eq
      limit_pos := h.pos.trans_eq h.blockSize_eq.symm
      capacity_header := hheader, le_direct := hdcap, le_output := houtput }
  have hfailed : ∀ (header d : ByteBuffer) (out : WritableByteChannel) (output : ByteBuffer)
      (k : Nat), header.capacity = 8 → 32 + b + b / 6 ≤ output.capacity →
      d.array = s.buffer.array → d.limit = s.buffer.position → d.position = k →
      Failed b s k { s with
        buffer := d, directInputBuffer := filled.flip, headerBuffer := header
        outputBuffer := output, out } := by
    intro header d out output k hheader houtput hd hl hk
    exact ⟨{ h with
        le_capacity := by
          have := h.le_capacity
          rwa [ByteBuffer.capacity, ← hd] at this
        limit_le := by rw [hl]; omega
        limit_pos := by rw [hl]; exact hpos
        capacity_header := hheader, le_direct := hdcap, le_output := houtput },
      hd, hk, hl, rfl, rfl⟩
  simp only [flushBuffer, writeCompressed, wp_bind, wp_get, wp_when, if_pos hpos, wp_set,
    hcontent, hput, wp_fromExcept_ok, hcomp, wp_modify, wp_ite, hrem, hcrc, hcrem]
  rw [show w.acceptable (w.codec.compress x).length x.length = w.chosen x from rfl]
  cases hch : w.chosen x with
  | true =>
    have hpay : w.codec.compress x = w.payload x := by rw [FrameWriter.payload, if_pos hch]
    rw [hpay] at hccontent hcrem
    have hhdr : frameHeader true compressed.remaining (SnappyFramed.mask (w.crc32c x)) =
        w.header x := by
      rw [hcrem, FrameWriter.header, hch]
    have houtput : ∀ d, Advanced compressed
        ((s.out.after (w.header x)).accepted compressed.content).length d →
        32 + b + b / 6 ≤ d.capacity := by
      intro d hd
      have := h.le_output
      rwa [ByteBuffer.capacity, hd.1, ← ByteBuffer.capacity, hccap]
    have hposition : s.buffer.flip.ended.position = x.length := hlen.symm
    simp only [hch, if_true] at hHeader hPayload ⊢
    apply wp_writeBlock (by exact h.capacity_header) (by exact hhdr)
    · intro header hheader hf
      exact hHeader _ (hfailed _ _ _ _ _ hheader (hccap ▸ h.le_output) rfl rfl hposition) hf rfl
    · intro header d hheader hd hf hf'
      have hlast := hdone header s.buffer.flip.ended _ d hheader (houtput d hd) rfl hf hf'
        (congrArg (s.out.after (w.header x)).after hccontent)
      simp only [wp_bind, wp_get, wp_set] at hlast
      exact hlast
    · intro header d hheader hd hf hf'
      exact hPayload _ (hfailed _ _ _ _ _ hheader (houtput d hd) rfl rfl hposition) hf hf'
        (congrArg (s.out.after (w.header x)).after hccontent)
  | false =>
    have hpay : w.payload x = x := by
      rw [FrameWriter.payload, hch]
      rfl
    have hflip : s.buffer.flip.ended.flip = s.buffer.flip := rfl
    have hhdr : frameHeader false s.buffer.flip.remaining (SnappyFramed.mask (w.crc32c x)) =
        w.header x := by
      rw [hrem, FrameWriter.header, hch, hpay]
    simp only [hch, Bool.false_eq_true, if_false] at hHeader hPayload ⊢
    rw [hflip]
    have houtput : 32 + b + b / 6 ≤ compressed.capacity := hccap ▸ h.le_output
    apply wp_writeBlock (by exact h.capacity_header) (by exact hhdr)
    · intro header hheader hf
      exact hHeader _ (hfailed _ _ _ _ _ hheader houtput rfl rfl rfl) hf rfl
    · intro header d hheader hd hf hf'
      have hlast := hdone header d _ compressed hheader houtput hd.1 hf hf'
        (congrArg (s.out.after (w.header x)).after (hcontent.trans hpay.symm))
      simp only [wp_bind, wp_get, wp_set] at hlast
      exact hlast
    · intro header d hheader hd hf hf'
      have hposition : d.position = ((s.out.after (w.header x)).accepted x).length := by
        have hmoved := hd.2.2
        rw [show dataBuffer false _ = s.buffer.flip from rfl, hcontent,
          show s.buffer.flip.position = 0 from rfl, Nat.zero_add] at hmoved
        exact hmoved
      exact hPayload _ (hfailed _ _ _ _ _ hheader houtput hd.1 hd.2.1 hposition) hf hf'
        (congrArg (s.out.after (w.header x)).after (hcontent.trans hpay.symm))

end

end SnappyFramedOutputStream

end SnappyJava
