import SnappyJava.FramedWriterCalls

/-! Whole runs of a `SnappyFramedOutputStream`: the calls made on it, the data
they carry, and what the channel has received when a flush or the close returns. -/

namespace SnappyJava.SnappyFramedOutputStream

open Exec Memory Words Blocks

namespace WriteCall

/-- The data of a call, or `none` where the call ends a segment. -/
def part : WriteCall → Option Bytes
  | .writeByte x => some [toByte x]
  | .write input offset length => some (slice input offset.toNat length.toNat)
  | .writeBuffer src => some src.content
  | .transferFromStream source => some source.data
  | .transferFromChannel source => some source.data
  | .flush => none

def bytes (c : WriteCall) : Bytes := c.part.getD []

/-- Arrays, buffers and lengths have `int` sizes. -/
def Sized : WriteCall → Prop
  | .write input _ length => input.length < 2 ^ 31 ∧ length < 2 ^ 31
  | .writeBuffer src => src.capacity < 2 ^ 31
  | _ => True

/-- The range is inside the array. -/
def InRange : WriteCall → Prop
  | .write input offset length => RangeOk input offset length
  | _ => True

instance : DecidablePred Sized
  | .write _ _ _ => inferInstanceAs (Decidable (_ ∧ _))
  | .writeBuffer src => inferInstanceAs (Decidable (src.capacity < 2 ^ 31))
  | .writeByte _ => inferInstanceAs (Decidable True)
  | .transferFromStream _ => inferInstanceAs (Decidable True)
  | .transferFromChannel _ => inferInstanceAs (Decidable True)
  | .flush => inferInstanceAs (Decidable True)

instance : DecidablePred InRange
  | .write _ _ _ => inferInstanceAs (Decidable (RangeOk _ _ _))
  | .writeBuffer _ => inferInstanceAs (Decidable True)
  | .writeByte _ => inferInstanceAs (Decidable True)
  | .transferFromStream _ => inferInstanceAs (Decidable True)
  | .transferFromChannel _ => inferInstanceAs (Decidable True)
  | .flush => inferInstanceAs (Decidable True)

/-- Made when `current` has been written since the last flush, the call computes
no limit beyond an `int`. -/
def FitsAfter (b : Nat) (current : Bytes) : WriteCall → Prop
  | .writeBuffer src => Fits b (b - current.length % b) src
  | _ => True

/-- What a call returns that has taken all its data. -/
def Returns : WriteCall → WriteResult → Prop
  | .writeBuffer src, r => r = .written src.remaining src.ended
  | .transferFromStream source, r =>
    ∃ rest, r = .transferred source.data.length rest ∧ rest.data = []
  | .transferFromChannel source, r =>
    ∃ rest, r = .transferred source.data.length rest ∧ rest.data = []
  | _, r => r = .done

end WriteCall

/-- The data since the last flush, after `current` and one more call. -/
def since (current : Bytes) (c : WriteCall) : Bytes :=
  match c.part with
  | none => []
  | some xs => current ++ xs

/-- No call of a run computes a limit beyond an `int`. -/
def AllFit (b : Nat) : Bytes → List WriteCall → Prop
  | _, [] => True
  | current, c :: calls => c.FitsAfter b current ∧ AllFit b (since current c) calls

theorem advance_snd (b : Nat) (g : List Bytes × Bytes) (c : WriteCall) :
    (advance b g c.part).2 = since g.2 c := by
  unfold since
  cases c.part <;> rfl

section
variable {w : FrameWriter} {b : Nat} {c₀ : WritableByteChannel} {done : List Bytes}
  {current : Bytes} {s : SnappyFramedOutputStream}

/-- One call. It takes all its data and returns, or throws with a first part
taken. -/
theorem wp_perform (hc : w.codec.Bounded) (hsteady : c₀.Steady) {g : List Bytes × Bytes}
    (h : Writing w b c₀ g.1 g.2 s) {c : WriteCall} (hs : c.Sized) :
    wp (perform w c)
      (fun r t => (c.InRange ∧ c.FitsAfter b g.2) ∧ c.Returns r ∧
        Writing w b c₀ (advance b g c.part).1 (advance b g c.part).2 t)
      (fun e t => (¬ (c.InRange ∧ c.FitsAfter b g.2) ∧ ¬ e.Fatal) ∧
        ∃ n, Writing w b c₀ g.1 (g.2 ++ c.bytes.take n) t) s := by
  cases c with
  | writeByte x =>
    simp only [perform, wp_bind, wp_pure]
    apply wp_writeByte hc hsteady h
    exact fun t ht => ⟨⟨trivial, trivial⟩, rfl, ht⟩
  | write input offset length =>
    simp only [perform, wp_bind, wp_pure]
    by_cases hok : RangeOk input offset length
    · apply wp_write hc hsteady h hok hs.1
      exact fun t ht => ⟨⟨hok, trivial⟩, rfl, ht⟩
    · apply wp_write_error h hok hs.1 hs.2
      exact ⟨⟨fun hin => hok hin.1, id⟩, 0, by simpa using h⟩
  | writeBuffer src =>
    simp only [perform, withCaller, wp_bind, wp_withLocal]
    apply wp_writeBuffer hc hsteady h hs
    · exact fun t hfits ht => ⟨⟨trivial, hfits⟩, rfl, ht⟩
    · exact fun _ n p hbad hp => ⟨⟨fun hin => hbad hin.2, id⟩, n, hp⟩
  | transferFromStream source =>
    simp only [perform, withCaller, wp_bind, wp_withLocal]
    apply wp_transferFromBy hc hsteady h readsInto_readArray
    exact fun t rest ht hrest => ⟨⟨trivial, trivial⟩, ⟨rest, rfl, hrest⟩, ht⟩
  | transferFromChannel source =>
    simp only [perform, withCaller, wp_bind, wp_withLocal]
    apply wp_transferFromBy hc hsteady h readsInto_readChannel
    exact fun t rest ht hrest => ⟨⟨trivial, trivial⟩, ⟨rest, rfl, hrest⟩, ht⟩
  | flush =>
    simp only [perform, flush, wp_bind, wp_get, wp_ite, wp_pure, h.toOpen.notClosed,
      Bool.false_eq_true, if_false]
    apply wp_flushBuffer_writing hc hsteady h
    exact fun t ht => ⟨⟨trivial, trivial⟩, rfl, .inl ht⟩

/-- A run returns just when every call of it fits. -/
theorem wp_run (hc : w.codec.Bounded) (hsteady : c₀.Steady) {calls : List WriteCall}
    (hcalls : ∀ c ∈ calls, c.Sized ∧ c.InRange) {g : List Bytes × Bytes}
    (h : Writing w b c₀ g.1 g.2 s) :
    wp (run w calls)
      (fun rs t => AllFit b g.2 calls ∧ List.Forall₂ WriteCall.Returns calls rs ∧
        Writing w b c₀ ((calls.map WriteCall.part).foldl (advance b) g).1
          ((calls.map WriteCall.part).foldl (advance b) g).2 t)
      (fun _ _ => ¬ AllFit b g.2 calls) s := by
  unfold run
  induction calls generalizing g s with
  | nil => exact ⟨trivial, .nil, h⟩
  | cons c calls ih =>
    have hfirst := hcalls c (by simp)
    simp only [runAll, wp_bind, wp_pure]
    refine wp_mono (wp_perform hc hsteady h hfirst.1) ?_ ?_
    · rintro r t ⟨⟨-, hfits⟩, hr, ht⟩
      have hrest := ih (fun c hc' => hcalls c (by simp [hc'])) ht
      rw [advance_snd] at hrest
      refine wp_mono hrest ?_ ?_
      · rintro rs u ⟨hall, hrs, hu⟩
        exact ⟨⟨hfits, hall⟩, .cons hr hrs, hu⟩
      · exact fun _ _ hbad hall => hbad hall.2
    · rintro e t ⟨⟨hbad, -⟩, -⟩ hall
      exact hbad ⟨hfirst.2, hall.1⟩

theorem wp_flush (hc : w.codec.Bounded) (hsteady : c₀.Steady) (h : Writing w b c₀ done current s)
    {Q : Unit → SnappyFramedOutputStream → Prop} {E : Throwable → SnappyFramedOutputStream → Prop}
    (hQ : ∀ t, Ready w b c₀ (done ++ blocks b current) [] t → Q () t) :
    wp (flush w) Q E s := by
  simp only [flush, wp_bind, wp_get, wp_ite, h.toOpen.notClosed, Bool.false_eq_true, if_false]
  exact wp_flushBuffer_writing hc hsteady h hQ

/-- `close` sends what is left, and then closes the channel. -/
theorem wp_close (hc : w.codec.Bounded) (hsteady : c₀.Steady) (h : Writing w b c₀ done current s)
    {Q : Unit → SnappyFramedOutputStream → Prop} {E : Throwable → SnappyFramedOutputStream → Prop}
    (hQ : ∀ t, c₀.closeFails = false → c₀.Sent ((done ++ blocks b current).flatMap w.pieces) t.out →
      Q () t)
    (hE : ∀ t, c₀.closeFails = true → E .underlyingException t) :
    wp (close w) Q E s := by
  simp only [close, WritableByteChannel.close, wp_bind, wp_get, wp_ite, h.toOpen.notClosed,
    Bool.false_eq_true, if_false, wp_ensuring, wp_zoom, wp_modify, wp_throw, wp_pure]
  apply wp_flush hc hsteady h
  intro t ht
  obtain ⟨-, hsent⟩ := ht.sent_of_nil
  have hfails := hsent.closeFails_eq
  split
  · rename_i hf
    exact hE _ (hfails.symm.trans hf)
  · rename_i hf
    exact hQ _ (by rw [← hfails]; simpa using hf) ⟨hsent.1, hsent.2, hfails⟩

/-- A stream just constructed has sent the stream identifier. -/
theorem ready_of_new (hpool : w.bufferPool.Contract) {out : WritableByteChannel} {blockSize : Int}
    (hnew : new w out blockSize = .ok s) :
    Ready w blockSize.toNat (out.after SnappyFramed.headerBytes) [] [] s := by
  have hM : maxBlockSize = 65536 := rfl
  rw [new] at hnew
  split at hnew
  · cases hnew
  · rename_i hrange
    have hlen : (Snappy.maxCompressedLength blockSize).toNat =
        32 + blockSize.toNat + blockSize.toNat / 6 := by
      have h := Snappy.maxCompressedLength_natCast (n := blockSize.toNat) (by omega)
      rw [Int.toNat_of_nonneg (by omega)] at h
      omega
    have hwrite : wp WritableByteChannel.write (fun _ p => p.1 = out.after SnappyFramed.headerBytes)
        (fun _ _ => True) (out, ByteBuffer.wrap SnappyFramed.headerBytes) :=
      WritableByteChannel.wp_write (fun _ _ => rfl) (fun _ _ => trivial)
    simp only [bind, Except.bind] at hnew
    cases harray : w.bufferPool.allocateArray 0 blockSize.toNat with
    | error e => simp only [harray, reduceCtorEq] at hnew
    | ok array =>
      have hfit := (hpool.array _ _ _ harray).1
      simp only [harray, dif_pos hfit] at hnew
      cases hdirect : w.bufferPool.allocateDirect 1 blockSize.toNat with
      | error e => simp only [hdirect, reduceCtorEq] at hnew
      | ok direct =>
        simp only [hdirect] at hnew
        cases houtput : w.bufferPool.allocateDirect 2
            (Snappy.maxCompressedLength blockSize).toNat with
        | error e => simp only [houtput, reduceCtorEq] at hnew
        | ok output =>
          simp only [houtput] at hnew
          split at hnew
          · rename_i n p hrun
            cases hnew
            exact {
              blockSize_eq := rfl, pos := by omega, le_max := by omega, le_capacity := hfit
              limit_le := le_refl _, limit_pos := by dsimp only; omega, capacity_header := rfl
              le_direct := (hpool.direct _ _ _ hdirect).1
              le_output := hlen ▸ (hpool.direct _ _ _ houtput).1
              notClosed := rfl, limit_eq := rfl
              sent := ⟨[], Cut.nil _, wp_ok hwrite hrun ▸ WritableByteChannel.Sent.nil _⟩ }
          · cases hnew

/-- The constructor makes one write and releases nothing. -/
theorem out_of_new {out : WritableByteChannel} {blockSize : Int} (hnew : new w out blockSize = .ok s) :
    s.out = out.after SnappyFramed.headerBytes ∧ s.released = [] := by
  have hwrite : wp WritableByteChannel.write (fun _ p => p.1 = out.after SnappyFramed.headerBytes)
      (fun _ _ => True) (out, ByteBuffer.wrap SnappyFramed.headerBytes) :=
    WritableByteChannel.wp_write (fun _ _ => rfl) (fun _ _ => trivial)
  simp only [new, bind, Except.bind] at hnew
  split at hnew
  · cases hnew
  split at hnew
  · cases hnew
  split at hnew
  · split at hnew
    · cases hnew
    split at hnew
    · cases hnew
    split at hnew
    · rename_i hrun
      have hout := wp_ok hwrite hrun
      cases hnew
      exact ⟨hout, rfl⟩
    · cases hnew
  · cases hnew

/-- Over a channel that takes the identifier, the constructor returns. -/
theorem new_ready (hpool : w.bufferPool.Reliable) {out : WritableByteChannel}
    (hout : out.fails = false) {blockSize : Int} (hpos : 0 < blockSize)
    (hmax : blockSize ≤ maxBlockSize) :
    ∃ s, new w out blockSize = .ok s ∧
      Ready w blockSize.toNat (out.after SnappyFramed.headerBytes) [] [] s := by
  have hM : maxBlockSize = 65536 := rfl
  have hlen := Snappy.maxCompressedLength_natCast (n := blockSize.toNat) (by omega)
  rw [Int.toNat_of_nonneg hpos.le] at hlen
  obtain ⟨array, harray⟩ := hpool.array_ok 0 blockSize.toNat (by omega)
  obtain ⟨direct, hdirect⟩ := hpool.direct_ok 1 blockSize.toNat (by omega)
  obtain ⟨output, houtput⟩ := hpool.direct_ok 2 (Snappy.maxCompressedLength blockSize).toNat
    (by omega)
  obtain ⟨n, p, hwrite, -⟩ := exists_of_wp (WritableByteChannel.wp_write
    (c := out) (b := ByteBuffer.wrap SnappyFramed.headerBytes) (Q := fun _ _ => True)
    (E := fun _ _ => False) (fun _ _ => trivial)
    (fun _ hf => by rw [hout] at hf; exact absurd hf (by decide)))
  have hnew : ∃ s, new w out blockSize = .ok s := by
    rw [new, if_neg (by omega), harray]
    simp only [bind, Except.bind, dif_pos (hpool.array _ _ _ harray).1, hdirect, houtput, hwrite]
    exact ⟨_, rfl⟩
  obtain ⟨s, hs⟩ := hnew
  exact ⟨s, hs, ready_of_new hpool.toContract hs⟩

/-! ## What the channel has received -/

/-- The calls, then `flush`. -/
def runFlush (w : FrameWriter) (calls : List WriteCall) : Method (List WriteResult) := do
  let results ← run w calls
  flush w
  pure results

/-- The calls, then `close`. -/
def runClose (w : FrameWriter) (calls : List WriteCall) : Method (List WriteResult) := do
  let results ← run w calls
  close w
  pure results

/-- The blocks of the data of the calls. -/
def blocksOf (b : Nat) (calls : List WriteCall) : List Bytes :=
  (segments (calls.map WriteCall.part)).flatMap (blocks b)

/-- The stream identifier, and one frame for every block. -/
def reference (w : FrameWriter) (b : Nat) (calls : List WriteCall) : Bytes :=
  SnappyFramed.headerBytes ++ (blocksOf b calls).flatMap fun x => (w.frame x).encode

/-- The writes that the channel is offered. -/
def writes (w : FrameWriter) (b : Nat) (calls : List WriteCall) : List Bytes :=
  SnappyFramed.headerBytes :: (blocksOf b calls).flatMap w.pieces

theorem flatten_flatMap_pieces (w : FrameWriter) (xs : List Bytes) :
    (xs.flatMap w.pieces).flatten = xs.flatMap fun x => (w.frame x).encode := by
  induction xs with
  | nil => rfl
  | cons x xs ih =>
    rw [List.flatMap_cons, List.flatten_append, FrameWriter.flatten_pieces, ih, List.flatMap_cons]

theorem flatten_writes (w : FrameWriter) (b : Nat) (calls : List WriteCall) :
    (writes w b calls).flatten = reference w b calls := by
  rw [writes, List.flatten_cons, flatten_flatMap_pieces, reference]

/-- After the identifier and then the frames, the channel has had all writes. -/
theorem sent_writes {c c' : WritableByteChannel} {w : FrameWriter} {calls : List WriteCall}
    (h : (c.after SnappyFramed.headerBytes).Sent ((blocksOf b calls).flatMap w.pieces) c') :
    c'.received = c.received ++ WritableByteChannel.deliver c.responses (writes w b calls) := by
  have hone := (WritableByteChannel.Sent.nil c).after SnappyFramed.headerBytes
  rw [h.received_eq, hone.received_eq, hone.responses_eq, List.append_assoc, writes,
    ← WritableByteChannel.deliver_append]
  rfl

section
variable {calls : List WriteCall} (hcalls : ∀ c ∈ calls, c.Sized ∧ c.InRange)
include hcalls

theorem wp_runFlush (hc : w.codec.Bounded) (hsteady : c₀.Steady) (h : Writing w b c₀ done [] s) :
    wp (runFlush w calls)
      (fun rs t => AllFit b [] calls ∧ List.Forall₂ WriteCall.Returns calls rs ∧
        c₀.Sent ((done ++ blocksOf b calls).flatMap w.pieces) t.out)
      (fun _ _ => ¬ AllFit b [] calls) s := by
  simp only [runFlush, wp_bind, wp_pure]
  refine wp_mono (wp_run hc hsteady hcalls (g := (done, [])) h) ?_ (fun _ _ h => h)
  rintro rs t ⟨hall, hrs, ht⟩
  apply wp_flush hc hsteady ht
  intro u hu
  rw [advance_nil_blocks] at hu
  exact ⟨hall, hrs, hu.sent_of_nil.2⟩

theorem wp_runClose (hc : w.codec.Bounded) (hsteady : c₀.Steady) (h : Writing w b c₀ done [] s) :
    wp (runClose w calls)
      (fun rs t => AllFit b [] calls ∧ List.Forall₂ WriteCall.Returns calls rs ∧
        c₀.Sent ((done ++ blocksOf b calls).flatMap w.pieces) t.out)
      (fun _ _ => AllFit b [] calls → c₀.closeFails = true) s := by
  simp only [runClose, wp_bind, wp_pure]
  refine wp_mono (wp_run hc hsteady hcalls (g := (done, [])) h) ?_
    (fun _ _ hbad hall => absurd hall hbad)
  rintro rs t ⟨hall, hrs, ht⟩
  apply wp_close hc hsteady ht
  · intro u _ hu
    rw [advance_nil_blocks] at hu
    exact ⟨hall, hrs, hu⟩
  · exact fun _ hf _ => hf

end

end

/-- A writer over the codec without copies, with the ratio 0.85. -/
def literalWriter : FrameWriter :=
  { literalPlatform with acceptable := fun compressedLength length =>
      100 * compressedLength ≤ 85 * length }

/-! ## The reference encoding -/

/-- The calls and the close return, each call has taken its source whole, and
the channel has received the reference encoding. -/
def Encodes (w : FrameWriter) (calls : List WriteCall) (s : SnappyFramedOutputStream) : Prop :=
  ∃ rs t, (runClose w calls).run s = .ok rs t ∧ List.Forall₂ WriteCall.Returns calls rs ∧
    t.out.received = reference w s.blockSize calls

section
variable {w : FrameWriter} {blockSize : Int} {calls : List WriteCall}

section
variable {s : SnappyFramedOutputStream} {b : Nat} {c₀ : WritableByteChannel}
  (hcalls : ∀ c ∈ calls, c.Sized ∧ c.InRange)
include hcalls

/-- If the calls return, none has computed a limit beyond an `int`. -/
theorem Encodes.allFit (hc : w.codec.Bounded) (hsteady : c₀.Steady) (h : Writing w b c₀ [] [] s)
    (hencodes : Encodes w calls s) : AllFit b [] calls := by
  obtain ⟨rs, t, hrun, -⟩ := hencodes
  exact (wp_ok (wp_runClose hcalls hc hsteady h) hrun).1

/-- If none does, the calls return, and the channel has had the identifier and then
the frames. -/
theorem encodes_of_allFit (hc : w.codec.Bounded)
    (h : Ready w b (WritableByteChannel.reliable.after SnappyFramed.headerBytes) [] [] s)
    (hall : AllFit b [] calls) : Encodes w calls s := by
  have hclose := wp_runClose hcalls hc (fun _ hr => absurd hr List.not_mem_nil) (.inl h)
  obtain ⟨rs, t, hrun, -, hrs, ht⟩ := exists_of_wp
    (wp_mono hclose (fun _ _ h => h) (fun _ _ h => Bool.noConfusion (h hall)))
  refine ⟨rs, t, hrun, hrs, ?_⟩
  rw [h.blockSize_eq, sent_writes ht, ← flatten_writes]
  simp [WritableByteChannel.reliable]

end

/-- All write paths emit the same stream: what the channel holds when `close`
returns depends on the data and the flushes only. The exception is a
`write(ByteBuffer)` that adds the block size to a position and exceeds an `int`:
it throws. -/
theorem encodes_iff (hc : w.codec.Bounded) (hpool : w.bufferPool.Reliable)
    (hpos : 0 < blockSize) (hmax : blockSize ≤ 65536) (hcalls : ∀ c ∈ calls, c.Sized ∧ c.InRange) :
    ∃ s, new w .reliable blockSize = .ok s ∧
      (Encodes w calls s ↔ AllFit blockSize.toNat [] calls) := by
  obtain ⟨s, hs, hready⟩ := @new_ready w hpool .reliable rfl blockSize hpos hmax
  exact ⟨s, hs, Encodes.allFit hcalls hc (fun _ hr => absurd hr List.not_mem_nil) (.inl hready),
    encodes_of_allFit hcalls hc hready⟩

theorem encodes_iff_four_paths :
    ∃ s, new literalWriter .reliable 2 = .ok s ∧
      (Encodes literalWriter [.write [1, 2, 3] 1 2, .writeByte 4, .flush,
          .writeBuffer (.wrap [5, 6, 7]), .transferFromStream ⟨[8, 9], [1]⟩] s ↔
        AllFit 2 [] [.write [1, 2, 3] 1 2, .writeByte 4, .flush,
          .writeBuffer (.wrap [5, 6, 7]), .transferFromStream ⟨[8, 9], [1]⟩]) :=
  encodes_iff LiteralCodec.lawful.toBounded QuiescentBufferPool.builtIn.reliable (by decide)
    (by decide) (by decide)

/-- With the default block size, a buffer over an array of 2^31 - 65536 bytes:
the limit of the last round would be 2^31. -/
theorem large_buffer_not_encodes :
    ∃ s, new literalWriter .reliable 65536 = .ok s ∧
      ¬ Encodes literalWriter [.writeBuffer (.wrap (newArray (2 ^ 31 - 65536)))] s := by
  have hlarge : ∀ n, 2 ^ 31 - 65536 ≤ n → n < 2 ^ 31 →
      ∃ s, new literalWriter .reliable 65536 = .ok s ∧
        ¬ Encodes literalWriter [.writeBuffer (.wrap (newArray n))] s := by
    intro n hle hlt
    have hcalls : ∀ c ∈ [WriteCall.writeBuffer (.wrap (newArray n))], c.Sized ∧ c.InRange := by
      intro c hc
      obtain rfl := List.mem_singleton.mp hc
      refine ⟨?_, trivial⟩
      rwa [WriteCall.Sized, ByteBuffer.capacity_wrap, length_newArray]
    have hfits : ¬ Fits 65536 65536 (.wrap (newArray n)) := by
      rw [Fits, ByteBuffer.remaining_wrap, ByteBuffer.position_wrap, length_newArray]
      omega
    obtain ⟨s, hs, hready⟩ := @new_ready literalWriter QuiescentBufferPool.builtIn.reliable
      .reliable rfl 65536 (by decide) (by decide)
    exact ⟨s, hs, fun h => hfits (Encodes.allFit hcalls LiteralCodec.lawful.toBounded
      (fun _ hr => absurd hr List.not_mem_nil) (.inl hready) h).1⟩
  exact hlarge _ (le_refl _) (by decide)

/-! ## Short writes -/

/-- Nothing is missing at the channel exactly when it takes every write whole:
the stream identifier, each header and each payload. -/
theorem received_iff_takesAll (hc : w.codec.Bounded) (hpool : w.bufferPool.Reliable)
    {c : WritableByteChannel} (hsteady : c.Steady) (hpos : 0 < blockSize) (hmax : blockSize ≤ 65536)
    (hcalls : ∀ c ∈ calls, c.Sized ∧ c.InRange) :
    ∃ s, new w c blockSize = .ok s ∧
      wp (runFlush w calls)
        (fun _ t => t.out.received = c.received ++ reference w blockSize.toNat calls ↔
          WritableByteChannel.TakesAll c.responses (writes w blockSize.toNat calls))
        (fun _ _ => ¬ AllFit blockSize.toNat [] calls) s ∧
      wp (runClose w calls)
        (fun _ t => t.out.received = c.received ++ reference w blockSize.toNat calls ↔
          WritableByteChannel.TakesAll c.responses (writes w blockSize.toNat calls))
        (fun _ _ => AllFit blockSize.toNat [] calls → c.closeFails = true) s := by
  obtain ⟨s, hs, hready⟩ := new_ready hpool (WritableByteChannel.Sent.nil c |>.fails_eq hsteady)
    hpos hmax
  have hsteady' : (c.after SnappyFramed.headerBytes).Steady :=
    fun r hr => hsteady r (List.mem_of_mem_tail hr)
  have hiff : ∀ out : WritableByteChannel, (c.after SnappyFramed.headerBytes).Sent
      ((blocksOf blockSize.toNat calls).flatMap w.pieces) out →
      (out.received = c.received ++ reference w blockSize.toNat calls ↔
        WritableByteChannel.TakesAll c.responses (writes w blockSize.toNat calls)) := by
    intro out hout
    rw [sent_writes hout, ← flatten_writes, List.append_cancel_left_eq,
      WritableByteChannel.deliver_eq_flatten_iff]
  refine ⟨s, hs, ?_, ?_⟩
  · exact wp_mono (wp_runFlush hcalls hc hsteady' (.inl hready)) (fun _ t ht => hiff t.out ht.2.2)
      (fun _ _ h => h)
  · exact wp_mono (wp_runClose hcalls hc hsteady' (.inl hready)) (fun _ t ht => hiff t.out ht.2.2)
      (fun _ _ h => h)

end

/-- A channel that takes three of the eight bytes of the first frame header. -/
def shortChannel : WritableByteChannel := ⟨[], [(10, false), (3, false)], false, 0⟩

theorem received_iff_takesAll_shortChannel :
    ∃ s, new literalWriter shortChannel 4 = .ok s ∧
      wp (runFlush literalWriter [.write [1, 2] 0 2])
        (fun _ t => t.out.received =
            shortChannel.received ++ reference literalWriter 4 [.write [1, 2] 0 2] ↔
          WritableByteChannel.TakesAll shortChannel.responses
            (writes literalWriter 4 [.write [1, 2] 0 2]))
        (fun _ _ => ¬ AllFit 4 [] [.write [1, 2] 0 2]) s ∧
      wp (runClose literalWriter [.write [1, 2] 0 2])
        (fun _ t => t.out.received =
            shortChannel.received ++ reference literalWriter 4 [.write [1, 2] 0 2] ↔
          WritableByteChannel.TakesAll shortChannel.responses
            (writes literalWriter 4 [.write [1, 2] 0 2]))
        (fun _ _ => AllFit 4 [] [.write [1, 2] 0 2] → shortChannel.closeFails = true) s :=
  received_iff_takesAll LiteralCodec.lawful.toBounded QuiescentBufferPool.builtIn.reliable
    (by unfold WritableByteChannel.Steady; decide) (by decide) (by decide) (by decide)

/-- The flush returns, and five bytes of the header are missing. -/
theorem shortChannel_header_cut :
    ∃ s rs t, new literalWriter shortChannel 4 = .ok s ∧
      (runFlush literalWriter [.write [1, 2] 0 2]).run s = .ok rs t ∧
      t.out.received ≠ shortChannel.received ++ reference literalWriter 4 [.write [1, 2] 0 2] := by
  have hsteady : (shortChannel.after SnappyFramed.headerBytes).Steady := by
    unfold WritableByteChannel.Steady
    decide
  obtain ⟨s, hs, hready⟩ := @new_ready literalWriter QuiescentBufferPool.builtIn.reliable
    shortChannel rfl 4 (by decide) (by decide)
  obtain ⟨rs, t, hrun, -, -, ht⟩ := exists_of_wp (wp_mono
    (@wp_runFlush literalWriter 4 _ [] s [.write [1, 2] 0 2] (by decide)
      LiteralCodec.lawful.toBounded hsteady (.inl hready))
    (fun _ _ h => h) (fun _ _ hbad => hbad ⟨trivial, trivial⟩))
  refine ⟨s, rs, t, hs, hrun, ?_⟩
  rw [sent_writes ht, ← flatten_writes, Ne, List.append_cancel_left_eq,
    WritableByteChannel.deliver_eq_flatten_iff]
  decide

end SnappyJava.SnappyFramedOutputStream
