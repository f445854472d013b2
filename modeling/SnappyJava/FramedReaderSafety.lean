import SnappyJava.BlockReaderSafety
import SnappyJava.FrameInvariants
import SnappyJava.LiteralCodec

/-! The memory a `SnappyFramedInputStream` hands to the native decompressor, for
any input, any pool and any calls. -/

namespace SnappyJava.SnappyFramedInputStream

open Exec Memory Words

/-- Each call of the native decompressor has had enough room exactly if the
block declares a length that the Java code can see; and the destination has an
`int` for its capacity. -/
structure Measured (s : SnappyFramedInputStream) : Prop where
  calls : ∀ c ∈ s.uncompressCalls, c.Fits ↔ c.Signed
  room : ∀ l, s.uncompressedDirect = some l → l.contents.length < 2 ^ 31

/-- It speaks of the destination and the record only. -/
theorem Measured.frame {s t : SnappyFramedInputStream} (h : Measured s)
    (hcalls : t.uncompressCalls = s.uncompressCalls)
    (hdest : t.uncompressedDirect.map (·.contents.length) =
      s.uncompressedDirect.map (·.contents.length)) : Measured t := by
  refine ⟨by rw [hcalls]; exact h.calls, fun l hl => ?_⟩
  rw [hl] at hdest
  cases hd : s.uncompressedDirect with
  | none => simp [hd] at hdest
  | some d =>
    have hlen : l.contents.length = d.contents.length := by simpa [hd] using hdest
    rw [hlen]
    exact h.room d hd

section
variable {platform : Platform} {s : SnappyFramedInputStream}

theorem handling_measured : Handling Measured Measured where
  leaves _ h := h
  same h hst := h.frame hst.uncompressCalls <| by
    have hdest := congrArg (Option.map Prod.snd) hst.uncompressedDirect
    simpa only [Option.map_map, Function.comp_def] using hdest
  use _ h := h.frame rfl rfl

theorem keeps_releaseField (field : SnappyFramedInputStream → Option Lease) :
    Keeps Measured (releaseField field) := fun s h =>
  wp_releaseField_gaveBack <| by
    cases field s with
    | none => exact h
    | some l => exact h.frame rfl rfl

/-- The destination is a buffer that the pool has just handed out. -/
theorem Measured.allocated (h : Measured s) {l : Lease} (hl : l.contents.length < 2 ^ 31) :
    Measured { s with uncompressedDirect := some l } :=
  ⟨h.calls, fun _ hl' => Option.some.inj hl' ▸ hl⟩

theorem keeps_basedOnSize (hpool : platform.bufferPool.Contract) (size : Nat) :
    Keeps Measured (allocateBuffersBasedOnSize platform size) := by
  refine Keeps.bind (keeps_releaseField _) fun _ => Keeps.bind (keeps_releaseField _) fun _ =>
    Keeps.bind (keeps_releaseField _) fun _ => ?_
  intro s h
  simp only [wp_bind, wp_modify]
  refine wp_allocate_cases (fun i _ => ?_) (fun _ => h.frame rfl rfl)
  refine wp_allocate_cases (fun d hd => ?_) (fun _ => h.frame rfl rfl)
  have hlt := (hpool.direct _ _ _ hd).2
  refine wp_allocate_cases (fun b _ => ?_) (fun _ => ?_)
  · exact (h.allocated (l := ⟨s.allocations + 1, d⟩) hlt).frame rfl rfl
  · exact (h.allocated (l := ⟨s.allocations + 1, d⟩) hlt).frame rfl rfl

/-- In larger buffers the block fits. -/
theorem wp_reallocateForBlock_measured (hpool : platform.bufferPool.Contract) (h : Measured s)
    (n : Nat) :
    wp (reallocateForBlock platform n)
      (fun _ t => Measured t ∧ ∀ l, t.uncompressedDirect = some l → n ≤ l.contents.length)
      (fun _ t => Measured t) s := by
  simp only [reallocateForBlock, wp_bind, wp_modify]
  refine wp_mono (keeps_releaseField _ s h) (fun _ t ht => ?_) (fun _ _ ht => ht)
  refine wp_mono (keeps_releaseField _ t ht) (fun _ u hu => ?_) (fun _ _ hu => hu)
  refine wp_allocate_cases (fun d hd => ?_) (fun _ => hu.frame rfl rfl)
  obtain ⟨hle, hlt⟩ := hpool.direct _ _ _ hd
  refine wp_allocate_cases (fun b _ => ?_) (fun _ => ?_)
  · refine ⟨(hu.allocated (l := ⟨u.allocations, d⟩) hlt).frame rfl rfl, fun l hl => ?_⟩
    rw [← Option.some.inj hl]
    exact hle
  · exact (hu.allocated (l := ⟨u.allocations, d⟩) hlt).frame rfl rfl

/-- A call of the decompressor whose destination has room for the signed
length is recorded rightly. -/
theorem wp_uncompress_measured (h : Measured s) {payload : Bytes} {n : Int}
    (hn : Snappy.uncompressedLength platform.codec payload = .ok n)
    (hroom : ∀ l, s.uncompressedDirect = some l → n ≤ l.contents.length) :
    wp (uncompress platform.codec payload) (fun _ => Measured) (fun _ => Measured) s := by
  simp only [uncompress, wp_bind, wp_modify]
  refine wp_access_has (fun i _ => ?_) (fun _ => h)
  refine wp_access_has (fun l hl => ?_) (fun _ => h.frame rfl rfl)
  have hlen := Snappy.length_uncompress platform.codec payload l.contents
  have hlt := h.room l hl
  have hcalled : Measured { (s.used i.id).used l.id with
      uncompressedDirect := some ⟨l.id, (Snappy.uncompress platform.codec payload l.contents).2⟩
      uncompressCalls := s.uncompressCalls ++
        [⟨(platform.codec.getUncompressedLength payload).getD 0, l.contents.length⟩] } := by
    refine ⟨fun c hc => ?_, fun l' hl' => ?_⟩
    · rcases List.mem_append.mp hc with hc | hc
      · exact h.calls c hc
      · rw [List.mem_singleton.mp hc]
        exact Snappy.uncompress_fits_iff hn (hroom l hl) hlt
    · rw [← Option.some.inj hl', hlen]
      exact hlt
  cases (Snappy.uncompress platform.codec payload l.contents).1 with
  | error e => exact hcalled
  | ok n => exact hcalled

/-- Where the block is too large for the destination, a larger one comes first. -/
theorem keeps_uncompressFrame (hpool : platform.bufferPool.Contract) (payload : Bytes) :
    Keeps Measured (uncompressFrame platform payload) := by
  have hrest : ∀ n, Keeps Measured (do
      modify fun s => { s with valid := n }
      let d ← access SnappyFramedInputStream.uncompressedDirect
      copyToBuffer (d.contents.take n)
      modify fun s => { s with position := 0 } : Method Unit) := by
    intro n
    refine Upholds.bind (Upholds.update fun _ ht => ht.frame rfl rfl) fun _ => ?_
    refine Upholds.bind (handling_measured.access fun _ _ hl => .inr (.inl hl)) fun _ => ?_
    exact Upholds.bind (handling_measured.copyToBuffer _) fun _ =>
      Upholds.update fun _ ht => ht.frame rfl rfl
  intro s h
  simp only [uncompressFrame, wp_bind]
  refine wp_access_has (fun i _ => ?_) (fun _ => h)
  have hused : Measured (s.used i.id) := h.frame rfl rfl
  cases hn : Snappy.uncompressedLength platform.codec payload with
  | error e => exact hused
  | ok n =>
    have hcall : ∀ t, Measured t → (∀ l, t.uncompressedDirect = some l → n ≤ l.contents.length) →
        wp (uncompress platform.codec payload >>= fun n => (do
          modify fun s => { s with valid := n }
          let d ← access SnappyFramedInputStream.uncompressedDirect
          copyToBuffer (d.contents.take n)
          modify fun s => { s with position := 0 } : Method Unit))
          (fun _ => Measured) (fun _ => Measured) t := by
      intro t ht hroom
      rw [wp_bind]
      exact wp_mono (wp_uncompress_measured ht hn hroom) (fun n u hu => hrest n u hu)
        (fun _ _ hu => hu)
    simp only [wp_fromExcept_ok, wp_get, wp_when]
    split
    · refine wp_mono (wp_reallocateForBlock_measured hpool hused n.toNat) ?_ (fun _ _ ht => ht)
      rintro - t ⟨ht, hroom⟩
      have hnext := hcall t ht fun l hl => by
        have := hroom l hl
        omega
      simpa only [wp_bind] using hnext
    · rename_i hfits
      have hnext := hcall _ hused fun l hl => by
        have hcap : capacity (s.used i.id).uncompressedDirect = l.contents.length := by
          rw [hl]
          rfl
        omega
      simpa only [wp_bind] using hnext

theorem keeps_close (sourceFails : Bool) : Keeps Measured (close sourceFails) := by
  have hfinally : Keeps Measured (do
      let s ← get
      when (s.closed = false) do
        modify fun s => { s with closed := true }
        releaseField SnappyFramedInputStream.input
        modify fun s => { s with input := none }
        releaseField SnappyFramedInputStream.uncompressedDirect
        modify fun s => { s with uncompressedDirect := none }
        releaseField SnappyFramedInputStream.buffer
        modify fun s => { s with buffer := none } : Method Unit) := by
    refine Keeps.bind Keeps.get fun _ => Keeps.when ?_
    refine Keeps.bind (Keeps.update fun _ ht => ht.frame rfl rfl) fun _ => ?_
    refine Keeps.bind (keeps_releaseField _) fun _ =>
      Keeps.bind (Keeps.update fun _ ht => ht.frame rfl rfl) fun _ => ?_
    refine Keeps.bind (keeps_releaseField _) fun _ =>
      Keeps.bind (Keeps.update fun _ ht => ⟨ht.calls, fun _ hl => nomatch hl⟩) fun _ => ?_
    exact Keeps.bind (keeps_releaseField _) fun _ => Keeps.update fun _ ht => ht.frame rfl rfl
  exact Keeps.ensuring (Keeps.ite (Keeps.throw _) (Keeps.pure _)) hfinally

theorem upkeep_measured (hpool : platform.bufferPool.Contract) :
    Upkeep platform Measured Measured :=
  { handling_measured with
    basedOnSize := keeps_basedOnSize hpool
    uncompressFrame := keeps_uncompressFrame hpool
    close := keeps_close }

/-- Every call, a transfer to a channel included, which uses no native code of its
own. -/
theorem keeps_perform (hpool : platform.bufferPool.Contract) (c : ReadCall) :
    Keeps Measured (perform platform c) := by
  have h := upkeep_measured hpool
  by_cases hc : ∃ wbc, c = .transferToChannel wbc
  · obtain ⟨wbc, rfl⟩ := hc
    have htransfer : Keeps (fun p : SnappyFramedInputStream × WritableByteChannel => Measured p.1)
        (transferToChannel platform) := by
      refine Keeps.bind Keeps.get fun p => Keeps.ite (Keeps.throw _) ?_
      cases p.1.buffer with
      | none => exact Keeps.throw _
      | some l =>
        refine Keeps.loop (fun total q hq => ?_) _ _
        refine h.wp_transferToChannelRound hq ?_
        exact wp_mono (wp_true _ _) (fun _ _ _ _ ht => ht.frame rfl rfl) (fun _ _ h => h)
    intro s hs
    simp only [perform, wp_bind, wp_withLocal, wp_pure]
    exact wp_mono (htransfer (s, wbc) hs) (fun _ _ hp => hp) (fun _ _ hp => hp)
  · exact h.perform fun wbc heq => hc ⟨wbc, heq⟩

theorem measured_initial (rbc : Source) (verifyChecksums : Bool) :
    Measured (initial rbc verifyChecksums) := ⟨by simp [initial], by simp [initial]⟩

theorem keeps_init_measured (hpool : platform.bufferPool.Contract) : Keeps Measured (init platform) := by
  refine Keeps.bind (keeps_basedOnSize hpool _) fun _ =>
    Keeps.bind ((upkeep_measured hpool).onRbc _) fun _ => Keeps.ite (Keeps.throw _) ?_
  exact Keeps.ite (Keeps.throw _) (Keeps.pure _)

end

/-- In every run over any input, the native decompressor has room at every call
if and only if no block it is given has lost the sign of its length. -/
theorem openRun_fits_iff {platform : Platform} (hpool : platform.bufferPool.Contract) (rbc : Source)
    (verifyChecksums : Bool) (calls : List ReadCall) :
    wp (openRun platform calls)
      (fun _ t => (∀ c ∈ t.uncompressCalls, c.Fits) ↔ ∀ c ∈ t.uncompressCalls, c.Signed)
      (fun _ t => (∀ c ∈ t.uncompressCalls, c.Fits) ↔ ∀ c ∈ t.uncompressCalls, c.Signed)
      (initial rbc verifyChecksums) := by
  have hiff : ∀ t, Measured t →
      ((∀ c ∈ t.uncompressCalls, c.Fits) ↔ ∀ c ∈ t.uncompressCalls, c.Signed) :=
    fun t ht => forall₂_congr ht.calls
  have hkeeps : Keeps Measured (openRun platform calls) :=
    Keeps.bind (keeps_init_measured hpool) fun _ => Keeps.runOn (keeps_perform hpool) _
  exact wp_mono (hkeeps _ (measured_initial rbc verifyChecksums)) (fun _ t ht => hiff t ht)
    (fun _ t ht => hiff t ht)

end SnappyJava.SnappyFramedInputStream

namespace SnappyJava

open Exec

/-- Neither reader hands the native decompressor too little room, in any run over
any input, if and only if every block that comes to it declares less than 2^31
bytes. -/
theorem uncompress_fits_iff_signed {platform : Platform} (hpool : platform.bufferPool.Contract)
    (codec : Codec) (input : Source) (maxChunkSize : Int) (verifyChecksums : Bool)
    (calls : List SnappyInputStream.ReadCall) (framedCalls : List SnappyFramedInputStream.ReadCall) :
    wp (SnappyInputStream.openRun codec calls)
      (fun _ t => (∀ c ∈ t.uncompressCalls, c.Fits) ↔ ∀ c ∈ t.uncompressCalls, c.Signed)
      (fun _ t => (∀ c ∈ t.uncompressCalls, c.Fits) ↔ ∀ c ∈ t.uncompressCalls, c.Signed)
      (SnappyInputStream.initial input maxChunkSize) ∧
    wp (SnappyFramedInputStream.openRun platform framedCalls)
      (fun _ t => (∀ c ∈ t.uncompressCalls, c.Fits) ↔ ∀ c ∈ t.uncompressCalls, c.Signed)
      (fun _ t => (∀ c ∈ t.uncompressCalls, c.Fits) ↔ ∀ c ∈ t.uncompressCalls, c.Signed)
      (SnappyFramedInputStream.initial input verifyChecksums) :=
  ⟨SnappyInputStream.openRun_fits_iff codec input maxChunkSize calls,
    SnappyFramedInputStream.openRun_fits_iff hpool input verifyChecksums framedCalls⟩

/-- A chunk of one byte, and a chunk whose block declares 2^31 bytes. -/
def unsignedChunk : Source :=
  ⟨SnappyCodec.currentHeader.headerArray ++ [0, 0, 0, 3, 1, 0, 7] ++
    [0, 0, 0, 5, 0x80, 0x80, 0x80, 0x80, 0x08], []⟩

theorem uncompress_fits_iff_signed_unsignedChunk :
    wp (SnappyInputStream.openRun literalCodec [.readByte, .readByte])
      (fun _ t => (∀ c ∈ t.uncompressCalls, c.Fits) ↔ ∀ c ∈ t.uncompressCalls, c.Signed)
      (fun _ t => (∀ c ∈ t.uncompressCalls, c.Fits) ↔ ∀ c ∈ t.uncompressCalls, c.Signed)
      (SnappyInputStream.initial unsignedChunk 536870912) ∧
    wp (SnappyFramedInputStream.openRun literalPlatform [.readByte])
      (fun _ t => (∀ c ∈ t.uncompressCalls, c.Fits) ↔ ∀ c ∈ t.uncompressCalls, c.Signed)
      (fun _ t => (∀ c ∈ t.uncompressCalls, c.Fits) ↔ ∀ c ∈ t.uncompressCalls, c.Signed)
      (SnappyFramedInputStream.initial unsignedChunk true) :=
  uncompress_fits_iff_signed QuiescentBufferPool.builtIn.reliable.toContract literalCodec unsignedChunk
    536870912 true [.readByte, .readByte] [.readByte]

/-- The second chunk is decompressed into the array of the first, which has one
byte. -/
theorem unsignedChunk_not_fits :
    wp (SnappyInputStream.openRun literalCodec [.readByte, .readByte]) (fun _ _ => False)
      (fun e t => e = .memoryFault .rawUncompress ∧ ¬ ∀ c ∈ t.uncompressCalls, c.Fits)
      (SnappyInputStream.initial unsignedChunk 536870912) := by
  decide +kernel

end SnappyJava
