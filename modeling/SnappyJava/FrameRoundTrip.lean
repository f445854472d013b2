import SnappyJava.FrameReads
import SnappyJava.FramedWriterRuns

/-! What a `SnappyFramedOutputStream` has written, a `SnappyFramedInputStream`
reads: over any two pools that honour their contract, for any calls on either
side, at every flush, and for several outputs behind one another. -/

namespace SnappyJava

open Exec Memory Words Blocks

namespace SnappyFramedOutputStream

/-! ## What a run has written -/

/-- `data` is what the calls took: all the data of a call that returned, and a
first part of that of a call that threw. -/
def Took : List WriteCall → List (Except Throwable WriteResult) → Bytes → Prop
  | [], [], data => data = []
  | c :: calls, r :: results, data => ∃ first rest, data = first ++ rest ∧ first <+: c.bytes ∧
      (∀ a, r = .ok a → first = c.bytes) ∧ Took calls results rest
  | _, _, _ => False

/-- The calls, the caller going on after an exception, and then a flush or the
close, which returns. -/
def runToEnd (w : FrameWriter) (closes : Bool) (calls : List WriteCall) :
    Method (List (Except Throwable WriteResult)) := do
  let results ← runOn Throwable.Fatal (perform w) calls
  if closes then close w else flush w
  pure results

section
variable {w : FrameWriter} {b : Nat} {c₀ : WritableByteChannel} {s : SnappyFramedOutputStream}

/-- The blocks that have been completed are such as `blocks` makes. -/
structure Progress (w : FrameWriter) (b : Nat) (c₀ : WritableByteChannel) (data : Bytes)
    (g : List Bytes × Bytes) (s : SnappyFramedOutputStream) : Prop where
  data_eq : g.1.flatten ++ g.2 = data
  block : ∀ x ∈ g.1, x ≠ [] ∧ x.length ≤ b
  writing : Writing w b c₀ g.1 g.2 s

theorem Progress.append {data xs : Bytes} {g : List Bytes × Bytes} (h : Progress w b c₀ data g s)
    {t : SnappyFramedOutputStream} (ht : Writing w b c₀ g.1 (g.2 ++ xs) t) :
    Progress w b c₀ (data ++ xs) (g.1, g.2 ++ xs) t :=
  ⟨by rw [← h.data_eq, List.append_assoc], h.block, ht⟩

/-- Completing the blocks of the data since the last flush. -/
theorem Progress.complete {data : Bytes} {g : List Bytes × Bytes} (h : Progress w b c₀ data g s) :
    (g.1 ++ blocks b g.2).flatten = data ∧ ∀ x ∈ g.1 ++ blocks b g.2, x ≠ [] ∧ x.length ≤ b := by
  have hb := h.writing.toOpen.pos
  refine ⟨?_, ?_⟩
  · rw [List.flatten_append, flatten_blocks hb, h.data_eq]
  · intro x hx
    rcases List.mem_append.mp hx with hx | hx
    · exact h.block x hx
    · exact ⟨ne_nil_of_mem_blocks hb hx, length_le_of_mem_blocks hb hx⟩

theorem Progress.step {data : Bytes} {g : List Bytes × Bytes} (h : Progress w b c₀ data g s)
    {c : WriteCall} {t : SnappyFramedOutputStream}
    (ht : Writing w b c₀ (advance b g c.part).1 (advance b g c.part).2 t) :
    Progress w b c₀ (data ++ c.bytes) (advance b g c.part) t := by
  unfold WriteCall.bytes
  cases hp : c.part with
  | none =>
    rw [hp] at ht
    obtain ⟨hflat, hblock⟩ := h.complete
    exact ⟨by simpa [advance] using hflat, hblock, ht⟩
  | some xs =>
    rw [hp] at ht
    exact h.append ht

/-- A run in which calls may throw has taken some data, and never breaks off. -/
theorem wp_runOn_progress (hc : w.codec.Bounded) (hsteady : c₀.Steady) {calls : List WriteCall}
    (hcalls : ∀ c ∈ calls, c.Sized) {data : Bytes} {g : List Bytes × Bytes}
    (h : Progress w b c₀ data g s) :
    wp (runOn Throwable.Fatal (perform w) calls)
      (fun rs t => ∃ more g', Took calls rs more ∧ Progress w b c₀ (data ++ more) g' t)
      (fun _ _ => False) s := by
  induction calls generalizing data g s with
  | nil => exact ⟨[], g, rfl, by simpa using h⟩
  | cons c calls ih =>
    have hrest := fun {data' g' t} => @ih t (fun c hc' => hcalls c (by simp [hc'])) data' g'
    simp only [runOn, wp_bind, wp_attempt, wp_ite, wp_throw, wp_pure]
    refine wp_mono (wp_perform hc hsteady h.writing (hcalls c (by simp))) ?_ ?_
    · rintro r t ⟨-, -, ht⟩
      refine wp_mono (hrest (h.step ht)) ?_ (fun _ _ h => h)
      rintro rs u ⟨more, g', htook, hu⟩
      rw [List.append_assoc] at hu
      exact ⟨c.bytes ++ more, g', ⟨c.bytes, more, rfl, List.prefix_refl _, fun _ _ => rfl, htook⟩, hu⟩
    · rintro e t ⟨⟨-, hfatal⟩, n, ht⟩
      rw [if_neg hfatal]
      refine wp_mono (hrest (h.append ht)) ?_ (fun _ _ h => h)
      rintro rs u ⟨more, g', htook, hu⟩
      rw [List.append_assoc] at hu
      exact ⟨c.bytes.take n ++ more, g', ⟨c.bytes.take n, more, rfl, List.take_prefix n _,
        (fun _ hr => by cases hr), htook⟩, hu⟩

/-- What the sink holds at the end is the identifier and the frames of blocks
that make up the data. -/
theorem wp_runToEnd (hc : w.codec.Bounded) (hsteady : c₀.Steady) (hclose : c₀.closeFails = false)
    {calls : List WriteCall} (hcalls : ∀ c ∈ calls, c.Sized) (h : Writing w b c₀ [] [] s)
    (closes : Bool) :
    wp (runToEnd w closes calls)
      (fun rs t => ∃ xs : List Bytes, Took calls rs xs.flatten ∧
        (∀ x ∈ xs, x ≠ [] ∧ x.length ≤ b) ∧ c₀.Sent (xs.flatMap w.pieces) t.out)
      (fun _ _ => False) s := by
  have hstart : Progress w b c₀ [] ([], []) s := ⟨rfl, by simp, h⟩
  simp only [runToEnd, wp_bind, wp_ite, wp_pure]
  refine wp_mono (wp_runOn_progress hc hsteady hcalls hstart) ?_ (fun _ _ h => h)
  rintro rs t ⟨data, g, htook, ht⟩
  obtain ⟨hflat, hblock⟩ := ht.complete
  rw [List.nil_append] at hflat
  rw [← hflat] at htook
  split
  · apply wp_close hc hsteady ht.writing
    · exact fun u _ hu => ⟨_, htook, hblock, hu⟩
    · intro u hf
      rw [hclose] at hf
      cases hf
  · apply wp_flush hc hsteady ht.writing
    exact fun u hu => ⟨_, htook, hblock, hu.sent_of_nil.2⟩

end

end SnappyFramedOutputStream

/-! ## Reading it back -/

namespace SnappyFramedInputStream

/-- A frame as the writer emits it. -/
structure Readable (platform : Platform) (f : Frame) : Prop extends Accepted platform f where
  body_le : f.body.length ≤ maxBlockSize + 4
  data_le : (f.data platform.codec).length ≤ maxBlockSize
  data_ne : IsData f → f.data platform.codec ≠ []

section
variable {platform : Platform}

/-- Such frames fit the first buffers, whatever the pool has rounded up. -/
theorem Capacities.roomy_of_readable {c : Capacities} (hin : maxBlockSize + 4 ≤ c.input)
    (hun : maxBlockSize ≤ c.uncompressedDirect) (hbuf : maxBlockSize ≤ c.buffer)
    {frames : List Frame} (hframes : ∀ f ∈ frames, Readable platform f) :
    c.Roomy platform frames := by
  induction frames with
  | nil => trivial
  | cons f fs ih =>
    have hbody := (hframes f (by simp)).body_le
    have hdata := (hframes f (by simp)).data_le
    have hnext : c.next platform f = c := by
      have hb : c.forBody platform.bufferPool f.body.length = c := if_neg (by omega)
      have hd : c.forBlock platform.bufferPool (f.data platform.codec).length = c :=
        if_neg (by omega)
      rw [next, hb, hd, ite_self, ite_self]
    rw [Roomy, hnext]
    exact ⟨hdata.trans hbuf, ih fun g hg => hframes g (by simp [hg])⟩

/-- They are read over any pool. -/
theorem readsAll_of_readable (hpool : platform.bufferPool.Reliable) {rbc : Source}
    (hp : rbc.Positive) {frames : List Frame} (hdata : rbc.data = Frame.stream frames)
    (hframes : ∀ f ∈ frames, Readable platform f) (v : Bool) :
    ∃ s, new platform rbc v = .ok s ∧ ReadsAll platform (contents platform.codec frames) s := by
  have hM : maxBlockSize = 65536 := rfl
  have hmax : Snappy.maxCompressedLength ((maxBlockSize + 5 : Nat) : Int) = (76496 : Nat) :=
    Snappy.maxCompressedLength_natCast (by omega)
  have hroomy : (Capacities.initial platform.bufferPool).Roomy platform frames := by
    refine Capacities.roomy_of_readable ?_ ?_ ?_ hframes
    · have := @le_answered_direct _ hpool 0 (maxBlockSize + 5) (by omega)
      dsimp only [Capacities.initial, Capacities.basedOnSize]
      omega
    · have := @le_answered_direct _ hpool (0 + 1) 76496 (by omega)
      dsimp only [Capacities.initial, Capacities.basedOnSize]
      rw [hmax, Int.toNat_natCast]
      omega
    · have := @le_answered_array _ hpool (0 + 2) 76496 (by omega)
      dsimp only [Capacities.initial, Capacities.basedOnSize]
      rw [hmax, Int.toNat_natCast]
      omega
  obtain ⟨s, hs, ha, hdone⟩ := @new_ahead platform v rbc hpool hp frames []
    (by rw [hdata, Frame.stream, List.append_nil]) (fun f hf => (hframes f hf).toAccepted) hroomy
  exact ⟨s, hs, (ha.holds hdone fun f hf => (hframes f hf).data_ne).readsAll hpool⟩

end

end SnappyFramedInputStream

/-! ## Sessions -/

/-- One use of the writer: its block size, rule and pool, the calls, and whether
`close` or only `flush` came last. -/
structure Session where
  blockSize : Int
  acceptable : Nat → Nat → Bool
  bufferPool : BufferPool
  calls : List SnappyFramedOutputStream.WriteCall
  closes : Bool

namespace Session

/-- The rule picks the compressed form only where it is no longer than the block. -/
structure Valid (x : Session) : Prop where
  blockSize_pos : 0 < x.blockSize
  blockSize_le : x.blockSize ≤ 65536
  shrinks : ∀ compressedLength length, x.acceptable compressedLength length = true →
    compressedLength ≤ length
  pool : x.bufferPool.Reliable
  sized : ∀ c ∈ x.calls, c.Sized

def writer (platform : Platform) (x : Session) : FrameWriter :=
  { platform with bufferPool := x.bufferPool, acceptable := x.acceptable }

/-- The session ends with `received` at its sink and `data` taken. -/
def Ends (platform : Platform) (x : Session) (data received : Bytes) : Prop :=
  ∃ s rs t, SnappyFramedOutputStream.new (x.writer platform) .reliable x.blockSize = .ok s ∧
    (SnappyFramedOutputStream.runToEnd (x.writer platform) x.closes x.calls).run s = .ok rs t ∧
    SnappyFramedOutputStream.Took x.calls rs data ∧ t.out.received = received

end Session

section
variable {platform : Platform}

/-- A session has written the frames of non-empty blocks of at most 65536 bytes. -/
theorem Session.ends_frames (hc : platform.codec.Lawful) {x : Session} (hx : x.Valid) :
    ∃ xs : List Bytes, (∀ y ∈ xs, y ≠ [] ∧ y.length ≤ 65536) ∧
      x.Ends platform xs.flatten (Frame.stream (xs.map (x.writer platform).frame)) := by
  have hmax := hx.blockSize_le
  obtain ⟨s, hs, hready⟩ := @SnappyFramedOutputStream.new_ready (x.writer platform) hx.pool
    .reliable rfl _ hx.blockSize_pos hmax
  obtain ⟨rs, t, hrun, xs, htook, hblock, hsent⟩ := exists_of_wp
    (@SnappyFramedOutputStream.wp_runToEnd (x.writer platform) _ _ s hc.toBounded
      (fun _ hr => absurd hr List.not_mem_nil) rfl _ hx.sized (.inl hready) x.closes)
  refine ⟨xs, fun y hy => ⟨(hblock y hy).1, ?_⟩, s, rs, t, hs, hrun, htook, ?_⟩
  · have := (hblock y hy).2
    omega
  · rw [hsent.received_eq, show (WritableByteChannel.reliable.after
      SnappyFramed.headerBytes).responses = [] from rfl, WritableByteChannel.deliver_nil_left,
      SnappyFramedOutputStream.flatten_flatMap_pieces, Frame.stream, List.flatMap_map]
    rfl

/-- The reader accepts the frame of a block that the rule has not made longer. -/
theorem Session.readable_frame (hc : platform.codec.Lawful) {x : Session} (hx : x.Valid)
    {y : Bytes} (hne : y ≠ []) (hy : y.length ≤ 65536) :
    SnappyFramedInputStream.Readable platform ((x.writer platform).frame y) := by
  have hM : SnappyFramedInputStream.maxBlockSize = 65536 := rfl
  have hdata : ((x.writer platform).frame y).data platform.codec = y :=
    (x.writer platform).data_frame hc (by omega)
  have hlen := Frame.length_body_ofBlock platform ((x.writer platform).chosen y)
    ((x.writer platform).payload y) y
  have hpayload : (x.writer platform).payload y ≠ [] ∧
      ((x.writer platform).payload y).length ≤ y.length := by
    unfold FrameWriter.payload
    split
    · rename_i hchosen
      exact ⟨hc.compress_ne_nil y (by omega), hx.shrinks _ _ hchosen⟩
    · exact ⟨hne, le_refl _⟩
  have hbody : ((x.writer platform).frame y).body.length ≤ y.length + 4 :=
    hlen.trans_le (by omega)
  refine ⟨⟨?_, ?_, ?_⟩, by omega, by rw [hdata]; omega, fun _ => by rwa [hdata]⟩
  · rw [Frame.Fits]
    omega
  · exact Frame.good_ofBlock ((x.writer platform).decodes_payload hc (by omega)) hpayload.1
  · rw [hdata]
    omega

theorem readable_identifier : SnappyFramedInputStream.Readable platform Frame.identifier := by
  have hlen : Frame.identifier.body.length = 6 := rfl
  have hdata : Frame.identifier.data platform.codec = [] := rfl
  refine ⟨⟨by unfold Frame.Fits; omega, rfl, by rw [hdata]; decide⟩, ?_, ?_, ?_⟩
  · rw [hlen]
    decide
  · rw [hdata]
    decide
  · intro h
    exact absurd h (by decide)

/-- Outputs behind one another are identifiers and frames. -/
theorem exists_outputs (hc : platform.codec.Lawful) {sessions : List Session}
    (hs : ∀ x ∈ sessions, x.Valid) :
    ∃ (outputs : List (Bytes × Bytes)) (frames : List Frame),
      List.Forall₂ (fun x o => x.Ends platform o.1 o.2) sessions outputs ∧
      (outputs.map Prod.snd).flatten = frames.flatMap Frame.encode ∧
      (outputs.map Prod.fst).flatten = SnappyFramedInputStream.contents platform.codec frames ∧
      (∀ f ∈ frames, SnappyFramedInputStream.Readable platform f) ∧
      (sessions ≠ [] → ∃ more, frames = Frame.identifier :: more) := by
  induction sessions with
  | nil => exact ⟨[], [], .nil, rfl, rfl, by simp, fun h => absurd rfl h⟩
  | cons x sessions ih =>
    have hx := hs x (by simp)
    obtain ⟨outputs, frames, hends, hsnd, hfst, hread, -⟩ := ih fun y hy => hs y (by simp [hy])
    obtain ⟨xs, hxs, hx'⟩ := x.ends_frames hc hx
    have hcontents : SnappyFramedInputStream.contents platform.codec
        (xs.map (x.writer platform).frame) = xs.flatten := by
      rw [SnappyFramedInputStream.contents, List.flatMap_map, List.flatMap_def]
      congr 1
      conv_rhs => rw [← List.map_id xs]
      refine List.map_congr_left fun y hy => ?_
      have hle := (hxs y hy).2
      exact (x.writer platform).data_frame hc (by omega)
    refine ⟨(xs.flatten, Frame.stream (xs.map (x.writer platform).frame)) :: outputs,
      Frame.identifier :: (xs.map (x.writer platform).frame ++ frames), .cons hx' hends, ?_, ?_, ?_,
      fun _ => ⟨_, rfl⟩⟩
    · rw [List.map_cons, List.flatten_cons, hsnd, List.flatMap_cons, List.flatMap_append,
        ← List.append_assoc, Frame.encode_identifier, Frame.stream]
    · rw [List.map_cons, List.flatten_cons, hfst, SnappyFramedInputStream.contents_cons,
        SnappyFramedInputStream.contents_append, hcontents]
      rfl
    · intro f hf
      rcases List.mem_cons.mp hf with rfl | hf
      · exact readable_identifier
      · rcases List.mem_append.mp hf with hf | hf
        · obtain ⟨y, hy, rfl⟩ := List.mem_map.mp hf
          exact x.readable_frame hc hx (hxs y hy).1 (hxs y hy).2
        · exact hread f hf

/-- Whatever was written in any number of sessions, each with its block size,
rule, pool and calls, some of which may have thrown: at the end of the last
flush or close the sink holds a stream from which any reading calls get exactly
the data taken, and then its end. -/
theorem read_written (hc : platform.codec.Lawful) (hpool : platform.bufferPool.Reliable)
    {sessions : List Session} (hne : sessions ≠ []) (hs : ∀ x ∈ sessions, x.Valid) :
    ∃ outputs : List (Bytes × Bytes),
      List.Forall₂ (fun x o => x.Ends platform o.1 o.2) sessions outputs ∧
      ∀ rbc : Source, rbc.Positive → rbc.data = (outputs.map Prod.snd).flatten →
        ∃ s, SnappyFramedInputStream.new platform rbc true = .ok s ∧
          SnappyFramedInputStream.ReadsAll platform (outputs.map Prod.fst).flatten s := by
  obtain ⟨outputs, frames, hends, hsnd, hfst, hread, hfirst⟩ := exists_outputs hc hs
  obtain ⟨more, rfl⟩ := hfirst hne
  refine ⟨outputs, hends, fun rbc hp hdata => ?_⟩
  have hstream : rbc.data = Frame.stream more := by
    rw [hdata, hsnd, List.flatMap_cons, Frame.encode_identifier, Frame.stream]
  rw [hfst]
  exact SnappyFramedInputStream.readsAll_of_readable hpool hp hstream
    (fun f hf => hread f (by simp [hf])) true

end

/-- Two sessions, the second flushed only. -/
theorem read_written_two_sessions :
    let sessions : List Session :=
      [⟨2, SnappyFramedOutputStream.literalWriter.acceptable, QuiescentBufferPool,
          [.write [1, 2, 3] 0 3], true⟩,
        ⟨65536, SnappyFramedOutputStream.literalWriter.acceptable, QuiescentBufferPool,
          [.writeByte 4, .flush, .transferFromStream ⟨[5, 6], [1]⟩], false⟩]
    ∃ outputs : List (Bytes × Bytes),
      List.Forall₂ (fun x o => x.Ends literalPlatform o.1 o.2) sessions outputs ∧
      ∀ rbc : Source, rbc.Positive → rbc.data = (outputs.map Prod.snd).flatten →
        ∃ s, SnappyFramedInputStream.new literalPlatform rbc true = .ok s ∧
          SnappyFramedInputStream.ReadsAll literalPlatform (outputs.map Prod.fst).flatten s := by
  intro sessions
  refine @read_written literalPlatform LiteralCodec.lawful QuiescentBufferPool.builtIn.reliable
    sessions (by decide) ?_
  have hshrinks : ∀ compressedLength length,
      SnappyFramedOutputStream.literalWriter.acceptable compressedLength length = true →
        compressedLength ≤ length := by
    intro compressedLength length h
    have := of_decide_eq_true h
    omega
  intro x hx
  simp only [sessions, List.mem_cons, List.not_mem_nil, or_false] at hx
  rcases hx with rfl | rfl
  · exact ⟨by decide, by decide, hshrinks, QuiescentBufferPool.builtIn.reliable, by decide⟩
  · exact ⟨by decide, by decide, hshrinks, QuiescentBufferPool.builtIn.reliable, by decide⟩

end SnappyJava
