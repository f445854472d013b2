import SnappyJava.BlockReader
import SnappyJava.BlockWriterRuns

/-! What `SnappyOutputStream`s have written by the time a flush or the close
returns, one stream after another, is what a `SnappyInputStream` reads. -/

namespace SnappyJava.BlockFormat

open Exec Blocks Reading

/-- The life of one `SnappyOutputStream` up to a moment when its last call, a
`close` or a `flush`, has just returned. -/
structure Session where
  blockSize : Int
  calls : List SnappyOutputStream.WriteCall
  closing : Bool

namespace Session

/-- What the sink holds at that moment. -/
def output (codec : Codec) (allocate : Nat → Bytes) (x : Session) : Except Throwable Bytes :=
  match SnappyOutputStream.new allocate .reliable x.blockSize with
  | .error e => .error e
  | .ok s =>
    let life := if x.closing then SnappyOutputStream.runClose else SnappyOutputStream.runFlush
    match (life codec .snappyOutputStream x.calls).run s with
    | .ok _ t => .ok t.out.received
    | .error e _ => .error e

def data (x : Session) : Bytes := x.calls.flatMap SnappyOutputStream.WriteCall.bytes

/-- The block size is one of the usual ones, and a reader with the given limit
takes every block of that size. -/
structure Ok (maxChunkSize : Int) (x : Session) : Prop where
  min_le : 1024 ≤ x.blockSize
  le_max : x.blockSize ≤ 512 * 1024 * 1024
  fits : Snappy.maxCompressedLength x.blockSize ≤ maxChunkSize
  inRange : ∀ c ∈ x.calls, c.InRange

/-- The blocks the stream has written. -/
def written (x : Session) : List Bytes :=
  (SnappyOutputStream.segments x.calls).flatMap (blocks x.blockSize.toNat)

def items (x : Session) : List SnappyInputStream.Item :=
  .header :: x.written.map .chunk

variable {codec : Codec} {allocate : Nat → Bytes} {maxChunkSize : Int} {x : Session}

theorem output_eq (hc : codec.Bounded) (ha : SnappyOutputStream.ExactAllocator allocate)
    (h : x.Ok maxChunkSize) :
    x.output codec allocate = .ok (x.items.flatMap (SnappyInputStream.Item.encode codec)) := by
  have hM : SnappyOutputStream.maxBlockSize = 536870912 := rfl
  have hmin := h.min_le
  have hmax := h.le_max
  obtain ⟨s, hs, hw⟩ := @SnappyOutputStream.new_writing _ ha .reliable rfl True (fun _ => rfl) _
    h.min_le (by omega) codec .snappyOutputStream
  have href : SnappyOutputStream.reference codec .snappyOutputStream x.blockSize.toNat
      (SnappyOutputStream.segments x.calls) =
      x.items.flatMap (SnappyInputStream.Item.encode codec) := by
    simp only [SnappyOutputStream.reference, items, written, List.flatMap_cons, List.flatMap_map]
    rfl
  have hrun : ∀ {m : SnappyOutputStream.Method Unit},
      wp m (fun _ t => t.out.received = SnappyOutputStream.reference codec .snappyOutputStream
          x.blockSize.toNat (SnappyOutputStream.segments x.calls))
        (fun e _ => e = .memoryFault .rawCompress ∧ StreamClass.snappyOutputStream =
          .snappyHadoopCompatibleOutputStream) s →
      ∃ t, m.run s = .ok () t ∧ t.out.received = x.items.flatMap
        (SnappyInputStream.Item.encode codec) := by
    intro m hm
    obtain ⟨_, t, ht, hrec⟩ := exists_of_wp (wp_mono hm (fun _ _ h => h)
      (fun _ _ h => by cases h.2))
    exact ⟨t, ht, by rw [hrec, href]⟩
  cases hcl : x.closing with
  | true =>
    obtain ⟨t, ht, hrec⟩ := hrun
      (SnappyOutputStream.wp_runClose hc (by omega) (by omega) hw h.inRange)
    simp only [output, hs, hcl, if_true, ht, hrec]
  | false =>
    obtain ⟨t, ht, hrec⟩ := hrun
      (SnappyOutputStream.wp_runFlush hc (by omega) (by omega) hw h.inRange)
    simp only [output, hs, hcl, Bool.false_eq_true, if_false, ht, hrec]

theorem flatMap_data_items (h : x.Ok maxChunkSize) :
    x.items.flatMap SnappyInputStream.Item.data = x.data := by
  have hmin := h.min_le
  have hflat : ∀ segs : List Bytes,
      (segs.flatMap (blocks x.blockSize.toNat)).flatten = segs.flatten := by
    intro segs
    induction segs with
    | nil => rfl
    | cons seg segs ih =>
      rw [List.flatMap_cons, List.flatten_append, ih, flatten_blocks (by omega), List.flatten_cons]
  rw [data, ← SnappyOutputStream.flatten_segments, ← hflat]
  simp only [items, written, List.flatMap_cons, List.flatMap_map, SnappyInputStream.Item.data,
    List.nil_append, List.flatMap_id']

/-- A reader with the limit accepts every item. -/
theorem items_ok (hc : codec.Bounded) (h : x.Ok maxChunkSize) :
    ∀ i ∈ x.items, i.Ok codec maxChunkSize := by
  have hM : SnappyOutputStream.maxBlockSize = 536870912 := rfl
  have hmin := h.min_le
  have hmax := h.le_max
  have hfits := h.fits
  have hlen := @Snappy.maxCompressedLength_natCast x.blockSize.toNat (by omega)
  rw [Int.toNat_of_nonneg (by omega)] at hlen
  intro i hi
  rcases List.mem_cons.mp hi with rfl | hi
  · trivial
  · obtain ⟨y, hy, rfl⟩ := List.mem_map.mp hi
    obtain ⟨seg, -, hy⟩ := List.mem_flatMap.mp hy
    have hyl := length_le_of_mem_blocks (by omega) hy
    have hcl := hc.length_compress_le y (by omega)
    exact ⟨ne_nil_of_mem_blocks (by omega) hy, by omega, by omega⟩

end Session

open SnappyInputStream in
/-- A reader of what streams have written, in front of a tail of the given kind,
holds the data written. -/
theorem exists_reader {codec : Codec} (hc : codec.Bounded) {maxChunkSize : Int}
    {sessions : List Session} (hne : sessions ≠ []) (hok : ∀ x ∈ sessions, x.Ok maxChunkSize)
    {Tail : Bytes → Prop} {tail : Bytes} (htail : Tail tail) {input : Source}
    (hinput : input.data = (sessions.flatMap Session.items).flatMap (Item.encode codec) ++ tail) :
    ∃ s, new codec input maxChunkSize = .ok s ∧
      HoldsBefore codec maxChunkSize Tail (sessions.flatMap Session.data) s := by
  obtain ⟨x, xs, rfl⟩ := List.exists_cons_of_ne_nil hne
  have hcons : (x :: xs).flatMap Session.items =
      .header :: (x.written.map Item.chunk ++ xs.flatMap Session.items) := rfl
  have hdata : ((x :: xs).flatMap Session.items).flatMap Item.data =
      (x :: xs).flatMap Session.data := by
    rw [List.flatMap_assoc, List.flatMap_def, List.flatMap_def]
    congr 1
    exact List.map_congr_left fun y hy => Session.flatMap_data_items (hok y hy)
  have hitems : ∀ i ∈ (x :: xs).flatMap Session.items, i.Ok codec maxChunkSize := by
    intro i hi
    obtain ⟨y, hy, hi⟩ := List.mem_flatMap.mp hi
    exact Session.items_ok hc (hok y hy) i hi
  rw [hcons] at hinput hdata hitems
  obtain ⟨s, hs, hholds⟩ := new_holds htail hinput
    (fun i hi => hitems i (List.mem_cons_of_mem _ hi))
  rw [List.flatMap_cons, Item.data, List.nil_append] at hdata
  exact ⟨s, hs, hdata ▸ hholds⟩

/-- The block format round trip. The outputs of one or more streams, each taken
when a flush or the close has just returned, and handed out one after another
in any fragments, are read back by any calls as the data written, in order and
then the end, without an exception. -/
theorem roundTrip {codec : Codec} (hc : codec.Lawful) {allocate : Nat → Bytes}
    (ha : SnappyOutputStream.ExactAllocator allocate) {maxChunkSize : Int}
    {sessions : List Session} (hne : sessions ≠ [])
    (hok : ∀ x ∈ sessions, x.Ok maxChunkSize) :
    ∃ outputs : List Bytes,
      sessions.map (Session.output codec allocate) = outputs.map .ok ∧
      ∀ input : Source, input.data = outputs.flatten →
        ∃ s, SnappyInputStream.new codec input maxChunkSize = .ok s ∧
          ∀ calls : List SnappyInputStream.ReadCall, (∀ c ∈ calls, c.InRange) →
            wp (runAll (SnappyInputStream.perform codec) calls)
              (fun answers _ => Drains (sessions.flatMap Session.data) answers ∧
                ((∃ a ∈ answers, a.ended = true) →
                  given answers = sessions.flatMap Session.data))
              (fun _ _ => False) s := by
  refine ⟨sessions.map fun x => x.items.flatMap (SnappyInputStream.Item.encode codec), ?_, ?_⟩
  · rw [List.map_map]
    exact List.map_congr_left fun x hx => Session.output_eq hc.toBounded ha (hok x hx)
  · intro input hinput
    obtain ⟨s, hs, hholds⟩ := @exists_reader _ hc.toBounded _ _ hne hok SnappyInputStream.Short []
      (Nat.zero_lt_succ 3) input (by
        rw [hinput, List.append_nil, List.flatMap_assoc, List.flatMap_def])
    refine ⟨s, hs, ?_⟩
    intro calls hcalls
    refine wp_mono (SnappyInputStream.wp_runAll_holds hc SnappyInputStream.ends_short hholds hcalls)
      ?_ (fun _ _ h => h)
    rintro answers t ⟨hd, -⟩
    exact ⟨hd, hd.given_eq_of_ended⟩

/-- Two short streams, the first left open after a flush. -/
theorem roundTrip_two_streams :
    ∃ outputs : List Bytes,
      [Session.mk 1024 [.write [1, 2, 3, 4] 1 2, .writeByte 5] false,
        Session.mk 2048 [.rawWrite [6, 7] 0 2] true].map (Session.output literalCodec newArray) =
          outputs.map .ok ∧
      ∀ input : Source, input.data = outputs.flatten →
        ∃ s, SnappyInputStream.new literalCodec input (512 * 1024 * 1024) = .ok s ∧
          ∀ calls : List SnappyInputStream.ReadCall, (∀ c ∈ calls, c.InRange) →
            wp (runAll (SnappyInputStream.perform literalCodec) calls)
              (fun answers _ => Drains [2, 3, 5, 6, 7] answers ∧
                ((∃ a ∈ answers, a.ended = true) → given answers = [2, 3, 5, 6, 7]))
              (fun _ _ => False) s := by
  refine roundTrip LiteralCodec.lawful SnappyOutputStream.exactAllocator_newArray (by decide) ?_
  intro x hx
  rcases List.mem_cons.mp hx with rfl | hx
  · exact ⟨by decide, by decide, by decide, by decide⟩
  · rw [List.mem_singleton.mp hx]
    exact ⟨by decide, by decide, by decide, by decide⟩

end SnappyJava.BlockFormat
