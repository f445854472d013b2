import SnappyJava.BlockLimits

/-! A stream of a `SnappyOutputStream` that is cut off: which cuts a
`SnappyInputStream` reports, and which it takes for the end of the stream. -/

namespace SnappyJava.BlockFormat

open Exec Memory Reading SnappyInputStream

/-! ## A chunk that is cut off, or too large -/

/-- A chunk that a reader with the given limit does not take: it is too large,
or not all of it is there. -/
def Unreadable (limit : Int) (tail : Bytes) : Prop :=
  ∃ (n : Nat) (behind : Bytes), tail = intBytes n ++ behind ∧ n < 2 ^ 31 ∧
    (limit < n ∨ behind.length < n)

/-- Such a chunk is never taken for the end. -/
theorem ends_unreadable {codec : Codec} {limit : Int} :
    Ends codec limit (Unreadable limit) False (fun e _ => ¬ e.Fatal) := by
  rintro tail t m ⟨n, behind, rfl, hn, hbad⟩ h hdone hm
  obtain ⟨k, rfl⟩ : ∃ k, m = k + 1 := ⟨m - 1, by omega⟩
  have hdata : t.input.data = intBytes n ++ behind := h.data_eq
  have hfin : t.finishedReading = false := by
    cases hf : t.finishedReading with
    | false => rfl
    | true =>
      have := congrArg List.length (h.finished hf).2
      simp only [List.length_append, length_intBytes, List.length_nil] at this
      omega
  rw [loop, wp_bind]
  by_cases hlarge : limit < n
  · exact wp_nextChunkRound_tooLarge h.length_header hfin hn (by rw [h.limit_eq]; exact hlarge) hdata
      (fun _ _ => id)
  · apply wp_nextChunkRound_chunk h.length_header hfin hn (by rw [h.limit_eq]; omega) hdata
    · intro i c _ _ _ hle
      omega
    · exact fun _ _ => id

/-! ## Draining -/

/-- The call asks for at least one byte. -/
def Demands : ReadCall → Prop
  | .readByte => True
  | .read _ _ len => 0 < len
  | .rawRead _ _ len => 0 < len
  | .readArray t _ _ len => 0 < len * t.size
  | .available => False

theorem wp_perform_demands {codec : Codec} (c : ReadCall) (s : SnappyInputStream) :
    wp (perform codec c) (fun a _ => Demands c → a.demands = true) (fun _ _ => True) s := by
  cases c with
  | readByte =>
    simp only [perform, wp_bind, wp_pure]
    refine wp_mono (wp_true _ _) (fun v _ _ _ => ?_) (fun _ _ h => h)
    split <;> rfl
  | available =>
    simp only [perform, wp_bind, wp_pure]
    exact wp_mono (wp_true _ _) (fun _ _ _ h => h.elim) (fun _ _ h => h)
  | read b off len | rawRead b off len | readArray t b off len =>
    simp only [perform, wp_map, bulkAnswer_demands, Demands, decide_eq_true_eq]
    exact wp_mono (wp_true _ _) (fun _ _ _ h => h) (fun _ _ h => h)

/-- The input is opened, no run of calls reports its end, and every run of so
many calls that ask for something ends with an exception. -/
def Noticed (codec : Codec) (input : Source) (maxChunkSize : Int) : Prop :=
  ∃ s, new codec input maxChunkSize = .ok s ∧
    (∀ calls : List ReadCall, (∀ c ∈ calls, c.InRange) →
      wp (runAll (perform codec) calls) (fun answers _ => ∀ a ∈ answers, a.ended = false)
        (fun e _ => ¬ e.Fatal) s) ∧
    ∃ n : Nat, ∀ calls : List ReadCall, (∀ c ∈ calls, c.InRange ∧ Demands c) → n ≤ calls.length →
      wp (runAll (perform codec) calls) (fun _ _ => False) (fun e _ => ¬ e.Fatal) s

/-- A reader in front of a chunk it does not take. -/
theorem noticed_of_unreadable {codec : Codec} (hc : codec.Lawful) {limit : Int} {input : Source}
    {s : SnappyInputStream} (hs : new codec input limit = .ok s) {data : Bytes}
    (h : HoldsBefore codec limit (Unreadable limit) data s) : Noticed codec input limit := by
  have hrun : ∀ calls : List ReadCall, (∀ c ∈ calls, c.InRange) →
      wp (runAll (perform codec) calls)
        (fun answers _ => Drains data answers ∧ answers.length = calls.length ∧
          ∀ a ∈ answers, ∃ c ∈ calls, a.ended = false ∧ (Demands c → a.demands = true))
        (fun e _ => ¬ e.Fatal) s := by
    intro calls hcalls
    refine wp_mono (wp_and (wp_runAll_holds hc ends_unreadable h hcalls)
      (wp_runAll_results (fun t => ∃ rest, HoldsBefore codec limit (Unreadable limit) rest t)
        (fun c a => a.ended = false ∧ (Demands c → a.demands = true)) ?_ hcalls ⟨data, h⟩))
      (fun _ _ h => ⟨h.1.1, h.2.1, h.2.2.1⟩) (fun _ _ h => h.2)
    rintro c t hr ⟨rest, ht⟩
    refine wp_mono (wp_and (wp_perform hc ends_unreadable ht hr) (wp_perform_demands c t)) ?_
      (fun _ _ h => h.1)
    rintro a u ⟨⟨-, hended, hu⟩, hdem⟩
    exact ⟨⟨by simpa using hended, hdem⟩, _, hu⟩
  refine ⟨s, hs, fun calls hcalls => ?_, data.length + 1, fun calls hcalls hlen => ?_⟩
  · refine wp_mono (hrun calls hcalls) ?_ (fun _ _ h => h)
    rintro answers _ ⟨-, -, hall⟩ a ha
    obtain ⟨c, -, hended, -⟩ := hall a ha
    exact hended
  · refine wp_mono (hrun calls fun c hc => (hcalls c hc).1) ?_ (fun _ _ h => h)
    rintro answers _ ⟨hd, hlen', hall⟩
    -- so many answers with room would have reached the end
    obtain ⟨a, ha, hended⟩ := hd.ended_of_length (fun a ha => by
      obtain ⟨c, hc, -, hdem⟩ := hall a ha
      exact hdem (hcalls c hc).2) (by omega)
    obtain ⟨c, -, hno, -⟩ := hall a ha
    rw [hended] at hno
    cases hno

/-! ## Cuts -/

/-- The stream of the given blocks. -/
def stream (codec : Codec) (bs : List Bytes) : Bytes :=
  SnappyCodec.currentHeader.headerArray ++ (bs.map Item.chunk).flatMap (Item.encode codec)

/-- The first `n` bytes end where a chunk ends, or the header. -/
def AtBoundary (codec : Codec) (bs : List Bytes) (n : Nat) : Prop :=
  ∃ pre post, bs = pre ++ post ∧ n = (stream codec pre).length

/-- The first `n` bytes end inside the size of a chunk, and a reader with the
given limit takes every chunk before it. -/
def CutInSize (codec : Codec) (limit : Int) (bs : List Bytes) (n : Nat) : Prop :=
  ∃ pre y post, bs = pre ++ y :: post ∧ (∀ z ∈ pre, (codec.compress z).length ≤ limit) ∧
    (stream codec pre).length < n ∧ n < (stream codec pre).length + 4

section
variable {codec : Codec} {limit : Int} {bs : List Bytes} {n : Nat} {input : Source}

theorem length_stream (pre : List Bytes) : (stream codec pre).length =
    16 + ((pre.map Item.chunk).flatMap (Item.encode codec)).length := by
  rw [stream, List.length_append, SnappyCodec.length_headerArray_currentHeader]

/-- A cut behind the header that is not at a boundary is inside a chunk. -/
private theorem exists_cut {k : Nat}
    (hk : k < ((bs.map Item.chunk).flatMap (Item.encode codec)).length)
    (hb : ∀ pre post, bs = pre ++ post →
      k ≠ ((pre.map Item.chunk).flatMap (Item.encode codec)).length) :
    ∃ pre y post j, bs = pre ++ y :: post ∧
      k = ((pre.map Item.chunk).flatMap (Item.encode codec)).length + j ∧ 0 < j ∧
      j < ((Item.chunk y).encode codec).length := by
  induction bs generalizing k with
  | nil => simp at hk
  | cons y ys ih =>
    by_cases hy : k < ((Item.chunk y).encode codec).length
    · refine ⟨[], y, ys, k, rfl, by simp, ?_, hy⟩
      have := hb [] (y :: ys) rfl
      simp at this
      omega
    · rw [List.map_cons, List.flatMap_cons, List.length_append] at hk
      obtain ⟨pre, z, post, j, rfl, hj, hpos, hlt⟩ :=
        @ih (k - ((Item.chunk y).encode codec).length) (by omega) (by
          intro pre post hys h
          refine hb (y :: pre) post (by rw [hys]; rfl) ?_
          rw [List.map_cons, List.flatMap_cons, List.length_append]
          omega)
      refine ⟨y :: pre, z, post, j, rfl, ?_, hpos, hlt⟩
      rw [List.map_cons, List.flatMap_cons, List.length_append]
      omega

/-- Chunks up to the first one that a reader with the given limit does not take. -/
theorem exists_tooLarge (h : ¬ ∀ z ∈ bs, (codec.compress z).length ≤ limit) :
    ∃ pre y post, bs = pre ++ y :: post ∧ (∀ z ∈ pre, (codec.compress z).length ≤ limit) ∧
      limit < (codec.compress y).length := by
  induction bs with
  | nil => exact absurd (by simp) h
  | cons y ys ih =>
    by_cases hy : (codec.compress y).length ≤ limit
    · obtain ⟨pre, z, post, rfl, hpre, hz⟩ := ih (fun hall => h fun z hz => by
        rcases List.mem_cons.mp hz with rfl | hz
        · exact hy
        · exact hall z hz)
      refine ⟨y :: pre, z, post, rfl, ?_, hz⟩
      intro x hx
      rcases List.mem_cons.mp hx with rfl | hx
      · exact hy
      · exact hpre x hx
    · exact ⟨[], y, ys, rfl, by simp, by omega⟩

/-- What is left of a stream that is cut inside a chunk. -/
private theorem take_stream {pre post : List Bytes} {y : Bytes} {j : Nat}
    (hj : j < ((Item.chunk y).encode codec).length) :
    (stream codec (pre ++ y :: post)).take ((stream codec pre).length + j) =
      (Item.header :: pre.map Item.chunk).flatMap (Item.encode codec) ++
        ((Item.chunk y).encode codec).take j := by
  have hsplit : stream codec (pre ++ y :: post) = stream codec pre ++
      ((Item.chunk y).encode codec ++ (post.map Item.chunk).flatMap (Item.encode codec)) := by
    simp [stream, List.flatMap_append]
  rw [hsplit, List.take_length_add_append, List.take_append_of_le_length (by omega), stream]
  rfl

/-- A reader in front of what is left of a stream whose first blocks it takes. -/
private theorem exists_reader_cut (hbs : ∀ y ∈ bs, y ≠ [] ∧ y.length ≤ SnappyOutputStream.maxBlockSize)
    (hfit : ∀ y ∈ bs, (codec.compress y).length ≤ limit) {Tail : Bytes → Prop} {tail : Bytes}
    (htail : Tail tail) (hdata : input.data =
      (Item.header :: bs.map Item.chunk).flatMap (Item.encode codec) ++ tail) :
    ∃ s data, new codec input limit = .ok s ∧ HoldsBefore codec limit Tail data s := by
  obtain ⟨s, hs, h⟩ := new_holds htail hdata (fun i hi => by
    obtain ⟨y, hy, rfl⟩ := List.mem_map.mp hi
    exact ⟨(hbs y hy).1, (hbs y hy).2, hfit y hy⟩)
  exact ⟨s, _, hs, h⟩

/-- A cut inside a size is taken for the end. -/
theorem not_noticed_of_cutInSize (hc : codec.Lawful)
    (hbs : ∀ y ∈ bs, y ≠ [] ∧ y.length ≤ SnappyOutputStream.maxBlockSize)
    (hdata : input.data = (stream codec bs).take n) (h : CutInSize codec limit bs n) :
    ¬ Noticed codec input limit := by
  obtain ⟨pre, y, post, rfl, hfit, hgt, hlt⟩ := h
  obtain ⟨j, rfl⟩ : ∃ j, n = (stream codec pre).length + j :=
    ⟨n - (stream codec pre).length, by omega⟩
  have hlen : 4 ≤ ((Item.chunk y).encode codec).length := by
    rw [Item.encode_chunk, List.length_append, length_intBytes]
    omega
  rw [take_stream (by omega)] at hdata
  have hshort : Short (((Item.chunk y).encode codec).take j) := by
    rw [Short, List.length_take]
    omega
  obtain ⟨s, data, hs, hholds⟩ := exists_reader_cut (fun z hz => hbs z (by simp [hz])) hfit hshort hdata
  rintro ⟨s', hs', -, k, hthrows⟩
  obtain rfl := Except.ok.inj (hs.symm.trans hs')
  have hr : ∀ c ∈ List.replicate k ReadCall.readByte, c.InRange ∧ Demands c := by
    intro c hc
    rw [List.eq_of_mem_replicate hc]
    exact ⟨trivial, trivial⟩
  exact not_wp_false (wp_mono (wp_and (hthrows _ hr (by simp))
    (wp_runAll_holds hc ends_short hholds fun c hc => (hr c hc).1)) (fun _ _ h => h.1) (fun _ _ h => h.2))

/-- Every other cut inside a chunk is noticed, at that chunk or before. -/
theorem noticed_of_not_cutInSize (hc : codec.Lawful)
    (hbs : ∀ y ∈ bs, y ≠ [] ∧ y.length ≤ SnappyOutputStream.maxBlockSize)
    (h16 : 16 ≤ n) (hn : n < (stream codec bs).length) (hb : ¬ AtBoundary codec bs n)
    (hdata : input.data = (stream codec bs).take n) (h : ¬ CutInSize codec limit bs n) :
    Noticed codec input limit := by
  have hM : SnappyOutputStream.maxBlockSize = 536870912 := rfl
  rw [length_stream] at hn
  obtain ⟨pre, y, post, j, rfl, hj, hpos, hlt⟩ := @exists_cut codec bs (n - 16) (by omega) (by
    intro pre post hpre h
    exact hb ⟨pre, post, hpre, by rw [length_stream]; omega⟩)
  obtain rfl : n = (stream codec pre).length + j := by
    rw [length_stream]
    omega
  rw [take_stream hlt] at hdata
  have hpre : ∀ z ∈ pre, z ≠ [] ∧ z.length ≤ SnappyOutputStream.maxBlockSize :=
    fun z hz => hbs z (by simp [hz])
  have hsize : ∀ z : Bytes, z.length ≤ SnappyOutputStream.maxBlockSize →
      (codec.compress z).length < 2 ^ 31 := by
    intro z hz
    have := hc.length_compress_le z (by omega)
    omega
  by_cases hfit : ∀ z ∈ pre, (codec.compress z).length ≤ limit
  · have h4 : 4 ≤ j := by
      by_contra h4
      exact h ⟨pre, y, post, rfl, hfit, by omega, by omega⟩
    have hint := length_intBytes (codec.compress y).length
    rw [Item.encode_chunk, List.length_append, hint] at hlt
    have hbad : Unreadable limit (((Item.chunk y).encode codec).take j) := by
      refine ⟨_, _, ?_, hsize y (hbs y (by simp)).2,
        .inr (show ((codec.compress y).take (j - 4)).length < _ by rw [List.length_take]; omega)⟩
      rw [Item.encode_chunk, List.take_append, hint, List.take_of_length_le (by omega)]
    obtain ⟨s, data, hs, hholds⟩ := exists_reader_cut hpre hfit hbad hdata
    exact noticed_of_unreadable hc hs hholds
  · -- the reader does not get as far as the cut
    obtain ⟨pre', z, mid, rfl, hfit', hlarge⟩ := exists_tooLarge hfit
    have hsplit : input.data = (Item.header :: pre'.map Item.chunk).flatMap (Item.encode codec) ++
        (intBytes (codec.compress z).length ++ (codec.compress z ++
          ((mid.map Item.chunk).flatMap (Item.encode codec) ++
            ((Item.chunk y).encode codec).take j))) := by
      rw [hdata]
      simp only [List.map_append, List.map_cons, List.flatMap_append, List.flatMap_cons,
        Item.encode_chunk codec z, List.append_assoc]
    have hbad : Unreadable limit (intBytes (codec.compress z).length ++ (codec.compress z ++
        ((mid.map Item.chunk).flatMap (Item.encode codec) ++ ((Item.chunk y).encode codec).take j))) :=
      ⟨_, _, rfl, hsize z (hpre z (by simp)).2, .inl hlarge⟩
    obtain ⟨s, data, hs, hholds⟩ :=
      exists_reader_cut (fun w hw => hpre w (by simp [hw])) hfit' hbad hsplit
    exact noticed_of_unreadable hc hs hholds

/-- A proper prefix of what a stream has written that keeps the header and does
not end at a chunk boundary is noticed to be one, unless it is cut inside the
size of a chunk. -/
theorem noticed_iff_not_cutInSize (hc : codec.Lawful) {allocate : Nat → Bytes}
    (ha : SnappyOutputStream.ExactAllocator allocate) {x : Session} (hmin : 1024 ≤ x.blockSize)
    (hmax : x.blockSize ≤ SnappyOutputStream.maxBlockSize) (hr : ∀ c ∈ x.calls, c.InRange)
    {out : Bytes} (hout : x.output codec allocate = .ok out) (h16 : 16 ≤ n) (hn : n < out.length)
    (hb : ¬ AtBoundary codec x.written n) (hdata : input.data = out.take n) :
    Noticed codec input limit ↔ ¬ CutInSize codec limit x.written n := by
  have hok : x.Ok (Snappy.maxCompressedLength x.blockSize) := ⟨hmin, hmax, Int.le_refl _, hr⟩
  have hbs : ∀ y ∈ x.written, y ≠ [] ∧ y.length ≤ SnappyOutputStream.maxBlockSize := by
    intro y hy
    have := Session.items_ok hc.toBounded hok (.chunk y)
      (List.mem_cons_of_mem _ (List.mem_map_of_mem hy))
    exact ⟨this.1, this.2.1⟩
  rw [Session.output_eq hc.toBounded ha hok] at hout
  obtain rfl := Except.ok.inj hout
  constructor
  · intro hno hcut
    exact not_noticed_of_cutInSize hc hbs hdata hcut hno
  · exact noticed_of_not_cutInSize hc hbs h16 hn hb hdata

end

/-- One block of three bytes: a header of 16 bytes, the size, a chunk of 5 bytes. -/
def threeBytes : Session := ⟨1024, [.write [7, 8, 9] 0 3], true⟩

theorem threeBytes_written : threeBytes.written = [[7, 8, 9]] := by decide

theorem threeBytes_ok : threeBytes.Ok 2048 := ⟨by decide, by decide, by decide, by decide⟩

theorem threeBytes_output :
    threeBytes.output literalCodec newArray = .ok (stream literalCodec [[7, 8, 9]]) := by
  rw [Session.output_eq LiteralCodec.lawful.toBounded SnappyOutputStream.exactAllocator_newArray
    threeBytes_ok, Session.items, threeBytes_written]
  rfl

/-- A cut between two blocks or behind the last one. -/
theorem atBoundary_threeBytes {n : Nat} (h : AtBoundary literalCodec [[7, 8, 9]] n) :
    n = 16 ∨ n = 25 := by
  obtain ⟨pre, post, hsplit, rfl⟩ := h
  rcases pre with _ | ⟨y, pre⟩
  · exact .inl (by decide)
  · obtain ⟨rfl, hnil⟩ := List.cons.inj hsplit
    obtain ⟨rfl, rfl⟩ := List.append_eq_nil_iff.mp hnil.symm
    exact .inr (by decide)

theorem noticed_iff_not_cutInSize_threeBytes :
    Noticed literalCodec ⟨(stream literalCodec [[7, 8, 9]]).take 22, []⟩ defaultMaxChunkSize ↔
      ¬ CutInSize literalCodec defaultMaxChunkSize threeBytes.written 22 := by
  refine noticed_iff_not_cutInSize LiteralCodec.lawful SnappyOutputStream.exactAllocator_newArray
    (by decide) (by decide) (by decide) threeBytes_output (by decide) (by decide) (fun h => ?_) rfl
  rw [threeBytes_written] at h
  have := atBoundary_threeBytes h
  omega

/-- The size field is cut after two of its four bytes, and the stream ends as if
no block followed the header. -/
theorem cut_in_size_unnoticed :
    threeBytes.output literalCodec newArray = .ok (stream literalCodec [[7, 8, 9]]) ∧
      18 < (stream literalCodec [[7, 8, 9]]).length ∧ ¬ AtBoundary literalCodec threeBytes.written 18 ∧
      (∃ s, new literalCodec ⟨(stream literalCodec [[7, 8, 9]]).take 18, []⟩ defaultMaxChunkSize =
          .ok s ∧
        wp (perform literalCodec .readByte) (fun a _ => a.ended = true) (fun _ _ => False) s) ∧
      ¬ Noticed literalCodec ⟨(stream literalCodec [[7, 8, 9]]).take 18, []⟩ defaultMaxChunkSize := by
  refine ⟨threeBytes_output, by decide, fun h => ?_, ⟨_, rfl, by decide⟩, ?_⟩
  · rw [threeBytes_written] at h
    have := atBoundary_threeBytes h
    omega
  · exact not_noticed_of_cutInSize LiteralCodec.lawful (by decide) rfl
      ⟨[], [7, 8, 9], [], rfl, by simp, by decide, by decide⟩

end SnappyJava.BlockFormat
