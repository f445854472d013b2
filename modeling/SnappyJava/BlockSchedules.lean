import SnappyJava.BlockGrammar
import SnappyJava.BlockLimits

/-! Whether what a `SnappyInputStream` delivers before an error or the end
depends on the calls it is delivered by. -/

namespace SnappyJava.SnappyInputStream

open Exec Memory Reading BlockFormat

/-! ## Schedules -/

/-- `read()`, or `read(byte[], int, int)` of at least one byte into a good range. -/
def Scheduled : ReadCall → Prop
  | .readByte => True
  | .read b off len => RangeOk b off len ∧ 0 < len
  | _ => False

/-- The end as a call reports it. -/
def Ending.result : Ending → Stop Throwable
  | .fails e => .failed e
  | _ => .ended

section
variable {codec : Codec} {limit : Int} {ending : Ending} {rest : Bytes} {s : SnappyInputStream}

theorem Done.result_eq (h : Done limit ending s) : ending.result = .ended := by
  cases ending with
  | fails e => exact h.elim
  | _ => rfl

/-- A call of `read()` hands out the next byte, or it meets the end. -/
theorem wp_readByte_holding (h : Holding codec limit ending rest s) :
    wp (perform codec .readByte)
      (fun a t => if a.ended then rest = [] ∧ ending.result = .ended
        else ∃ x xs, rest = x :: xs ∧ a.given = [x] ∧ Holding codec limit ending xs t)
      (fun e _ => rest = [] ∧ ending = .fails e) s := by
  simp only [perform, wp_bind, wp_pure]
  apply wp_readByte feeds_holding h
  · exact fun t hnil ht => ⟨hnil, ht.result_eq⟩
  · intro t x xs hx ht
    have hne : (x.toNat : Int) ≠ -1 := by omega
    rw [if_neg hne, toByte_toNat]
    exact ⟨x, xs, hx, rfl, ht⟩
  · exact fun e t hnil he => ⟨hnil, he.1⟩

/-- A call hands out the front of what is still to come; or all of it, having met
the end behind it; or it reports the end. -/
theorem wp_perform_holding (h : Holding codec limit ending rest s) {c : ReadCall} (hc : Scheduled c) :
    wp (perform codec c)
      (fun a t =>
        (a.ended = false ∧ a.given ≠ [] ∧ a.given <+: rest ∧
          Holding codec limit ending (rest.drop a.given.length) t) ∨
        (a.ended = false ∧ rest ≠ [] ∧ a.given = rest ∧ Done limit ending t) ∨
        (a.ended = true ∧ rest = [] ∧ ending.result = .ended))
      (fun e _ => ending = .fails e) s := by
  cases c with
  | readByte =>
    refine wp_mono (wp_readByte_holding h) ?_ (fun _ _ he => he.2)
    intro a t ha
    by_cases hended : a.ended = true
    · rw [if_pos hended] at ha
      exact .inr (.inr ⟨hended, ha⟩)
    · rw [if_neg hended] at ha
      obtain ⟨x, xs, rfl, hgiven, ht⟩ := ha
      rw [hgiven]
      exact .inl ⟨by simpa using hended, by simp, ⟨xs, rfl⟩, ht⟩
  | read b off len =>
    obtain ⟨hok, hpos⟩ := hc
    have hend := hok.2.2.1
    have hoff := hok.1
    simp only [perform, read, wp_map]
    apply wp_bulkRead feeds_holding h hok
    · intro t hle ht
      have hne : (len.toNat : Int) ≠ -1 := by omega
      have hl : (rest.take len.toNat).length = len.toNat := by rw [List.length_take]; omega
      have hs := @slice_splice _ b (rest.take len.toNat) off.toNat (by omega)
      rw [hl] at hs
      rw [bulkAnswer, if_neg hne, Int.toNat_natCast, hs]
      refine .inl ⟨rfl, ?_, List.take_prefix _ _, by rw [hl]; exact ht⟩
      rw [← List.length_pos_iff, hl]
      omega
    · intro t hlt ht
      by_cases hnil : rest = []
      · rw [if_pos hnil]
        exact .inr (.inr ⟨rfl, hnil, ht.result_eq⟩)
      · have hne : (rest.length : Int) ≠ -1 := by omega
        have hs := @slice_splice _ b rest off.toNat (by omega)
        rw [if_neg hnil, bulkAnswer, if_neg hne, Int.toNat_natCast, hs]
        exact .inr (.inl ⟨rfl, hnil, rfl, ht⟩)
    · exact fun e t _ he => he.1
  | rawRead a off len => exact hc.elim
  | readArray t d off len => exact hc.elim
  | available => exact hc.elim

/-- As many calls of `read()` as there are bytes. -/
theorem tell_readBytes (h : Holding codec limit ending rest s) {k : Nat} (hk : k ≤ rest.length)
    (cs : List ReadCall) :
    ∃ t, Holding codec limit ending (rest.drop k) t ∧
      tell (perform codec) (List.replicate k .readByte ++ cs) s =
        (rest.take k ++ (tell (perform codec) cs t).1, (tell (perform codec) cs t).2) := by
  induction k generalizing rest s with
  | zero => exact ⟨s, h, rfl⟩
  | succ k ih =>
    obtain ⟨x, xs, rfl⟩ := List.exists_cons_of_ne_nil (show rest ≠ [] by
      rintro rfl
      simp at hk)
    have hw : wp (perform codec .readByte)
        (fun a t => a.ended = false ∧ a.given = [x] ∧ Holding codec limit ending xs t)
        (fun _ _ => False) s := by
      refine wp_mono (wp_readByte_holding h) ?_ (fun _ _ he => absurd he.1 (by simp))
      intro a t ha
      by_cases hended : a.ended = true
      · rw [if_pos hended] at ha
        exact absurd ha.1 (by simp)
      · rw [if_neg hended] at ha
        obtain ⟨y, ys, hy, hgiven, ht⟩ := ha
        obtain ⟨rfl, rfl⟩ := List.cons.inj hy
        exact ⟨by simpa using hended, hgiven, ht⟩
    obtain ⟨a, t, hrun, hended, hgiven, ht⟩ := exists_of_wp hw
    obtain ⟨u, hu, hd⟩ := ih ht (by simpa using hk)
    refine ⟨u, hu, ?_⟩
    rw [List.replicate_succ, List.cons_append, tell_of_ok hrun hended, hgiven, hd]
    rfl

/-! ## Behind the end -/

/-- The end throws nothing, and nothing comes behind it. -/
def Ending.Clean (codec : Codec) (limit : Int) : Ending → Prop
  | .fails _ => False
  | ending => ending.behind codec limit = []

/-- No schedule tells more than `rest`, or stops short of it. -/
theorem tell_clean (h : Holding codec limit ending rest s)
    (hclean : rest = [] ∨ ending.Clean codec limit) {calls : List ReadCall}
    (hcalls : ∀ c ∈ calls, Scheduled c) :
    (tell (perform codec) calls s).1 <+: rest ∧
      ((tell (perform codec) calls s).2 ≠ none → (tell (perform codec) calls s).1 = rest) := by
  induction calls generalizing rest ending s with
  | nil => exact ⟨List.nil_prefix, by simp⟩
  | cons c cs ih =>
    have hcs : ∀ c ∈ cs, Scheduled c := fun c hc => hcalls c (by simp [hc])
    have hw := wp_perform_holding h (hcalls c (by simp))
    cases hrun : (perform codec c).run s with
    | error e t =>
      obtain rfl := wp_error hw hrun
      obtain rfl : rest = [] := hclean.resolve_right id
      simp [tell_of_error hrun]
    | ok a t =>
      rcases wp_ok hw hrun with ⟨hended, -, ⟨more, rfl⟩, ht⟩ | ⟨hended, hne, hgiven, ht⟩ |
        ⟨hended, rfl, -⟩
      · rw [List.drop_left] at ht
        obtain ⟨hstart, hall⟩ := ih ht (hclean.imp (fun h => (List.append_eq_nil_iff.mp h).2) id) hcs
        rw [tell_of_ok hrun hended]
        exact ⟨(List.prefix_append_right_inj _).mpr hstart, fun hstop => by rw [hall hstop]⟩
      · have hnil : ending.behind codec limit = [] := by
          have hclean := hclean.resolve_left hne
          cases ending with
          | fails e => exact hclean.elim
          | _ => exact hclean
        obtain ⟨ending', ht⟩ := @Done.holding codec _ _ _ ht
        rw [hnil] at ht
        obtain ⟨hstart, -⟩ := ih ht (.inl rfl) hcs
        rw [tell_of_ok hrun hended, hgiven, List.prefix_nil.mp hstart, List.append_nil]
        exact ⟨List.prefix_refl _, fun _ => rfl⟩
      · simp [tell_of_ended hrun hended]

/-- A bulk read that asks for one byte more than there is. -/
theorem wp_perform_beyond {x : UInt8} (h : Holding codec limit ending [x] s) :
    wp (perform codec (.read (newArray 2) 0 2))
      (fun a t => a.ended = false ∧ a.given = [x] ∧ Done limit ending t)
      (fun e _ => ending = .fails e) s := by
  simp only [perform, read, wp_map]
  apply wp_bulkRead feeds_holding h ⟨by decide, by decide, by decide, by decide⟩
  · exact fun t hle _ => absurd hle (by simp)
  · intro t _ ht
    exact ⟨rfl, rfl, ht⟩
  · exact fun e t _ he => he.1

/-- All but one byte by `read()`, then two at once, then one by `read()`. -/
def beyond (rest : Bytes) : List ReadCall :=
  List.replicate (rest.length - 1) .readByte ++ [.read (newArray 2) 0 2, .readByte]

theorem scheduled_beyond : ∀ c ∈ beyond rest, Scheduled c := by
  intro c hc
  rcases List.mem_append.mp hc with hc | hc
  · rw [List.eq_of_mem_replicate hc]
    trivial
  · rcases List.mem_pair.mp hc with rfl | rfl
    · exact ⟨⟨by decide, by decide, by decide, by decide⟩, by decide⟩
    · trivial

/-- Up to the last byte that schedule tells what is there. -/
theorem tell_beyond (h : Holding codec limit ending rest s) (hne : rest ≠ []) :
    ∃ first x t, rest = first ++ [x] ∧ Holding codec limit ending [x] t ∧
      tell (perform codec) (beyond rest) s =
        (first ++ (tell (perform codec) [.read (newArray 2) 0 2, .readByte] t).1,
          (tell (perform codec) [.read (newArray 2) 0 2, .readByte] t).2) := by
  have hpos := List.length_pos_iff.mpr hne
  obtain ⟨t, ht, htell⟩ := tell_readBytes h (Nat.sub_le rest.length 1)
    [.read (newArray 2) 0 2, .readByte]
  obtain ⟨x, hx⟩ : ∃ x, rest.drop (rest.length - 1) = [x] :=
    List.length_eq_one_iff.mp (by rw [List.length_drop]; omega)
  rw [hx] at ht
  refine ⟨_, x, t, ?_, ht, htell⟩
  rw [← hx, List.take_append_drop]

/-- It tells something else, if the end throws or something comes behind it. -/
theorem not_clean_of_beyond (h : Holding codec limit ending rest s) (hne : rest ≠ [])
    (hend : ¬ ending.Clean codec limit) :
    ¬ ((tell (perform codec) (beyond rest) s).1 <+: rest ∧
      ((tell (perform codec) (beyond rest) s).2 ≠ none →
        (tell (perform codec) (beyond rest) s).1 = rest)) := by
  obtain ⟨first, x, t, rfl, ht, htell⟩ := tell_beyond h hne
  have hw := wp_perform_beyond ht
  rw [htell]
  rintro ⟨hstart, hall⟩
  cases hrun : (perform codec (.read (newArray 2) 0 2)).run t with
  | error e u =>
    rw [tell_of_error hrun] at hall
    simpa using hall (by simp)
  | ok a u =>
    obtain ⟨hended, hgiven, hu⟩ := wp_ok hw hrun
    obtain ⟨y, ys, hbehind⟩ := List.exists_cons_of_ne_nil
      (show ending.behind codec limit ≠ [] by
        cases ending with
        | fails e => exact hu.elim
        | _ => exact hend)
    obtain ⟨ending', hu⟩ := @Done.holding codec _ _ _ hu
    obtain ⟨v, -, hv⟩ := tell_readBytes hu (show 1 ≤ _ by rw [hbehind]; simp) []
    rw [hbehind] at hv
    have hlast : tell (perform codec) [.readByte] u = ([y], none) := hv
    rw [tell_of_ok hrun hended, hgiven, hlast] at hstart
    have := hstart.length_le
    simp at this

end

/-! ## Header mode -/

/-- The bytes of all chunks before the first thing that is none. -/
def goodBytes (codec : Codec) (limit : Int) (behind : Bytes) : Bytes :=
  (contents codec limit behind).1.flatten

/-- Before the first exception or -1 every schedule tells the bytes of the good
chunks: no other bytes, and all of them by the time it comes to that. -/
def ScheduleFree (codec : Codec) (input : Source) (limit : Int) (behind : Bytes) : Prop :=
  ∃ s, new codec input limit = .ok s ∧
    ∀ calls : List ReadCall, (∀ c ∈ calls, Scheduled c) →
      (tell (perform codec) calls s).1 <+: goodBytes codec limit behind ∧
        ((tell (perform codec) calls s).2 ≠ none →
          (tell (perform codec) calls s).1 = goodBytes codec limit behind)

/-- No good chunk has a byte; or too few bytes for a chunk's size are left behind
the good chunks; or a false codec header, and no byte of a good chunk behind that. -/
def Settled (codec : Codec) (limit : Int) (behind : Bytes) : Prop :=
  goodBytes codec limit behind = [] ∨
    match (contents codec limit behind).2 with
    | .finished => True
    | .stop rest => goodBytes codec limit rest = []
    | _ => False

section
variable {codec : Codec} {limit : Int} {data : Bytes}

/-- What stands behind the chunks is none. -/
theorem contents_snd_ne_chunk (x rest : Bytes) : (contents codec limit data).2 ≠ .chunk x rest := by
  induction hn : data.length using Nat.strong_induction_on generalizing data with
  | _ n ih =>
    subst hn
    by_cases h : ∃ y r, next codec limit data = .chunk y r
    · obtain ⟨y, r, h⟩ := h
      rw [contents_of_chunk h]
      exact ih _ (next_chunk_lt h) rfl
    · rw [contents_of_ne_chunk fun y r hy => h ⟨y, r, hy⟩]
      exact fun hx => h ⟨x, rest, hx⟩

theorem settled_iff_clean (fresh : Bool) : Settled codec limit data ↔
    goodBytes codec limit data = [] ∨
      ((contents codec limit data).2.ending fresh).Clean codec limit := by
  refine or_congr Iff.rfl ?_
  cases h : (contents codec limit data).2 with
  | chunk x rest => exact absurd h (contents_snd_ne_chunk x rest)
  | finished => exact (iff_true_intro rfl).symm
  | stop rest => exact Iff.rfl
  | bad e => exact Iff.rfl
  | oversized => exact Iff.rfl

/-- What a reader tells before the first exception or -1 is the same for every
schedule of its calls just in case the end is clean or nothing comes before it. -/
theorem scheduleFree_iff_settled {header behind : Bytes} {input : Source}
    (h16 : header.length = SnappyCodec.headerSize)
    (hmagic : SnappyCodec.hasMagicHeaderPrefix header = true) (hdata : input.data = header ++ behind) :
    ScheduleFree codec input limit behind ↔ Settled codec limit behind := by
  obtain ⟨i, hi, -, hnew⟩ := @new_header codec _ _ _ limit h16 hmagic hdata
  set s : SnappyInputStream := { initial input limit with input := i, header := header } with hs
  have hw : Waiting limit behind s := ⟨⟨rfl, h16, Nat.le_refl _, Nat.zero_le _⟩, rfl, Nat.le_refl _, hi⟩
  have hholds : Holding codec limit _ (goodBytes codec limit behind) s :=
    ⟨sound_new hnew, look_of_waiting hw⟩
  rw [settled_iff_clean (decide (s.uncompressed = none ∧ (contents codec limit behind).1 = []))]
  constructor
  · rintro ⟨s', hs', hall⟩
    obtain rfl := Except.ok.inj (hnew.symm.trans hs')
    by_contra hno
    rw [not_or] at hno
    exact not_clean_of_beyond hholds hno.1 hno.2 (hall _ scheduled_beyond)
  · intro hclean
    exact ⟨s, hnew, fun calls hcalls => tell_clean hholds hclean hcalls⟩

end

/-- A chunk of three bytes, and one of which only a byte has arrived. -/
def cutChunk : Bytes :=
  intBytes 5 ++ literalCodec.compress [7, 8, 9] ++ (intBytes 5 ++ [3])

def cutChunkInput : Source :=
  ⟨SnappyCodec.headerArray SnappyCodec.currentHeader ++ cutChunk, []⟩

/-- The reader in front of it. -/
def cutChunkReader : SnappyInputStream :=
  { initial cutChunkInput defaultMaxChunkSize with
    input := ⟨cutChunk, []⟩, header := SnappyCodec.headerArray SnappyCodec.currentHeader }

theorem scheduleFree_iff_settled_cutChunk :
    ScheduleFree literalCodec cutChunkInput defaultMaxChunkSize cutChunk ↔
      Settled literalCodec defaultMaxChunkSize cutChunk :=
  scheduleFree_iff_settled (by decide) (by decide) rfl

/-- Read byte by byte, the first chunk is handed out; a call that asks for four
bytes loses it. -/
theorem cutChunk_lost :
    let refused := Stop.failed (.ioException "failed to read chunk")
    new literalCodec cutChunkInput defaultMaxChunkSize = .ok cutChunkReader ∧
      tell (perform literalCodec) (List.replicate 4 .readByte) cutChunkReader =
        ([7, 8, 9], some refused) ∧
      tell (perform literalCodec) [.read (newArray 4) 0 4] cutChunkReader = ([], some refused) ∧
      ¬ ScheduleFree literalCodec cutChunkInput defaultMaxChunkSize cutChunk := by
  intro refused
  have hnew : new literalCodec cutChunkInput defaultMaxChunkSize = .ok cutChunkReader := by rfl
  have hbytes : tell (perform literalCodec) (List.replicate 4 .readByte) cutChunkReader =
      ([7, 8, 9], some refused) := by decide +kernel
  have hbulk : tell (perform literalCodec) [.read (newArray 4) 0 4] cutChunkReader =
      ([], some refused) := by decide +kernel
  refine ⟨hnew, hbytes, hbulk, ?_⟩
  rintro ⟨s, hs, hall⟩
  obtain rfl := Except.ok.inj (hnew.symm.trans hs)
  have hone := (hall (List.replicate 4 .readByte) (by simp [Scheduled])).2 (by rw [hbytes]; simp)
  have hfour := (hall [.read (newArray 4) 0 4] (by simp [Scheduled, RangeOk])).2
    (by rw [hbulk]; simp)
  rw [hbytes] at hone
  rw [hbulk, ← hone] at hfour
  exact absurd hfour (by decide)

end SnappyJava.SnappyInputStream
