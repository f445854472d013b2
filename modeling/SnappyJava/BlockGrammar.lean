import SnappyJava.BlockReader
import SnappyJava.BlockReaderSafety

/-! What a `SnappyInputStream` in header mode makes of any bytes, well formed or
not: what it finds next is decided by the bytes that are left. -/

namespace SnappyJava.SnappyInputStream

open Exec Memory Reading

/-! ## Finding the next chunk -/

/-- What `hasNextChunk` comes upon. -/
inductive Find
  /-- The end: too few bytes for the size of a chunk. -/
  | finished
  /-- 16 bytes that agree with the magic for four bytes only. They are passed
  over, and the answer is as at the end. -/
  | stop (rest : Bytes)
  /-- A chunk, decompressed, and what follows it. -/
  | chunk (x rest : Bytes)
  | bad (e : Throwable)
  /-- A block whose length has lost its sign. -/
  | oversized
  deriving DecidableEq, Repr

/-- The bytes behind the size of a chunk. -/
def judgeChunk (codec : Codec) (chunkSize : Nat) (behind : Bytes) : Find :=
  if behind.length < chunkSize then
    .bad (.ioException "failed to read chunk")
  else
    match codec.getUncompressedLength (behind.take chunkSize) with
    | none => .bad (throw_error .parsingError)
    | some n =>
      if n < 2 ^ 31 then
        match codec.rawUncompress (behind.take chunkSize) with
        | .ok x => .chunk x (behind.drop chunkSize)
        | .error _ => .bad (throw_error .failedToUncompress)
      else .oversized

/-- One round: a codec header is passed over, or something is found. -/
def judge (codec : Codec) (limit : Int) (data : Bytes) : Bytes ⊕ Find :=
  if data.length < 4 then .inr .finished
  else
    let chunkSize := readInt data 0
    if chunkSize = SnappyCodec.magicHeaderHead then
      if data.length < SnappyCodec.headerSize then
        .inr (.bad (.snappyIOException .failedToUncompress
          "Insufficient header size in a concatenated block"))
      else
        match isValidHeader (data.take SnappyCodec.headerSize) with
        | .ok true => .inl (data.drop SnappyCodec.headerSize)
        | .ok false => .inr (.stop (data.drop SnappyCodec.headerSize))
        | .error e => .inr (.bad e)
    else if chunkSize < 0 then
      .inr (.bad (.snappyError .invalidChunkSize
        ("chunkSize is too big or negative : " ++ toString chunkSize)))
    else if chunkSize > limit then
      .inr (.bad (.snappyError .failedToUncompress ("Received chunkSize " ++
        formatGrouped chunkSize ++ " is greater than max configured chunk size " ++
        formatGrouped limit)))
    else
      .inr (judgeChunk codec chunkSize.toNat (data.drop 4))

section
variable {codec : Codec} {limit : Int} {data rest : Bytes}

theorem judge_inl (h : judge codec limit data = .inl rest) :
    rest = data.drop SnappyCodec.headerSize ∧ SnappyCodec.headerSize ≤ data.length := by
  unfold judge at h
  split at h
  · cases h
  dsimp only at h
  split at h
  · split at h
    · cases h
    · rename_i hlen
      split at h
      · exact ⟨(Sum.inl.inj h).symm, by omega⟩
      · cases h
      · cases h
  · split at h
    · cases h
    · split at h <;> cases h

theorem judge_inl_lt (h : judge codec limit data = .inl rest) : rest.length < data.length := by
  obtain ⟨rfl, hle⟩ := judge_inl h
  rw [SnappyCodec.headerSize_eq] at hle
  rw [List.length_drop, SnappyCodec.headerSize_eq]
  omega

end

/-- What is found behind the codec headers in front. -/
def next (codec : Codec) (limit : Int) (data : Bytes) : Find :=
  match h : judge codec limit data with
  | .inl rest =>
    have := judge_inl_lt h
    next codec limit rest
  | .inr found => found
termination_by data.length

section
variable {codec : Codec} {limit : Int} {data rest x : Bytes}

theorem next_of_inl (h : judge codec limit data = .inl rest) :
    next codec limit data = next codec limit rest := by
  rw [next]
  split
  · rename_i r h'
    rw [Sum.inl.inj (h.symm.trans h')]
  · rename_i f h'
    rw [h] at h'
    cases h'

theorem next_of_inr {found : Find} (h : judge codec limit data = .inr found) :
    next codec limit data = found := by
  rw [next]
  split
  · rename_i r h'
    rw [h] at h'
    cases h'
  · rename_i f h'
    exact (Sum.inr.inj (h.symm.trans h')).symm

/-- What follows a chunk is shorter. -/
theorem judge_chunk_lt (h : judge codec limit data = .inr (.chunk x rest)) :
    rest.length < data.length := by
  unfold judge at h
  split at h
  · cases h
  rename_i hlen
  dsimp only at h
  split at h
  · split at h
    · cases h
    · split at h <;> cases h
  · split at h
    · cases h
    · split at h
      · cases h
      · simp only [judgeChunk, Sum.inr.injEq] at h
        split at h
        · cases h
        · split at h
          · cases h
          · split at h
            · split at h
              · cases h
                rw [List.length_drop, List.length_drop]
                omega
              · cases h
            · cases h

theorem judge_stop_lt (h : judge codec limit data = .inr (.stop rest)) :
    rest.length < data.length := by
  unfold judge at h
  split at h
  · cases h
  rename_i hlen
  dsimp only at h
  split at h
  · split at h
    · cases h
    · split at h
      · cases h
      · cases h
        rw [List.length_drop, SnappyCodec.headerSize_eq]
        omega
      · cases h
  · split at h
    · cases h
    · split at h
      · cases h
      · simp only [judgeChunk, Sum.inr.injEq] at h
        split at h
        · cases h
        · split at h
          · cases h
          · split at h
            · split at h <;> cases h
            · cases h

/-- What is found is found in one round, with no more bytes in front. -/
theorem exists_judge (codec : Codec) (limit : Int) (data : Bytes) :
    ∃ behind : Bytes, behind.length ≤ data.length ∧
      judge codec limit behind = .inr (next codec limit data) := by
  induction hn : data.length using Nat.strong_induction_on generalizing data with
  | _ n ih =>
    subst hn
    cases hj : judge codec limit data with
    | inl r =>
      have hr := judge_inl_lt hj
      obtain ⟨behind, hle, hb⟩ := ih r.length hr r rfl
      exact ⟨behind, by omega, by rw [next_of_inl hj, hb]⟩
    | inr found => exact ⟨data, Nat.le_refl _, by rw [next_of_inr hj, hj]⟩

theorem next_chunk_lt (h : next codec limit data = .chunk x rest) : rest.length < data.length := by
  obtain ⟨behind, hle, hj⟩ := exists_judge codec limit data
  have := judge_chunk_lt (hj.trans (congrArg _ h))
  omega

theorem next_stop_lt (h : next codec limit data = .stop rest) : rest.length < data.length := by
  obtain ⟨behind, hle, hj⟩ := exists_judge codec limit data
  have := judge_stop_lt (hj.trans (congrArg _ h))
  omega

end

/-! ## One round -/

/-- What every state of a reader with the given limit satisfies. -/
structure Shape (limit : Int) (s : SnappyInputStream) : Prop where
  limit_eq : s.maxChunkSize = limit
  length_header : s.header.length = SnappyCodec.headerSize
  cursor_le : s.uncompressedCursor ≤ s.uncompressedLimit
  limit_le : s.uncompressedLimit ≤ (s.uncompressed.getD []).length

/-- The same, and what has been said of the native decompressor. -/
structure Sound (limit : Int) (s : SnappyInputStream) : Prop extends Shape limit s where
  measured : Measured s

/-- The decompressor works on its own fields only. -/
structure Unmoved (s t : SnappyInputStream) : Prop where
  input_eq : t.input = s.input
  finished_eq : t.finishedReading = s.finishedReading
  header_eq : t.header = s.header
  limit_eq : t.maxChunkSize = s.maxChunkSize
  cursor_eq : t.uncompressedCursor = s.uncompressedCursor

/-- A block whose length has lost its sign: the first one asks for an array of
negative size, a later one overruns the array that is there. -/
def oversizedFault (s : SnappyInputStream) : Throwable :=
  if s.uncompressed = none then .negativeArraySizeException else .memoryFault .rawUncompress

/-- The four bytes read last, over the header before. -/
theorem readInt_splice_take {header data : Bytes} (h : 4 ≤ data.length) :
    readInt (splice header 0 (data.take 4)) 0 = readInt data 0 := by
  obtain ⟨a, b, c, d, rest, rfl⟩ : ∃ a b c d rest, data = a :: b :: c :: d :: rest := by
    match data, h with
    | a :: b :: c :: d :: rest, _ => exact ⟨a, b, c, d, rest, rfl⟩
  simp [readInt, splice]

section
variable {codec : Codec} {limit : Int} {s : SnappyInputStream}

/-- The chunk at the front of `compressed`. -/
theorem wp_uncompressChunk_judge (hroom : (s.uncompressed.getD []).length < 2 ^ 31) {n : Nat}
    {behind : Bytes} (hc : (s.compressed.getD []).take n = behind.take n) (hn : n ≤ behind.length)
    {Q : Unit → SnappyInputStream → Prop} {E : Throwable → SnappyInputStream → Prop}
    (hBad : ∀ e t, judgeChunk codec n behind = .bad e → Unmoved s t →
      t.uncompressedLimit = s.uncompressedLimit → E e t)
    (hOversized : ∀ t, judgeChunk codec n behind = .oversized → Unmoved s t →
      t.uncompressedLimit = s.uncompressedLimit → E (oversizedFault s) t)
    (hChunk : ∀ t u x, judgeChunk codec n behind = .chunk x (behind.drop n) → Unmoved s t →
      t.uncompressed = some u → t.uncompressedLimit = x.length → x.length ≤ u.length →
      u.take x.length = x → Q () t) :
    wp (uncompressChunk codec n) Q E s := by
  have hshort : ¬ behind.length < n := by omega
  cases hd : codec.getUncompressedLength (behind.take n) with
  | none =>
    have hlen : Snappy.uncompressedLength codec (behind.take n) = .error (throw_error .parsingError) := by
      rw [Snappy.uncompressedLength, hd]
    simp only [uncompressChunk, wp_bind, wp_get, hc, hlen, wp_fromExcept_error]
    exact hBad _ s (by simp only [judgeChunk, if_neg hshort, hd]) ⟨rfl, rfl, rfl, rfl, rfl⟩ rfl
  | some d =>
    have hd32 := codec.getUncompressedLength_lt _ _ hd
    by_cases hlt : d < 2 ^ 31
    · cases hx : codec.rawUncompress (behind.take n) with
      | ok x =>
        have hxd := codec.length_rawUncompress _ _ hx
        rw [hd, Option.some.injEq] at hxd
        apply wp_uncompressChunk (show x.length < 2 ^ 31 by omega) (hc ▸ hx)
        intro u calls hul hux
        refine hChunk _ u x ?_ ⟨rfl, rfl, rfl, rfl, rfl⟩ rfl rfl hul hux
        simp only [judgeChunk, if_neg hshort, hd, if_pos hlt, hx]
      | error written =>
        have hlen := Snappy.uncompressedLength_of_lt hd hlt
        have hbad : judgeChunk codec n behind = .bad (throw_error .failedToUncompress) := by
          simp only [judgeChunk, if_neg hshort, hd, if_pos hlt, hx]
        have hrun : ∀ (t : SnappyInputStream) (P : Int → SnappyInputStream → Prop),
            t = s ∨ (∃ u, t = { s with uncompressed := some u }) →
            d ≤ (t.uncompressed.getD []).length → wp (uncompress codec n) P E t := by
          intro t P ht hle
          have hcomp : t.compressed = s.compressed := by rcases ht with rfl | ⟨u, rfl⟩ <;> rfl
          have hlim : t.uncompressedLimit = s.uncompressedLimit := by
            rcases ht with rfl | ⟨u, rfl⟩ <;> rfl
          have hfail : (Snappy.uncompress codec (behind.take n) (t.uncompressed.getD [])).1 =
              .error (throw_error .failedToUncompress) := by
            simp only [Snappy.uncompress, hd, Option.getD_some, hx]
            rw [if_neg (by omega)]
          simp only [uncompress, wp_bind, wp_get, wp_set, hcomp, hc, hfail, wp_fromExcept_error]
          refine hBad _ _ hbad ?_ hlim
          rcases ht with rfl | ⟨u, rfl⟩ <;> exact ⟨rfl, rfl, rfl, rfl, rfl⟩
        simp only [uncompressChunk, wp_bind, wp_get, hc, hlen, wp_fromExcept_ok, wp_when, wp_ite,
          allocateUncompressed, wp_modify, wp_throw]
        split
        · rw [if_neg (by omega)]
          exact hrun _ _ (.inr ⟨_, rfl⟩) (by simp)
        · rename_i hbig
          exact hrun s _ (.inl rfl) (by omega)
    · have hover : judgeChunk codec n behind = .oversized := by
        simp only [judgeChunk, if_neg hshort, hd, if_neg hlt]
      have hneg : Words.wrap32 d < 0 := Words.wrap32_neg (by omega) (by omega)
      have hlen : Snappy.uncompressedLength codec (behind.take n) = .ok (Words.wrap32 d) := by
        rw [Snappy.uncompressedLength, hd]
      simp only [uncompressChunk, wp_bind, wp_get, hc, hlen, wp_fromExcept_ok, wp_when, wp_ite,
        allocateUncompressed, wp_modify, wp_throw, if_pos hneg]
      by_cases hnone : s.uncompressed = none
      · rw [if_pos (.inl hnone)]
        have := hOversized s hover ⟨rfl, rfl, rfl, rfl, rfl⟩ rfl
        rwa [oversizedFault, if_pos hnone] at this
      · have hfault : (Snappy.uncompress codec (behind.take n) (s.uncompressed.getD [])).1 =
            .error (.memoryFault .rawUncompress) := by
          simp only [Snappy.uncompress, hd, Option.getD_some]
          rw [if_pos (by omega)]
        rw [if_neg (by rintro (h | h); exacts [hnone h, absurd h (by omega)])]
        simp only [uncompress, wp_bind, wp_get, wp_set, hc, hfault, wp_fromExcept_error]
        rw [show Throwable.memoryFault .rawUncompress = oversizedFault s from (if_neg hnone).symm]
        exact hOversized _ hover ⟨rfl, rfl, rfl, rfl, rfl⟩ rfl

/-- A codec header of which not all is there. -/
theorem wp_concatenatedHeader_short (hlen : s.header.length = SnappyCodec.headerSize)
    (hshort : s.input.data.length < 12) {Q : Bool → SnappyInputStream → Prop}
    {E : Throwable → SnappyInputStream → Prop}
    (hE : ∀ t, t.maxChunkSize = s.maxChunkSize → t.header.length = SnappyCodec.headerSize →
      t.uncompressedCursor = s.uncompressedCursor → t.uncompressedLimit = s.uncompressedLimit →
      t.uncompressed = s.uncompressed → E (.snappyIOException .failedToUncompress
        "Insufficient header size in a concatenated block") t) :
    wp concatenatedHeader Q E s := by
  have hsize : SnappyCodec.headerSize - 4 = 12 := rfl
  simp only [concatenatedHeader, wp_bind, wp_get, wp_ite, wp_throw, hsize]
  apply wp_readNext (by rw [hlen]; decide)
  intro i _ _
  rw [if_pos (by omega)]
  refine hE _ rfl ?_ rfl rfl rfl
  rw [length_splice (by rw [List.length_take, hlen, SnappyCodec.headerSize_eq]; omega), hlen]

/-- Between two chunks, in front of `rest`. -/
structure Waiting (limit : Int) (rest : Bytes) (s : SnappyInputStream) : Prop
    extends Shape limit s where
  finished_eq : s.finishedReading = false
  done : s.uncompressedLimit ≤ s.uncompressedCursor
  data_eq : s.input.data = rest

/-- `hasNextChunk` has answered, having found this. -/
def Answers (limit : Int) (s : SnappyInputStream) : Find → Bool → SnappyInputStream → Prop
  | .finished, more, t => more = false ∧ Shape limit t ∧ t.finishedReading = true ∧
      t.uncompressedLimit ≤ t.uncompressedCursor
  | .stop rest, more, t => more = false ∧ Waiting limit rest t
  | .chunk x rest, more, t => more = true ∧ Shape limit t ∧ t.finishedReading = false ∧
      undelivered t = x ∧ t.input.data = rest ∧ t.uncompressed ≠ none ∧ t.input.size < s.input.size
  | _, _, _ => False

/-- It has thrown, having found this. -/
def Throws (limit : Int) (s : SnappyInputStream) : Find → Throwable → SnappyInputStream → Prop
  | .bad e', e, t => e = e' ∧ Shape limit t
  | .oversized, e, t => e = oversizedFault s ∧ Shape limit t
  | _, _, _ => False

/-- One round of it. -/
def RoundAnswers (limit : Int) (s : SnappyInputStream) :
    Bytes ⊕ Find → Unit ⊕ Bool → SnappyInputStream → Prop
  | .inl rest, r, t => r = .inl () ∧ Waiting limit rest t ∧ t.uncompressed = s.uncompressed ∧
      t.input.size < s.input.size
  | .inr found, r, t => ∃ more, r = .inr more ∧ Answers limit s found more t

def RoundThrows (limit : Int) (s : SnappyInputStream) :
    Bytes ⊕ Find → Throwable → SnappyInputStream → Prop
  | .inl _, _, _ => False
  | .inr found, e, t => Throws limit s found e t

theorem wp_nextChunkRound_judge {data : Bytes} (h : Waiting limit data s)
    (hroom : (s.uncompressed.getD []).length < 2 ^ 31) :
    wp (nextChunkRound codec ()) (RoundAnswers limit s (judge codec limit data))
      (RoundThrows limit s (judge codec limit data)) s := by
  have hlen := h.length_header
  have hlimit := h.limit_eq
  have hfin := h.finished_eq
  obtain rfl := h.data_eq
  generalize hjudge : judge codec limit s.input.data = j
  rw [judge] at hjudge
  by_cases hshort : s.input.data.length < 4
  · rw [if_pos hshort] at hjudge
    subst hjudge
    simp only [nextChunkRound_eq, wp_bind, wp_get, wp_ite, wp_pure, wp_set, hfin,
      Bool.false_eq_true, if_false]
    apply wp_readNext (by rw [hlen]; decide)
    intro i _ _
    dsimp only
    rw [if_pos (by omega), if_pos hshort]
    refine ⟨false, rfl, rfl, ⟨hlimit, ?_, Nat.le_refl _, Nat.zero_le _⟩, rfl, Nat.le_refl _⟩
    rw [length_splice (by rw [List.length_take, hlen, SnappyCodec.headerSize_eq]; omega), hlen]
  rw [if_neg hshort] at hjudge
  dsimp only at hjudge
  have h4 : (s.input.data.take 4).length = 4 := by rw [List.length_take]; omega
  apply wp_nextChunkRound_size hlen hfin h4 (List.take_append_drop 4 _).symm
  intro i hi hf
  have hheader : (splice s.header 0 (s.input.data.take 4)).length = SnappyCodec.headerSize := by
    rw [length_splice (by rw [h4, hlen]; decide), hlen]
  have hshape : ∀ t : SnappyInputStream, t.maxChunkSize = s.maxChunkSize →
      t.header.length = SnappyCodec.headerSize → t.uncompressedCursor = 0 →
      t.uncompressedLimit = 0 → Shape limit t := by
    intro t ht hh hcur hlim
    exact ⟨ht.trans hlimit, hh, by omega, by omega⟩
  simp only [afterSize, wp_bind, wp_get, wp_ite, wp_pure, wp_throw]
  rw [readInt_splice_take (by omega)]
  split
  · rename_i hmagic
    rw [if_pos hmagic] at hjudge
    by_cases h16 : s.input.data.length < SnappyCodec.headerSize
    · rw [if_pos h16] at hjudge
      subst hjudge
      rw [SnappyCodec.headerSize_eq] at h16
      apply wp_concatenatedHeader_short hheader (by dsimp only; rw [hi, List.length_drop]; omega)
      intro t ht hh hcur hlim _
      exact ⟨rfl, hshape t ht hh hcur hlim⟩
    · rw [if_neg h16] at hjudge
      have h16' : (s.input.data.take SnappyCodec.headerSize).length = SnappyCodec.headerSize := by
        rw [List.length_take]; omega
      have hdata : i.data = (s.input.data.take SnappyCodec.headerSize).drop 4 ++
          s.input.data.drop SnappyCodec.headerSize := by
        rw [hi, ← List.drop_append_of_le_length (by rw [h16']; decide), List.take_append_drop]
      apply wp_concatenatedHeader hheader h16' ?_ hdata
      · intro j hj hfj
        have hless : j.size < s.input.size := by
          simp only at hfj
          rw [SnappyCodec.headerSize_eq] at h16 hj
          rw [Source.size, Source.size, hj, List.length_drop]
          omega
        cases hv : isValidHeader (s.input.data.take SnappyCodec.headerSize) with
        | error e =>
          rw [hv] at hjudge
          subst hjudge
          exact ⟨rfl, hshape _ rfl h16' rfl rfl⟩
        | ok valid =>
          rw [hv] at hjudge
          cases valid with
          | false =>
            subst hjudge
            exact ⟨false, rfl, rfl, hshape _ rfl h16' rfl rfl, hfin, Nat.le_refl _, hj⟩
          | true =>
            subst hjudge
            exact ⟨rfl, ⟨hshape _ rfl h16' rfl rfl, hfin, Nat.le_refl _, hj⟩, rfl, hless⟩
      · have htake := take_splice_zero s.header (s.input.data.take 4)
        rw [h4] at htake
        rw [htake, List.take_take]
        rfl
  · rename_i hmagic
    rw [if_neg hmagic] at hjudge
    split
    · rename_i hneg
      rw [if_pos hneg] at hjudge
      subst hjudge
      exact ⟨rfl, hshape _ rfl hheader rfl rfl⟩
    · rename_i hneg
      rw [if_neg hneg] at hjudge
      split
      · rename_i hlarge
        rw [if_pos (by rw [← hlimit]; exact hlarge)] at hjudge
        subst hjudge
        rw [hlimit]
        exact ⟨rfl, hshape _ hlimit.symm hheader rfl rfl⟩
      · rename_i hlarge
        rw [if_neg (by rw [← hlimit]; exact hlarge)] at hjudge
        obtain ⟨n, hn⟩ := Int.eq_ofNat_of_zero_le (Int.not_lt.mp hneg)
        rw [hn, Int.toNat_natCast] at hjudge
        rw [hn, Int.toNat_natCast]
        generalize hbehind : s.input.data.drop 4 = behind at hjudge hi
        apply wp_readCompressed
        intro k c hk hfk htake
        dsimp only at hk hfk htake ⊢
        rw [hi] at hk htake
        rw [hi]
        split
        · rename_i hcut
          have hc : behind.length < n := by omega
          rw [judgeChunk, if_pos hc] at hjudge
          subst hjudge
          exact ⟨rfl, hshape _ rfl hheader rfl rfl⟩
        · rename_i hwhole
          rw [Nat.min_eq_left (by omega)] at htake
          have hless : k.size < s.input.size := by
            have hbl : behind.length = s.input.data.length - 4 := by
              rw [← hbehind, List.length_drop]
            rw [Source.size, Source.size, hk, List.length_drop]
            omega
          apply @wp_uncompressChunk_judge codec _ (by exact hroom) n behind (by exact htake) (by omega)
          · intro e t hj hu hlim
            subst hjudge
            rw [hj]
            exact ⟨rfl, hshape t hu.limit_eq (by rw [hu.header_eq]; exact hheader) hu.cursor_eq hlim⟩
          · intro t hj hu hlim
            subst hjudge
            rw [hj]
            exact ⟨rfl, hshape t hu.limit_eq (by rw [hu.header_eq]; exact hheader) hu.cursor_eq hlim⟩
          · intro t u x hj hu hun hlim hle hux
            subst hjudge
            rw [hj]
            have hcur : t.uncompressedCursor = 0 := hu.cursor_eq
            refine ⟨true, rfl, rfl, ⟨hu.limit_eq.trans hlimit, by rw [hu.header_eq]; exact hheader,
              by omega, by rw [hlim, hun]; exact hle⟩, by rw [hu.finished_eq]; exact hfin, ?_, ?_,
              by simp [hun], by rw [hu.input_eq]; exact hless⟩
            · rw [undelivered, hun, hcur, hlim, Option.getD_some, Nat.sub_zero, slice, List.drop_zero,
                hux]
            · rw [hu.input_eq]
              exact hk

/-- What is found is decided by the bytes that are left. -/
theorem wp_nextChunkLoop_judge {data : Bytes} (h : Waiting limit data s) (hm : Measured s) {m : Nat}
    (hfuel : s.input.size < m) :
    wp (loop .outOfFuel (nextChunkRound codec) m ()) (Answers limit s (next codec limit data))
      (Throws limit s (next codec limit data)) s := by
  induction m generalizing s data with
  | zero => omega
  | succ m ih =>
    rw [loop, wp_bind]
    refine wp_mono (wp_and (wp_nextChunkRound_judge h hm.room) (keeps_nextChunkRound () s hm)) ?_ ?_
    · rintro r t ⟨hr, hmt⟩
      cases hj : judge codec limit data with
      | inl rest =>
        rw [hj] at hr
        obtain ⟨rfl, hw, hun, hlt⟩ := hr
        rw [next_of_inl hj]
        refine wp_mono (ih hw hmt (by omega)) ?_ ?_
        · intro more u hu
          cases hn : next codec limit rest with
          | chunk x behind =>
            rw [hn] at hu
            obtain ⟨hmore, hs, hf, hx, hd, hne, hsize⟩ := hu
            exact ⟨hmore, hs, hf, hx, hd, hne, by omega⟩
          | _ => rw [hn] at hu; exact hu
        · intro e u hu
          cases hn : next codec limit rest with
          | oversized =>
            rw [hn] at hu
            simpa only [Throws, oversizedFault, hun] using hu
          | _ => rw [hn] at hu; exact hu
      | inr found =>
        rw [hj] at hr
        obtain ⟨more, rfl, ha⟩ := hr
        rw [next_of_inr hj]
        exact ha
    · rintro e t ⟨ht, -⟩
      cases hj : judge codec limit data with
      | inl rest =>
        rw [hj] at ht
        exact ht.elim
      | inr found =>
        rw [hj] at ht
        rw [next_of_inr hj]
        exact ht

theorem wp_hasNextChunk_next {data : Bytes} (h : Waiting limit data s) (hm : Measured s) :
    wp (hasNextChunk codec)
      (fun more t => Answers limit s (next codec limit data) more t ∧ Measured t)
      (fun e t => Throws limit s (next codec limit data) e t ∧ Measured t) s := by
  refine wp_and ?_ (keeps_hasNextChunk s hm)
  simp only [hasNextChunk, wp_bind, wp_get]
  exact wp_nextChunkLoop_judge h hm (Nat.lt_succ_self _)

/-- Once the end has been found it stays found. -/
theorem wp_hasNextChunk_finished (h : s.finishedReading = true)
    {Q : Bool → SnappyInputStream → Prop} {E : Throwable → SnappyInputStream → Prop}
    (hQ : Q false s) : wp (hasNextChunk codec) Q E s := by
  simp only [hasNextChunk, wp_bind, wp_get, loop, nextChunkRound, h, if_true, wp_pure]
  exact hQ

end

/-! ## What is still to come -/

/-- The chunks up to the first thing that is none, and that thing. -/
def contents (codec : Codec) (limit : Int) (data : Bytes) : List Bytes × Find :=
  match h : next codec limit data with
  | .chunk x rest =>
    have := next_chunk_lt h
    (x :: (contents codec limit rest).1, (contents codec limit rest).2)
  | found => ([], found)
termination_by data.length

theorem contents_of_chunk {codec : Codec} {limit : Int} {data x rest : Bytes}
    (h : next codec limit data = .chunk x rest) : contents codec limit data =
      (x :: (contents codec limit rest).1, (contents codec limit rest).2) := by
  rw [contents]
  split
  · rename_i y r h'
    obtain ⟨rfl, rfl⟩ := Find.chunk.inj (h.symm.trans h')
    rfl
  · rename_i hne
    exact absurd h (hne x rest)

theorem contents_of_ne_chunk {codec : Codec} {limit : Int} {data : Bytes}
    (h : ∀ x rest, next codec limit data ≠ .chunk x rest) :
    contents codec limit data = ([], next codec limit data) := by
  rw [contents]
  split
  · rename_i y r h'
    exact absurd h' (h y r)
  · rfl

theorem contents_of_bad {codec : Codec} {limit : Int} {data : Bytes} {e : Throwable}
    (h : next codec limit data = .bad e) : contents codec limit data = ([], .bad e) := by
  rw [contents_of_ne_chunk (by simp [h]), h]

theorem contents_stop_lt {codec : Codec} {limit : Int} {data rest : Bytes}
    (h : (contents codec limit data).2 = .stop rest) : rest.length < data.length := by
  induction hn : data.length using Nat.strong_induction_on generalizing data with
  | _ n ih =>
    subst hn
    by_cases hc : ∃ y r, next codec limit data = .chunk y r
    · obtain ⟨y, r, hc⟩ := hc
      rw [contents_of_chunk hc] at h
      have hr := next_chunk_lt hc
      have := ih _ hr h rfl
      omega
    · rw [contents_of_ne_chunk fun y r hy => hc ⟨y, r, hy⟩] at h
      exact next_stop_lt h

/-- How a reader comes to its end. -/
inductive Ending
  | finished
  /-- The end is reported, but `rest` is still there. -/
  | stop (rest : Bytes)
  | fails (e : Throwable)
  deriving DecidableEq, Repr

/-- The end a reader comes to, which for a block that has lost its sign depends
on whether it has an array already. -/
def Find.ending (fresh : Bool) : Find → Ending
  | .stop rest => .stop rest
  | .bad e => .fails e
  | .oversized => .fails (if fresh then .negativeArraySizeException else .memoryFault .rawUncompress)
  | _ => .finished

/-- What a reader would deliver on being asked again after the end. -/
def Ending.behind (codec : Codec) (limit : Int) : Ending → Bytes
  | .stop data => (contents codec limit data).1.flatten
  | _ => []

/-- The data still to come in a state, and the end after it. -/
def look (codec : Codec) (s : SnappyInputStream) : Bytes × Ending :=
  if s.finishedReading then (undelivered s, .finished)
  else
    let c := contents codec s.maxChunkSize s.input.data
    (undelivered s ++ c.1.flatten, c.2.ending (decide (s.uncompressed = none ∧ c.1 = [])))

/-- `rest` is still to come, and then the end. -/
def Holding (codec : Codec) (limit : Int) (ending : Ending) (rest : Bytes) (s : SnappyInputStream) :
    Prop :=
  Sound limit s ∧ look codec s = (rest, ending)

/-- The end has been reported. -/
def Done (limit : Int) : Ending → SnappyInputStream → Prop
  | .finished, t => Sound limit t ∧ t.finishedReading = true ∧
      t.uncompressedLimit ≤ t.uncompressedCursor
  | .stop rest, t => Waiting limit rest t ∧ Measured t
  | .fails _, _ => False

section
variable {codec : Codec} {limit : Int} {s : SnappyInputStream} {ending : Ending} {rest : Bytes}

theorem Done.sound (h : Done limit ending s) : Sound limit s := by
  cases ending with
  | finished => exact h.1
  | stop r => exact ⟨h.1.toShape, h.2⟩
  | fails e => exact h.elim

theorem undelivered_advance {n : Nat} (hcur : s.uncompressedCursor ≤ s.uncompressedLimit)
    (hlim : s.uncompressedLimit ≤ (s.uncompressed.getD []).length)
    (hn : n ≤ s.uncompressedLimit - s.uncompressedCursor) (behind : Bytes) :
    undelivered { s with uncompressedCursor := s.uncompressedCursor + n } ++ behind =
      (undelivered s ++ behind).drop n := by
  have hsplit := slice_append (s.uncompressed.getD []) s.uncompressedCursor n
    (s.uncompressedLimit - s.uncompressedCursor - n)
  rw [Nat.add_sub_of_le hn] at hsplit
  have hnl : (slice (s.uncompressed.getD []) s.uncompressedCursor n).length = n :=
    length_slice _ (by omega)
  simp only [undelivered, Nat.sub_add_eq]
  rw [← hsplit, List.append_assoc, List.drop_left' hnl]

/-- Between two chunks the end is what `next` finds, or lies behind it. -/
theorem look_of_waiting {data : Bytes} (h : Waiting limit data s) : look codec s =
    ((contents codec limit data).1.flatten, (contents codec limit data).2.ending
      (decide (s.uncompressed = none ∧ (contents codec limit data).1 = []))) := by
  rw [look, h.finished_eq, h.limit_eq, h.data_eq, undelivered_eq_nil h.done]
  simp

/-- Asked again after the end, a reader goes on with what lies behind it. -/
theorem Done.holding (h : Done limit ending s) :
    ∃ ending', Holding codec limit ending' (ending.behind codec limit) s := by
  cases ending with
  | finished =>
    obtain ⟨hs, hfin, hdone⟩ := h
    exact ⟨.finished, hs, by rw [look, if_pos hfin, undelivered_eq_nil hdone]; rfl⟩
  | stop data => exact ⟨_, ⟨h.1.toShape, h.2⟩, look_of_waiting h.1⟩
  | fails e => exact h.elim

/-- The data still to come is handed out piece by piece, whatever the bytes of
the input. -/
theorem feeds_holding : Feeds codec (Holding codec limit ending) (Done limit ending)
    (fun e t => ending = .fails e ∧ Sound limit t) where
  cursor_le := fun h => h.1.cursor_le
  limit_le := fun h => h.1.limit_le
  undelivered_prefix := by
    rintro rest s ⟨-, hlook⟩
    rw [look] at hlook
    split at hlook
    · rw [(Prod.mk.inj hlook).1]
    · exact ⟨_, (Prod.mk.inj hlook).1⟩
  advance := by
    rintro rest s n ⟨hs, hlook⟩ hn
    have hcur := hs.cursor_le
    have hlim := hs.limit_le
    refine ⟨⟨⟨hs.limit_eq, hs.length_header, by dsimp only; omega, hlim⟩,
      hs.measured.frame rfl rfl⟩, ?_⟩
    rw [look] at hlook ⊢
    dsimp only
    split at hlook
    · rename_i hfin
      obtain ⟨rfl, rfl⟩ := Prod.mk.inj hlook
      rw [if_pos hfin]
      have := undelivered_advance hcur hlim hn []
      simp only [List.append_nil] at this
      rw [this]
    · rename_i hfin
      obtain ⟨rfl, rfl⟩ := Prod.mk.inj hlook
      rw [if_neg hfin, undelivered_advance hcur hlim hn]
  next := by
    rintro rest s ⟨hs, hlook⟩ hdone
    by_cases hfin : s.finishedReading = true
    · rw [look, if_pos hfin, undelivered_eq_nil hdone] at hlook
      obtain ⟨rfl, rfl⟩ := Prod.mk.inj hlook
      exact wp_hasNextChunk_finished hfin ⟨rfl, hs, hfin, hdone⟩
    have hw : Waiting limit s.input.data s := ⟨hs.toShape, by simpa using hfin, hdone, rfl⟩
    rw [look_of_waiting hw] at hlook
    obtain ⟨rfl, rfl⟩ := Prod.mk.inj hlook
    refine wp_mono (wp_hasNextChunk_next hw hs.measured) ?_ ?_
    · rintro more t ⟨ha, hm⟩
      cases hn : next codec limit s.input.data with
      | chunk x behind =>
        rw [hn] at ha
        obtain ⟨rfl, hshape, hf, hx, hd, hne, hless⟩ := ha
        rw [contents_of_chunk hn]
        refine ⟨⟨⟨hshape, hm⟩, ?_⟩, hless⟩
        rw [look, if_neg (by simp [hf]), hx, hd, hshape.limit_eq]
        simp [hne]
      | finished =>
        rw [hn] at ha
        obtain ⟨rfl, hshape, hf, hd⟩ := ha
        rw [contents_of_ne_chunk (by simp [hn]), hn]
        exact ⟨rfl, ⟨hshape, hm⟩, hf, hd⟩
      | stop behind =>
        rw [hn] at ha
        obtain ⟨rfl, hwt⟩ := ha
        rw [contents_of_ne_chunk (by simp [hn]), hn]
        exact ⟨rfl, hwt, hm⟩
      | bad e => rw [hn] at ha; exact ha.elim
      | oversized => rw [hn] at ha; exact ha.elim
    · rintro e t ⟨ht, hm⟩
      cases hn : next codec limit s.input.data with
      | bad e' =>
        rw [hn] at ht
        obtain ⟨rfl, hshape⟩ := ht
        rw [contents_of_ne_chunk (by simp [hn]), hn]
        exact ⟨rfl, rfl, hshape, hm⟩
      | oversized =>
        rw [hn] at ht
        obtain ⟨rfl, hshape⟩ := ht
        rw [contents_of_ne_chunk (by simp [hn]), hn]
        refine ⟨rfl, ?_, hshape, hm⟩
        simp [Find.ending, oversizedFault]
      | _ => rw [hn] at ht; exact ht.elim

end

/-! ## Opening -/

/-- What the constructor leaves alone. -/
structure Fresh (limit : Int) (s : SnappyInputStream) : Prop where
  limit_eq : s.maxChunkSize = limit
  length_header : s.header.length = SnappyCodec.headerSize
  cursor_eq : s.uncompressedCursor = 0
  end_eq : s.uncompressedLimit = 0

section
variable {codec : Codec} {limit : Int}

theorem Fresh.shape {s : SnappyInputStream} (h : Fresh limit s) : Shape limit s :=
  ⟨h.limit_eq, h.length_header, by rw [h.cursor_eq]; exact Nat.zero_le _,
    by rw [h.end_eq]; exact Nat.zero_le _⟩

theorem Fresh.frame {s t : SnappyInputStream} (h : Fresh limit s)
    (hlimit : t.maxChunkSize = s.maxChunkSize) (hheader : t.header = s.header)
    (hcur : t.uncompressedCursor = s.uncompressedCursor)
    (hend : t.uncompressedLimit = s.uncompressedLimit) : Fresh limit t :=
  ⟨hlimit.trans h.limit_eq, by rw [hheader]; exact h.length_header, hcur.trans h.cursor_eq,
    hend.trans h.end_eq⟩

theorem keeps_fresh_readFullyRound (cursor : Nat) : Keeps (Fresh limit) (readFullyRound cursor) := by
  refine Keeps.bind Keeps.get fun s => ?_
  refine Keeps.bind (Keeps.zoom _ fun _ _ h => h.frame rfl rfl rfl rfl) fun r => ?_
  cases r with
  | none => exact Keeps.pure _
  | some data =>
    dsimp only
    refine Keeps.bind (Keeps.update fun t h => h.frame rfl rfl rfl rfl) fun _ => ?_
    split
    · split
      · exact Keeps.throw _
      · exact Keeps.bind (Keeps.update fun t h => h.frame rfl rfl rfl rfl) fun _ => Keeps.pure _
    · exact Keeps.pure _

theorem wp_readFully_shape {s : SnappyInputStream} (h : Fresh limit s) (fragment : Bytes) (n : Nat) :
    wp (readFully codec fragment n) (fun _ t => Shape limit t) (fun _ _ => True) s := by
  simp only [readFully, wp_ite, wp_bind, wp_modify, wp_get]
  split
  · refine Fresh.shape ?_
    exact h.frame rfl rfl rfl rfl
  · have h' : Fresh limit { s with
        compressed := some (splice (newArray (max (8 * 1024) n)) 0 (fragment.take n)) } :=
      h.frame rfl rfl rfl rfl
    refine wp_mono (Keeps.loop keeps_fresh_readFullyRound _ n _ h') ?_ (fun _ _ _ => trivial)
    intro cursor t ht
    cases hlen : Snappy.uncompressedLength codec ((t.compressed.getD []).take cursor) with
    | error e => trivial
    | ok len =>
      simp only [wp_fromExcept_ok, allocateUncompressed, wp_ite, wp_throw, wp_modify, uncompress,
        wp_bind, wp_get, wp_set]
      split
      · trivial
      · rename_i hneg
        have hl : (Snappy.uncompress codec ((t.compressed.getD []).take cursor)
            ((some (newArray len.toNat)).getD [])).2.length = len.toNat := by
          rw [Snappy.length_uncompress, Option.getD_some, length_newArray]
        cases hr : (Snappy.uncompress codec ((t.compressed.getD []).take cursor)
            ((some (newArray len.toNat)).getD [])).1 with
        | error e => trivial
        | ok m =>
          simp only [wp_fromExcept_ok]
          exact ⟨ht.limit_eq, ht.length_header, Nat.zero_le _, Nat.le_of_eq hl.symm⟩

/-- An open stream is in a good state, whatever its input. -/
theorem sound_new {input : Source} {s : SnappyInputStream} (h : new codec input limit = .ok s) :
    Sound limit s := by
  have hshape : wp (readHeader codec) (fun _ t => Shape limit t) (fun _ _ => True)
      (initial input limit) := by
    have hheader : (newArray SnappyCodec.headerSize).length = 16 := by simp
    simp only [readHeader, initial, wp_bind, wp_get, onIn, wp_zoom, wp_modify, wp_ite, wp_throw,
      wp_when]
    apply wp_fill (by rw [hheader])
    intro i _ _
    have hfresh : Fresh limit { initial input limit with
        input := i, header := splice (newArray SnappyCodec.headerSize) 0
          (input.data.take (newArray SnappyCodec.headerSize).length) } := by
      refine ⟨rfl, ?_, rfl, rfl⟩
      rw [length_splice (by rw [List.length_take]; omega), hheader]
      rfl
    split
    · trivial
    · split
      · exact wp_readFully_shape hfresh _ _
      · exact hfresh.shape
  unfold new at h
  cases hr : (readHeader codec).run (initial input limit) with
  | error e t => rw [hr] at h; cases h
  | ok a t =>
    rw [hr] at h
    obtain rfl := Except.ok.inj h
    have hmeasured := @keeps_readHeader codec (initial input limit)
      ⟨by simp [initial], by simp [initial]⟩
    have hs := wp_ok hshape hr
    have hm := wp_ok hmeasured hr
    exact ⟨hs, hm⟩

end

end SnappyJava.SnappyInputStream
