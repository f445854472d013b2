import SnappyJava.LiteralCodec
import SnappyJava.BlockReader

/-! The array into which `readFully` collects its input. Its length is a power of
two and is doubled in 32 bits whenever the array is full, so it is never longer
than 2^30, and input that long does not get in. -/

namespace SnappyJava.SnappyInputStream

open Exec Memory Words

/-- `cursor` bytes of the input are in the array, whose length is `2 ^ m`. -/
structure Held (block : Bytes) (m cursor : Nat) (t : SnappyInputStream) : Prop where
  size : (t.compressed.getD []).length = 2 ^ m
  exponent_le : m ≤ 30
  room : cursor < 2 ^ m
  cursor_le : cursor ≤ block.length
  collected : (t.compressed.getD []).take cursor = block.take cursor
  rest : t.input.data = block.drop cursor

section
variable {block : Bytes} {m cursor : Nat} {s : SnappyInputStream}

/-- The array of 8 KB that `readFully` begins with. -/
theorem held_start {fragment : Bytes} (hle : cursor ≤ block.length) (hshort : cursor < 8 * 1024)
    (hfrag : fragment.take cursor = block.take cursor) (hdata : s.input.data = block.drop cursor) :
    Held block 13 cursor { s with
      compressed := some (splice (newArray (max (8 * 1024) cursor)) 0 (fragment.take cursor)) } := by
  have hlen : (fragment.take cursor).length = cursor := by
    rw [hfrag, List.length_take]
    omega
  refine ⟨?_, by decide, by omega, hle, ?_, hdata⟩
  · simp only [Option.getD_some]
    rw [length_splice (by rw [hlen, length_newArray]; omega), length_newArray]
    omega
  · simp only [Option.getD_some]
    rw [splice, List.take_zero, List.nil_append, List.take_left' hlen, hfrag]

/-- A round finds the end of the input. Or it takes some bytes; then there is
still room, or the array is doubled, or it cannot be. -/
theorem wp_readFullyRound (h : Held block m cursor s) {Q : Nat ⊕ Nat → SnappyInputStream → Prop}
    {E : Throwable → SnappyInputStream → Prop}
    (hEnd : ∀ i : Source, cursor = block.length → i.data = [] →
      Q (.inr cursor) { s with input := i })
    (hNext : ∀ (i : Source) (c : Bytes) (n m' : Nat), i.size < s.input.size →
      Held block m' n { s with input := i, compressed := some c } →
      Q (.inl n) { s with input := i, compressed := some c })
    (hOver : ∀ t, 2 ^ 30 ≤ block.length → E .negativeArraySizeException t) :
    wp (readFullyRound cursor) Q E s := by
  obtain ⟨hsize, hm, hroom, hle, hcollected, hrest⟩ := h
  have hpow : 2 ^ (m + 1) = 2 * 2 ^ m := Nat.pow_succ'
  have hlarge : 30 ≤ m → 2 ^ m = 2 ^ 30 := fun hge => by rw [Nat.le_antisymm hm hge]
  have h30 : 2 ^ m ≤ 2 ^ 30 := Nat.pow_le_pow_right (by decide) hm
  have hsucc : m < 30 → 2 * 2 ^ m ≤ 2 ^ 30 := fun hlt =>
    hpow ▸ Nat.pow_le_pow_right (by decide) hlt
  generalize hL : 2 ^ m = L at hsize hroom hpow hlarge h30 hsucc
  generalize hc : s.compressed.getD [] = c at hsize hcollected
  simp only [readFullyRound, wp_bind, wp_get, onIn, wp_zoom, hc]
  apply Source.wp_read (by omega)
  · intro i hnil _ hi _
    rw [hrest, List.drop_eq_nil_iff] at hnil
    exact hEnd i (by omega) hi
  intro k i hk hkd hi _ _ hless
  rw [hrest, List.length_drop] at hkd
  have hlen : (s.input.data.take k).length = k := by
    rw [hrest, List.length_take, List.length_drop]
    omega
  have hi' : i.data = block.drop (cursor + k) := by rw [hi, hrest, List.drop_drop]
  have hsplice : (splice c cursor (s.input.data.take k)).length = L := by
    rw [length_splice (by omega), hsize]
  have htake : (splice c cursor (s.input.data.take k)).take (cursor + k) =
      block.take (cursor + k) := by
    have htaken := @take_splice _ c (s.input.data.take k) cursor (by omega)
    rw [hlen] at htaken
    rw [htaken, hcollected, hrest, ← List.take_add]
  simp only [wp_bind, wp_modify, wp_ite, wp_throw, wp_pure, hlen, hsplice]
  generalize hnew : wrap32 (2 * (L : Int)) = newLength
  split
  · rename_i hfull
    by_cases hlt : m < 30
    · have hnext := hsucc hlt
      rw [wrap32_of_range (by omega) (by omega)] at hnew
      have hgrow : (newArray newLength.toNat).length = 2 * L := by
        rw [length_newArray]
        omega
      rw [if_neg (by omega)]
      refine hNext i _ (cursor + k) (m + 1) hless ⟨?_, hlt, by omega, by omega, ?_, hi'⟩
      · rw [hpow, Option.getD_some, length_splice (by omega), hgrow]
      · rw [Option.getD_some, splice, List.take_zero, List.nil_append,
          List.take_append_of_le_length (by omega), htake]
    · have h2 := hlarge (Nat.le_of_not_lt hlt)
      have hneg : wrap32 (2 * (L : Int)) < 0 := wrap32_neg (by omega) (by omega)
      rw [hnew] at hneg
      rw [if_pos hneg]
      exact hOver _ (by omega)
  · exact hNext i _ (cursor + k) m hless
      ⟨by rw [hL]; exact hsplice, hm, by omega, by omega, htake, hi'⟩

/-- The loop ends with the whole input in the array, or it cannot double it. -/
theorem wp_readFullyLoop (h : Held block m cursor s) {Q : Nat → SnappyInputStream → Prop}
    {E : Throwable → SnappyInputStream → Prop}
    (hQ : ∀ (i : Source) (c : Option Bytes) (m' : Nat), i.data = [] →
      Held block m' block.length { s with input := i, compressed := c } →
      Q block.length { s with input := i, compressed := c })
    (hOver : ∀ t, 2 ^ 30 ≤ block.length → E .negativeArraySizeException t) :
    wp (loop .outOfFuel readFullyRound (s.input.size + 1) cursor) Q E s := by
  refine wp_loop
    (fun n t => ∃ (i : Source) (c : Option Bytes) (m' : Nat),
      t = { s with input := i, compressed := c } ∧ Held block m' n t)
    (fun _ t => t.input.size) ?_ ⟨s.input, s.compressed, m, rfl, h⟩ (Nat.lt_succ_self _)
  rintro n t ⟨i, c, m', rfl, hheld⟩
  apply wp_readFullyRound hheld
  · rintro j rfl hnil
    exact hQ j c m' hnil { hheld with rest := by rw [hnil, List.drop_length] }
  · intro j d n' m'' hless hnext
    exact ⟨⟨j, some d, m'', rfl, hnext⟩, hless⟩
  · exact hOver

/-! ## Collecting the input -/

/-- A round has room to read into, and where it fills the array the length it
computes for the next one is above the number of bytes held. -/
structure RoundSound (cursor : Nat) (t : SnappyInputStream) : Prop where
  room : 0 < (t.compressed.getD []).length - cursor
  growth : ∀ data i,
    (Source.read ((t.compressed.getD []).length - cursor)).run t.input = .ok (some data) i →
    (t.compressed.getD []).length ≤ cursor + data.length →
    ((cursor + data.length : Nat) : Int) < wrap32 (2 * (t.compressed.getD []).length)

/-- Every round from `k` bytes on is sound, and the loop ends with the input at
the front of the array. -/
def Collects (block : Bytes) (k : Nat) (s : SnappyInputStream) : Prop :=
  (∀ cursor t, Rounds readFullyRound k s cursor t → RoundSound cursor t) ∧
    wp (loop .outOfFuel readFullyRound (s.input.size + 1) k)
      (fun cursor t => cursor = block.length ∧ (t.compressed.getD []).take cursor = block)
      (fun _ _ => False) s

theorem Held.roundSound (h : Held block m cursor s) (hblock : block.length < 2 ^ 30) :
    RoundSound cursor s := by
  have hsize := h.size
  have hroom := h.room
  have hrest := congrArg List.length h.rest
  rw [List.length_drop] at hrest
  refine ⟨by omega, ?_⟩
  intro data i hread hfull
  have hpart : data.length ≤ s.input.data.length ∧
      data.length ≤ (s.compressed.getD []).length - cursor := by
    have hwp : wp (Source.read ((s.compressed.getD []).length - cursor))
        (fun r _ => ∀ d, r = some d → d.length ≤ s.input.data.length ∧
          d.length ≤ (s.compressed.getD []).length - cursor) (fun _ _ => True) s.input := by
      apply Source.wp_read (by omega)
      · intro _ _ _ _ _ d hd
        cases hd
      · rintro n _ hn hnd _ _ _ _ d ⟨⟩
        rw [List.length_take]
        omega
    exact wp_ok hwp hread data rfl
  generalize (s.compressed.getD []).length = L at hsize hfull hpart ⊢
  rw [wrap32_of_range (by omega) (by omega)]
  omega

theorem Held.rounds (h : Held block m cursor s) {n : Nat} {t : SnappyInputStream}
    (hr : Rounds readFullyRound cursor s n t) : ∃ m', Held block m' n t := by
  refine Rounds.invariant (I := fun n t => ∃ m', Held block m' n t) ?_ ⟨m, h⟩ hr
  rintro n t ⟨m', h'⟩
  exact wp_readFullyRound h' (fun _ _ _ => trivial) (fun _ _ _ m'' _ h'' => ⟨m'', h''⟩)
    fun _ _ => trivial

theorem collects_iff_of_held (h : Held block m cursor s) :
    Collects block cursor s ↔ block.length < 2 ^ 30 := by
  constructor
  · rintro ⟨-, hloop⟩
    have hbound : wp (loop .outOfFuel readFullyRound (s.input.size + 1) cursor)
        (fun _ _ => block.length < 2 ^ 30) (fun _ _ => True) s := by
      apply wp_readFullyLoop h
      · intro i c m' _ hheld
        exact Nat.lt_of_lt_of_le hheld.room (Nat.pow_le_pow_right (by decide) hheld.exponent_le)
      · exact fun _ _ => trivial
    obtain ⟨_, _, -, hlt⟩ := exists_of_wp (wp_mono (wp_and hloop hbound)
      (fun _ _ hq => hq) fun _ _ he => he.1)
    exact hlt.2
  · intro hblock
    refine ⟨fun n t hr => ?_, ?_⟩
    · obtain ⟨m', h'⟩ := h.rounds hr
      exact h'.roundSound hblock
    · apply wp_readFullyLoop h
      · intro i c m' _ hheld
        refine ⟨rfl, ?_⟩
        rw [hheld.collected, List.take_length]
      · intro t hlarge
        omega

end

/-! ## From the constructor on -/

/-- Not the header mode: the input is not empty, and it is shorter than a header
or does not begin like one. -/
def RawInput (data : Bytes) : Prop :=
  data ≠ [] ∧ (data.length < SnappyCodec.headerSize ∨
    SnappyCodec.hasMagicHeaderPrefix (data.take SnappyCodec.headerSize) = false)

/-- The constructor up to the loop of `readFully`. -/
def enterReadFully : Method Nat := do
  let s ← get
  let (header, readBytes) ← onIn (fill s.header 0 s.header.length)
  modify fun s => { s with header }
  let buffer := splice (newArray (max (8 * 1024) readBytes)) 0 (header.take readBytes)
  modify fun s => { s with compressed := some buffer }
  pure readBytes

/-- What follows the loop: the block is decompressed. -/
def leaveReadFully (codec : Codec) (cursor : Nat) : Method Unit := do
  modify fun s => { s with finishedReading := true }
  let t ← get
  let uncompressedLength ←
    fromExcept (Snappy.uncompressedLength codec ((t.compressed.getD []).take cursor))
  allocateUncompressed uncompressedLength
  let _ ← uncompress codec cursor
  modify fun s => { s with
    uncompressedCursor := 0, uncompressedLimit := uncompressedLength.toNat }

section
variable {codec : Codec} {input : Source} {maxChunkSize : Int}

/-- The first 16 bytes of the input, or all of it, are in `header`. -/
theorem wp_fill_header {Q : Bytes × Nat → Source → Prop} {E : Throwable → Source → Prop}
    (hQ : ∀ (i : Source) (header : Bytes), header.length = 16 →
      header.take (min 16 input.data.length) = input.data.take (min 16 input.data.length) →
      i.data = input.data.drop (min 16 input.data.length) →
      Q (header, min 16 input.data.length) i) :
    wp (fill (newArray SnappyCodec.headerSize) 0 SnappyCodec.headerSize) Q E input := by
  have hsize : SnappyCodec.headerSize = 16 := rfl
  rw [hsize]
  apply wp_fill (by rw [length_newArray])
  intro i hi _
  have hlen : (input.data.take 16).length = min 16 input.data.length := List.length_take
  have htake := take_splice_zero (newArray 16) (input.data.take 16)
  rw [hlen] at htake
  refine hQ i _ ?_ ?_ ?_
  · rw [length_splice (by rw [hlen, length_newArray]; omega), length_newArray]
  · rw [htake]
    rcases Nat.le_total 16 input.data.length with hge | hle
    · rw [Nat.min_eq_left hge]
    · rw [Nat.min_eq_right hle, List.take_of_length_le hle, List.take_length]
  · rw [hi]
    rcases Nat.le_total 16 input.data.length with hge | hle
    · rw [Nat.min_eq_left hge]
    · rw [Nat.min_eq_right hle, List.drop_length, List.drop_eq_nil_of_le hle]

/-- In raw mode the constructor is the three parts one after another. -/
theorem readHeader_eq (h : RawInput input.data) :
    (readHeader codec).run (initial input maxChunkSize) =
      (do
        let k ← enterReadFully
        let s ← get
        let cursor ← loop .outOfFuel readFullyRound (s.input.size + 1) k
        leaveReadFully codec cursor).run (initial input maxChunkSize) := by
  have hsize : SnappyCodec.headerSize = 16 := rfl
  have hpos := List.length_pos_iff.mpr h.1
  obtain ⟨⟨header, readBytes⟩, i, hrun, hread, hlen, htake⟩ := exists_of_wp
    (@wp_fill_header input
      (fun p _ => p.2 = min 16 input.data.length ∧ p.1.length = 16 ∧
        p.1.take p.2 = input.data.take p.2) _
      fun i header hlen htake _ => ⟨rfl, hlen, htake⟩)
  dsimp only at hread hlen htake
  have hfill : (onIn (fill (newArray SnappyCodec.headerSize) 0 SnappyCodec.headerSize)).run
      (initial input maxChunkSize) =
        .ok (header, readBytes) { initial input maxChunkSize with input := i } := by
    have hinput : (initial input maxChunkSize).input = input := rfl
    unfold onIn zoom
    simp only [EStateM.run, hinput] at hrun ⊢
    rw [hrun]
  have hraw : readBytes < header.length ∨ SnappyCodec.hasMagicHeaderPrefix header = false := by
    rcases Nat.lt_or_ge input.data.length 16 with hlt | hge
    · exact .inl (by omega)
    · have hfull : readBytes = 16 := by omega
      rw [hfull, List.take_of_length_le (Nat.le_of_eq hlen)] at htake
      rcases h.2 with hshort | hmagic
      · omega
      · exact .inr (by rw [htake]; exact hmagic)
  have hheader : (initial input maxChunkSize).header = newArray SnappyCodec.headerSize := rfl
  have hnonempty : ¬ readBytes = 0 := by omega
  simp only [readHeader, enterReadFully, EStateM.run_bind, EStateM.run_get, hheader,
    length_newArray, hfill, EStateM.run_modify, if_neg hnonempty, when, if_pos hraw, readFully]
  rfl

/-- The loop is entered with the first 16 bytes, or all of them, in an array of 8 KB. -/
theorem wp_enterReadFully (h : RawInput input.data) :
    wp enterReadFully (fun k s => Held input.data 13 k s) (fun _ _ => False)
      (initial input maxChunkSize) := by
  have hpos := List.length_pos_iff.mpr h.1
  simp only [enterReadFully, initial, wp_bind, wp_get, onIn, wp_zoom, wp_modify, wp_pure,
    length_newArray]
  apply wp_fill_header
  intro i header _ htake hi
  exact held_start (s := { initial input maxChunkSize with input := i, header }) (by omega)
    (by omega) htake hi

/-- Input that is not in header mode is collected by sound rounds exactly if it is
shorter than 2^30 bytes. -/
theorem collects_iff (codec : Codec) (h : RawInput input.data) (maxChunkSize : Int) :
    (readHeader codec).run (initial input maxChunkSize) =
        (do
          let k ← enterReadFully
          let s ← get
          let cursor ← loop .outOfFuel readFullyRound (s.input.size + 1) k
          leaveReadFully codec cursor).run (initial input maxChunkSize) ∧
      wp enterReadFully
        (fun k s => Collects input.data k s ↔ input.data.length < 2 ^ 30) (fun _ _ => False)
        (initial input maxChunkSize) :=
  ⟨readHeader_eq h, wp_mono (wp_enterReadFully h) (fun _ _ hheld => collects_iff_of_held hheld)
    (fun _ _ hfalse => hfalse)⟩

end

/-- Zeros are no header. -/
theorem rawInput_newArray {n : Nat} (h : SnappyCodec.headerSize ≤ n) : RawInput (newArray n) := by
  rw [SnappyCodec.headerSize_eq] at h
  refine ⟨List.length_pos_iff.mp (by rw [length_newArray]; omega), .inr ?_⟩
  rw [newArray, List.take_replicate, SnappyCodec.headerSize_eq, Nat.min_eq_left h]
  decide

/-- 20000 zero bytes: the array of 8 KB is doubled twice. -/
theorem collects_iff_zeros :
    (readHeader literalCodec).run (initial ⟨newArray 20000, [1, 2]⟩ 16) =
        (do
          let k ← enterReadFully
          let s ← get
          let cursor ← loop .outOfFuel readFullyRound (s.input.size + 1) k
          leaveReadFully literalCodec cursor).run (initial ⟨newArray 20000, [1, 2]⟩ 16) ∧
      wp enterReadFully (fun k s => Collects (newArray 20000) k s) (fun _ _ => False)
        (initial ⟨newArray 20000, [1, 2]⟩ 16) := by
  have hall : ∀ n : Nat, SnappyCodec.headerSize ≤ n → n < 2 ^ 30 →
      (readHeader literalCodec).run (initial ⟨newArray n, [1, 2]⟩ 16) =
          (do
            let k ← enterReadFully
            let s ← get
            let cursor ← loop .outOfFuel readFullyRound (s.input.size + 1) k
            leaveReadFully literalCodec cursor).run (initial ⟨newArray n, [1, 2]⟩ 16) ∧
        wp enterReadFully (fun k s => Collects (newArray n) k s) (fun _ _ => False)
          (initial ⟨newArray n, [1, 2]⟩ 16) := by
    intro n hn hlt
    have hiff := @collects_iff ⟨newArray n, [1, 2]⟩ literalCodec (rawInput_newArray hn) 16
    refine ⟨hiff.1, wp_mono hiff.2 (fun _ _ hcollects => hcollects.mpr ?_) fun _ _ hfalse => hfalse⟩
    rw [length_newArray]
    exact hlt
  exact hall 20000 (by rw [SnappyCodec.headerSize_eq]; omega) (by omega)

/-- 2^30 zero bytes. The array of that length cannot be doubled. -/
theorem not_collects_zeros :
    RawInput (newArray (2 ^ 30)) ∧
      wp enterReadFully (fun k s => ¬ Collects (newArray (2 ^ 30)) k s) (fun _ _ => False)
        (initial ⟨newArray (2 ^ 30), []⟩ 536870912) := by
  have hall : ∀ n : Nat, 2 ^ 30 ≤ n → RawInput (newArray n) ∧
      wp enterReadFully (fun k s => ¬ Collects (newArray n) k s) (fun _ _ => False)
        (initial ⟨newArray n, []⟩ 536870912) := by
    intro n hn
    have hraw : RawInput (newArray n) := rawInput_newArray (Nat.le_trans (by decide) hn)
    refine ⟨hraw, wp_mono (@wp_enterReadFully ⟨newArray n, []⟩ 536870912 hraw) ?_
      fun _ _ hfalse => hfalse⟩
    intro k s hheld hcollects
    have hlt := (collects_iff_of_held hheld).mp hcollects
    rw [length_newArray] at hlt
    omega
  exact hall (2 ^ 30) (Nat.le_refl _)

end SnappyJava.SnappyInputStream
