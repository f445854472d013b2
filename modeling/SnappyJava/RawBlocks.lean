import SnappyJava.RawGrowth
import SnappyJava.RawFormat

/-! A `SnappyInputStream` over one block that `Snappy.compress` has made: the
block is never taken for the beginning of a stream, and is read whole. -/

namespace SnappyJava.SnappyInputStream

open Exec Memory Reading

/-! ## Reading the whole input -/

section
variable {codec : Codec} {s : SnappyInputStream} {block x : Bytes}

/-- The block is read to its end and decompressed. -/
theorem wp_readFully (hx : x.length < 2 ^ 31) (hgood : codec.rawUncompress block = .ok x)
    (hsize : block.length < 2 ^ 30) {fragment : Bytes} {n : Nat} (hpos : 0 < n)
    (hshort : n < 8 * 1024) (hn : n ≤ block.length) (hfrag : fragment.take n = block.take n)
    (hdata : s.input.data = block.drop n) (hlen : s.header.length = SnappyCodec.headerSize)
    {limit : Int} (hlimit : s.maxChunkSize = limit) {Q : Unit → SnappyInputStream → Prop}
    {E : Throwable → SnappyInputStream → Prop}
    (hQ : ∀ t, HoldsBefore codec limit Short x t → Q () t) :
    wp (readFully codec fragment n) Q E s := by
  simp only [readFully, wp_ite, wp_bind, wp_modify, wp_get]
  rw [if_neg (by omega)]
  apply wp_readFullyLoop (held_start hn hshort hfrag hdata)
  case hOver =>
    intro t hlarge
    omega
  · intro i c m hi hheld
    have hc : (c.getD []).take block.length = block := by
      rw [hheld.collected, List.take_length]
    have hdecl := codec.length_rawUncompress _ _ hgood
    have hmeasure := Snappy.uncompressedLength_of_lt hdecl hx
    have hroom : x.length ≤ (newArray x.length).length := by rw [length_newArray]
    have hun : (splice (newArray x.length) 0 x).length = x.length := by
      rw [length_splice (by rw [length_newArray]; omega), length_newArray]
    simp only [Option.getD_some, hc, hmeasure, wp_fromExcept_ok, allocateUncompressed, wp_ite,
      wp_modify, uncompress, wp_bind, wp_get, wp_set, Int.toNat_natCast,
      Snappy.uncompress_of_ok hgood hroom hx]
    rw [if_neg (by omega)]
    refine hQ _ ⟨[], [], Nat.zero_lt_succ 3, ⟨hi, hlimit, by simp, hlen, Nat.zero_le _, ?_,
      fun _ => ⟨rfl, rfl⟩⟩, ?_⟩
    · simp only [Option.getD_some, hun, Nat.le_refl]
    · simp only [undelivered, Option.getD_some, List.flatMap_nil, List.append_nil, Nat.sub_zero]
      have := take_splice_zero (newArray x.length) x
      rw [slice, List.drop_zero, this]

end

/-! ## Opening -/

/-- A block of the raw format does not begin like a stream. -/
theorem not_hasMagicHeaderPrefix {block : Bytes} (hvalid : RawFormat.Valid block)
    (h16 : 16 ≤ block.length) : SnappyCodec.hasMagicHeaderPrefix (block.take 16) = false := by
  have h8 : min SnappyCodec.magicLen (block.take 16).length = 8 := by
    have hmagic : SnappyCodec.magicLen = 8 := rfl
    rw [List.length_take]
    omega
  have hne : block.take 8 ≠ SnappyCodec.magicHeader := by
    intro h
    rw [← List.take_append_drop 8 block, h] at hvalid
    exact RawFormat.not_valid_magic _ hvalid
  simp only [SnappyCodec.hasMagicHeaderPrefix, h8, List.take_take]
  exact decide_eq_false hne

/-- A reader of a raw block holds its data. -/
theorem new_block {codec : Codec} (hf : codec.Formatted) {block x : Bytes} (hx : x.length < 2 ^ 31)
    (hgood : codec.rawUncompress block = .ok x) (hsize : block.length < 2 ^ 30) {input : Source}
    (hdata : input.data = block) {limit : Int} :
    ∃ s, new codec input limit = .ok s ∧ HoldsBefore codec limit Short x s := by
  have hvalid := hf block x hgood
  have hpos : 0 < block.length := by
    rw [List.length_pos_iff]
    rintro rfl
    obtain ⟨n, rest, hparse, -⟩ := hvalid
    cases hparse
  have hrun : wp (readHeader codec) (fun _ t => HoldsBefore codec limit Short x t)
      (fun _ _ => False) (initial input limit) := by
    have hheader : (newArray SnappyCodec.headerSize).length = 16 := by simp
    simp only [readHeader, initial, wp_bind, wp_get, onIn, wp_zoom, wp_modify, wp_ite, wp_throw,
      wp_when]
    apply wp_fill (by rw [hheader])
    intro i hi _
    rw [hheader, hdata] at hi
    rw [hheader, hdata]
    have hl : (splice (newArray SnappyCodec.headerSize) 0 (block.take 16)).length = 16 := by
      rw [length_splice (by rw [List.length_take, hheader]; omega), hheader]
    have htake := take_splice_zero (newArray SnappyCodec.headerSize) (block.take 16)
    rw [List.length_take] at htake
    have hnot : min 16 block.length < (splice (newArray SnappyCodec.headerSize) 0
        (block.take 16)).length ∨ SnappyCodec.hasMagicHeaderPrefix
          (splice (newArray SnappyCodec.headerSize) 0 (block.take 16)) = false := by
      rcases Nat.lt_or_ge block.length 16 with hlt | hge
      · exact .inl (by omega)
      · right
        rw [splice_full (by rw [hheader, List.length_take]; omega)]
        exact not_hasMagicHeaderPrefix hvalid hge
    rw [if_neg (by omega), if_pos hnot]
    refine wp_readFully hx hgood hsize (by omega) (by omega) (by omega) ?_ ?_ hl rfl (fun t ht => ht)
    · rw [htake]
      rcases Nat.lt_or_ge block.length 16 with hlt | hge
      · rw [Nat.min_eq_right (Nat.le_of_lt hlt), List.take_of_length_le (Nat.le_of_lt hlt),
          List.take_length]
      · rw [Nat.min_eq_left hge]
    · rw [hi]
      rcases Nat.lt_or_ge block.length 16 with hlt | hge
      · rw [Nat.min_eq_right (Nat.le_of_lt hlt), List.drop_length,
          List.drop_eq_nil_of_le (Nat.le_of_lt hlt)]
      · rw [Nat.min_eq_left hge]
  unfold new
  obtain ⟨_, t, ht, h⟩ := exists_of_wp hrun
  rw [ht]
  exact ⟨t, rfl, h⟩

/-- A raw block of 16 bytes or more never begins like a stream, and what
`Snappy.compress` has made, handed out in any fragments, is read back by any
calls as the data, and then the end. -/
theorem readsBlock {codec : Codec} (hc : codec.Lawful) (hf : codec.Formatted) :
    (∀ block, RawFormat.Valid block → 16 ≤ block.length →
      SnappyCodec.hasMagicHeaderPrefix (block.take 16) = false) ∧
    ∀ (x : Bytes) (maxChunkSize : Int), x.length < 2 ^ 31 → (codec.compress x).length < 2 ^ 30 →
      ∀ input : Source, input.data = codec.compress x →
        ∃ s, new codec input maxChunkSize = .ok s ∧
          ∀ calls : List ReadCall, (∀ c ∈ calls, c.InRange) →
            wp (runAll (perform codec) calls)
              (fun answers _ => Drains x answers ∧
                ((∃ a ∈ answers, a.ended = true) → given answers = x))
              (fun _ _ => False) s := by
  refine ⟨fun block hvalid h16 => not_hasMagicHeaderPrefix hvalid h16, ?_⟩
  intro x maxChunkSize hx hsize input hdata
  obtain ⟨s, hs, hholds⟩ := @new_block codec hf _ x hx (hc.rawUncompress_compress x hx) hsize input
    hdata maxChunkSize
  refine ⟨s, hs, fun calls hcalls => ?_⟩
  refine wp_mono (wp_runAll_holds hc ends_short hholds hcalls) ?_ (fun _ _ h => h)
  rintro answers t ⟨hd, -⟩
  exact ⟨hd, hd.given_eq_of_ended⟩

theorem readsBlock_literalCodec :
    (∀ block, RawFormat.Valid block → 16 ≤ block.length →
      SnappyCodec.hasMagicHeaderPrefix (block.take 16) = false) ∧
    ∀ (x : Bytes) (maxChunkSize : Int), x.length < 2 ^ 31 →
      (literalCodec.compress x).length < 2 ^ 30 →
      ∀ input : Source, input.data = literalCodec.compress x →
        ∃ s, new literalCodec input maxChunkSize = .ok s ∧
          ∀ calls : List ReadCall, (∀ c ∈ calls, c.InRange) →
            wp (runAll (perform literalCodec) calls)
              (fun answers _ => Drains x answers ∧
                ((∃ a ∈ answers, a.ended = true) → given answers = x))
              (fun _ _ => False) s :=
  readsBlock LiteralCodec.lawful RawFormat.formatted_literalCodec

end SnappyJava.SnappyInputStream
