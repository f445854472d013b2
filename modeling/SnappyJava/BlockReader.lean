import SnappyJava.BlockWriter
import SnappyJava.SnappyInputStream

/-! What a `SnappyInputStream` still holds at every moment of reading a stream
of chunks and headers: the rest of the chunk it has decompressed, and the data
of the items still ahead. -/

namespace SnappyJava.SnappyInputStream

open Exec Memory Reading

/-! ## Reading from the input -/

/-- All that is asked for is read, or all that there is. -/
theorem wp_fill {dest : Bytes} {offset len : Nat} (h : offset + len ≤ dest.length)
    {Q : Bytes × Nat → Source → Prop} {E : Throwable → Source → Prop} {s : Source}
    (hQ : ∀ t : Source, t.data = s.data.drop len → t.fragments.length ≤ s.fragments.length →
      Q (splice dest offset (s.data.take len), min len s.data.length) t) :
    wp (fill dest offset len) Q E s := by
  simp only [fill, wp_bind, wp_get]
  refine wp_loop
    (fun (p : Bytes × Nat) (t : Source) => p.2 ≤ len ∧ p.2 ≤ s.data.length ∧
      p.1 = splice dest offset (s.data.take p.2) ∧ t.data = s.data.drop p.2 ∧
      t.fragments.length ≤ s.fragments.length)
    (fun _ t => t.size) ?_ ⟨Nat.zero_le _, Nat.zero_le _, by simp, by simp, Nat.le_refl _⟩
    (Nat.lt_succ_self _)
  rintro ⟨d, n⟩ t hI
  dsimp only at hI
  obtain ⟨hn, hns, rfl, ht, hf⟩ := hI
  simp only [fillRound, wp_ite, wp_bind, wp_pure]
  split
  · rename_i hlt
    apply Source.wp_read (by omega)
    · intro u hnil _ hu htail
      have hall : n = s.data.length := by
        rw [ht] at hnil
        have := List.drop_eq_nil_iff.mp hnil
        omega
      have hcov : s.data.take n = s.data.take len := by
        rw [List.take_of_length_le (by omega), List.take_of_length_le (by omega)]
      have hmin : n = min len s.data.length := by omega
      simp only [wp_pure, Sum.elim_inr]
      rw [hcov, hmin]
      refine hQ u ?_ (by rw [htail, List.length_tail]; omega)
      rw [hu, List.drop_eq_nil_of_le (by omega)]
    · intro k u hk hkt hu htail _ hsize
      rw [ht, List.length_drop] at hkt
      simp only [wp_pure, Sum.elim_inl]
      have hlen : (s.data.take n).length = n := by simp; omega
      have htake : (t.data.take k).length = k := by rw [ht]; simp; omega
      refine ⟨⟨by rw [htake]; omega, by rw [htake]; omega, ?_, ?_, ?_⟩, hsize⟩
      · have happ := @splice_append _ dest (s.data.take n) (t.data.take k) offset (by omega)
        rw [hlen, Nat.add_comm offset] at happ
        rw [happ, htake, ht, List.take_add]
      · rw [hu, htake, ht, List.drop_drop]
      · rw [htail, List.length_tail]; omega
  · rename_i hge
    have hmin : n = min len s.data.length := by omega
    have hnl : n = len := by omega
    simp only [Sum.elim_inr]
    subst hnl
    have := hQ t ht hf
    rwa [← hmin] at this

/-- What `header` holds after a read that got all it asked for. -/
theorem wp_readNext {offset len : Nat} {Q : Nat → SnappyInputStream → Prop}
    {E : Throwable → SnappyInputStream → Prop} {s : SnappyInputStream}
    (h : offset + len ≤ s.header.length)
    (hQ : ∀ i : Source, i.data = s.input.data.drop len →
      i.fragments.length ≤ s.input.fragments.length →
      Q (min len s.input.data.length) { s with
        input := i, header := splice s.header offset (s.input.data.take len)
        finishedReading := if s.input.data.length < len then true else s.finishedReading }) :
    wp (readNext offset len) Q E s := by
  simp only [readNext, wp_bind, wp_get, onIn, wp_zoom, wp_modify, wp_pure]
  apply wp_fill h
  intro i hi hf
  have hiff : min len s.input.data.length < len ↔ s.input.data.length < len := by omega
  simp only [hiff]
  exact hQ i hi hf

/-- The chunk, or as much of it as there is, goes to the front of `compressed`. -/
theorem wp_readCompressed {chunkSize : Nat} {Q : Nat → SnappyInputStream → Prop}
    {E : Throwable → SnappyInputStream → Prop} {s : SnappyInputStream}
    (hQ : ∀ (i : Source) (c : Bytes), i.data = s.input.data.drop chunkSize →
      i.fragments.length ≤ s.input.fragments.length →
      c.take (min chunkSize s.input.data.length) = s.input.data.take chunkSize →
      Q (min chunkSize s.input.data.length) { s with input := i, compressed := some c }) :
    wp (readCompressed chunkSize) Q E s := by
  have hfill : ∀ t : SnappyInputStream, t = s ∨ (∃ c, t = { s with compressed := some c }) →
      chunkSize ≤ (t.compressed.getD []).length →
      wp (fill (t.compressed.getD []) 0 chunkSize)
        (fun p i => Q p.2 { t with input := i, compressed := some p.1 })
        (fun e i => E e { t with input := i }) t.input := by
    intro t ht hlen
    have hin : t.input = s.input := by rcases ht with rfl | ⟨c, rfl⟩ <;> rfl
    apply wp_fill (by omega)
    rw [hin]
    intro i hi hf
    have hlt : (s.input.data.take chunkSize).length = min chunkSize s.input.data.length := by simp
    have htake := take_splice_zero (t.compressed.getD []) (s.input.data.take chunkSize)
    rw [hlt] at htake
    have := hQ i _ hi hf htake
    rcases ht with rfl | ⟨c, rfl⟩ <;> exact this
  simp only [readCompressed, wp_bind, wp_get, wp_when, wp_modify, onIn, wp_zoom, wp_pure]
  split
  · exact hfill _ (.inr ⟨_, rfl⟩) (by simp)
  · rename_i h
    exact hfill s (.inl rfl) (by omega)

/-- A good block is decompressed to the front of `uncompressed`. -/
theorem wp_uncompressChunk {codec : Codec} {chunkSize : Nat} {x : Bytes}
    {Q : Unit → SnappyInputStream → Prop} {E : Throwable → SnappyInputStream → Prop}
    {s : SnappyInputStream} (hx : x.length < 2 ^ 31)
    (hgood : codec.rawUncompress ((s.compressed.getD []).take chunkSize) = .ok x)
    (hQ : ∀ (u : Bytes) (calls : List UncompressCall), x.length ≤ u.length → u.take x.length = x →
      Q () { s with
        uncompressed := some u, uncompressedLimit := x.length, uncompressCalls := calls }) :
    wp (uncompressChunk codec chunkSize) Q E s := by
  have hdecl := codec.length_rawUncompress _ _ hgood
  have hlen := Snappy.uncompressedLength_of_lt hdecl hx
  -- from here on the destination is large enough
  have hrun : ∀ t : SnappyInputStream, t = s ∨ (∃ u, t = { s with uncompressed := some u }) →
      x.length ≤ (t.uncompressed.getD []).length →
      wp (uncompress codec chunkSize) (fun n v => n = x.length ∧
        Q () { v with uncompressedLimit := n.toNat }) E t := by
    intro t ht hroom
    have hcomp : t.compressed = s.compressed := by rcases ht with rfl | ⟨c, rfl⟩ <;> rfl
    rw [← hcomp] at hgood
    simp only [uncompress, wp_bind, wp_get, wp_set, Snappy.uncompress_of_ok hgood hroom hx,
      wp_fromExcept_ok]
    refine ⟨trivial, ?_⟩
    have hl : (splice (t.uncompressed.getD []) 0 x).length = (t.uncompressed.getD []).length :=
      length_splice (by omega)
    have := fun calls => hQ (splice (t.uncompressed.getD []) 0 x) calls (by rw [hl]; exact hroom)
      (take_splice_zero _ _)
    rcases ht with rfl | ⟨c, rfl⟩ <;> exact this _
  simp only [uncompressChunk, wp_bind, wp_get, hlen, wp_fromExcept_ok, wp_when, wp_ite, wp_modify]
  split
  · simp only [allocateUncompressed, wp_ite, wp_modify, wp_throw]
    rw [if_neg (by omega)]
    refine wp_mono (hrun _ (.inr ⟨_, rfl⟩) (by simp)) ?_ (fun _ _ h => h)
    rintro n v ⟨rfl, h⟩
    rw [if_neg (by simp)]
    exact h
  · rename_i h
    refine wp_mono (hrun s (.inl rfl) (by omega)) ?_ (fun _ _ h => h)
    rintro n v ⟨rfl, h⟩
    rw [if_neg (by simp)]
    exact h

/-! ## Streams of chunks and headers -/

/-- What a stream is made of: codec headers, one in front and one more at each
place where two streams are concatenated, and the chunks of the blocks. -/
inductive Item
  | header
  | chunk (x : Bytes)

namespace Item

def encode (codec : Codec) : Item → Bytes
  | header => SnappyCodec.currentHeader.headerArray
  | chunk x => SnappyOutputStream.encodeBlock codec .snappyOutputStream x

def data : Item → Bytes
  | header => []
  | chunk x => x

/-- A reader with the given limit accepts the item. -/
def Ok (codec : Codec) (maxChunkSize : Int) : Item → Prop
  | header => True
  | chunk x => x ≠ [] ∧ x.length ≤ SnappyOutputStream.maxBlockSize ∧
    (codec.compress x).length ≤ maxChunkSize

theorem encode_chunk (codec : Codec) (x : Bytes) :
    (chunk x).encode codec = intBytes (codec.compress x).length ++ codec.compress x := by
  simp [encode, SnappyOutputStream.encodeBlock, SnappyOutputStream.preemble]

end Item

/-- The decompressed bytes not yet delivered. -/
def undelivered (s : SnappyInputStream) : Bytes :=
  slice (s.uncompressed.getD []) s.uncompressedCursor (s.uncompressedLimit - s.uncompressedCursor)

/-- `items` are still ahead in the input, and then `tail`. -/
structure Ahead (codec : Codec) (limit : Int) (items : List Item) (tail : Bytes) (s : SnappyInputStream) :
    Prop where
  data_eq : s.input.data = items.flatMap (Item.encode codec) ++ tail
  limit_eq : s.maxChunkSize = limit
  items_ok : ∀ i ∈ items, i.Ok codec limit
  length_header : s.header.length = SnappyCodec.headerSize
  cursor_le : s.uncompressedCursor ≤ s.uncompressedLimit
  limit_le : s.uncompressedLimit ≤ (s.uncompressed.getD []).length
  finished : s.finishedReading = true → items = [] ∧ tail = []

/-- The stream still holds `rest`, in front of a tail of the given kind. -/
def HoldsBefore (codec : Codec) (limit : Int) (Tail : Bytes → Prop) (rest : Bytes)
    (s : SnappyInputStream) : Prop :=
  ∃ items tail, Tail tail ∧ Ahead codec limit items tail s ∧
    rest = undelivered s ++ items.flatMap Item.data

/-- Too few bytes for the size of a chunk. -/
def Short (tail : Bytes) : Prop := tail.length < 4

/-- Where only a tail of the given kind is left, `hasNextChunk` finds the end,
which happens only if `silent` holds, or throws as `E` says. -/
def Ends (codec : Codec) (limit : Int) (Tail : Bytes → Prop) (silent : Prop)
    (E : Throwable → SnappyInputStream → Prop) : Prop :=
  ∀ tail t m, Tail tail → Ahead codec limit [] tail t → t.uncompressedLimit ≤ t.uncompressedCursor →
    t.input.size < m →
    wp (loop .outOfFuel (nextChunkRound codec) m ())
      (fun more u => more = false ∧ silent ∧ HoldsBefore codec limit Tail [] u) E t

section
variable {codec : Codec} {s : SnappyInputStream} {limit : Int} {items : List Item}
  {tail rest : Bytes}

theorem Ahead.length_undelivered (h : Ahead codec limit items tail s) :
    (undelivered s).length = s.uncompressedLimit - s.uncompressedCursor := by
  have h₁ := h.cursor_le
  have h₂ := h.limit_le
  exact length_slice _ (by omega)

theorem undelivered_eq_nil (h : s.uncompressedLimit ≤ s.uncompressedCursor) :
    undelivered s = [] := by
  simp [undelivered, Nat.sub_eq_zero_of_le h]

/-- The first four bytes of an item, over the header of the last one. -/
theorem readInt_splice {header : Bytes} {v : Int} (h : -2 ^ 31 ≤ v) (h' : v < 2 ^ 31) :
    readInt (splice header 0 (intBytes v)) 0 = v := by
  simp only [splice, List.take_zero, List.nil_append]
  exact readInt_intBytes h h' _

theorem isValidHeader_headerArray :
    isValidHeader SnappyCodec.currentHeader.headerArray = .ok true := rfl

/-- A codec header between two chunks is read whole, and then judged. -/
theorem wp_concatenatedHeader {header behind : Bytes} {Q : Bool → SnappyInputStream → Prop}
    {E : Throwable → SnappyInputStream → Prop} (hlen : s.header.length = SnappyCodec.headerSize)
    (h16 : header.length = SnappyCodec.headerSize) (hhead : s.header.take 4 = header.take 4)
    (hdata : s.input.data = header.drop 4 ++ behind)
    (hQ : ∀ i : Source, i.data = behind → i.fragments.length ≤ s.input.fragments.length →
      wp (fromExcept (isValidHeader header)) Q E { s with input := i, header := header }) :
    wp concatenatedHeader Q E s := by
  have hl : (header.drop 4).length = 12 := by rw [List.length_drop, h16]; rfl
  have hsize : SnappyCodec.headerSize - 4 = 12 := rfl
  simp only [concatenatedHeader, wp_bind, wp_get, wp_ite, wp_throw, hsize]
  apply wp_readNext (by rw [hlen]; decide)
  intro i hi hf
  have htake : s.input.data.take 12 = header.drop 4 := by rw [hdata, ← hl, List.take_left]
  have hge : ¬ s.input.data.length < 12 := by rw [hdata, List.length_append, hl]; omega
  have hheader : splice s.header 4 (header.drop 4) = header := by
    have hnil : s.header.drop 16 = [] := List.drop_eq_nil_of_le (by rw [hlen]; decide)
    rw [splice, hhead, hl, hnil, List.append_nil, List.take_append_drop]
  rw [if_neg (by omega), if_neg hge, htake, hheader]
  refine hQ i ?_ hf
  rw [hi, hdata, ← hl, List.drop_left]

/-! ## One round of `hasNextChunk` -/

/-- The round behind the four bytes it starts with. -/
def afterSize (codec : Codec) : Method (Unit ⊕ Bool) := do
  let t ← get
  let chunkSize := readInt t.header 0
  if chunkSize = SnappyCodec.magicHeaderHead then
    let valid ← concatenatedHeader
    pure (if valid then .inl () else .inr false)
  else if chunkSize < 0 then
    throw (.snappyError .invalidChunkSize
      ("chunkSize is too big or negative : " ++ toString chunkSize))
  else if chunkSize > t.maxChunkSize then
    throw (.snappyError .failedToUncompress ("Received chunkSize " ++ formatGrouped chunkSize ++
      " is greater than max configured chunk size " ++ formatGrouped t.maxChunkSize))
  else
    let readBytes ← readCompressed chunkSize.toNat
    if readBytes < chunkSize then
      throw (.ioException "failed to read chunk")
    else
      uncompressChunk codec chunkSize.toNat
      pure (.inr true)

theorem nextChunkRound_eq :
    nextChunkRound codec () = (get >>= fun s =>
      if s.finishedReading then pure (.inr false)
      else do
        set { s with uncompressedCursor := 0, uncompressedLimit := 0 }
        let readBytes ← readNext 0 4
        if readBytes < 4 then pure (.inr false) else afterSize codec) := rfl

/-- The four bytes are there. -/
theorem wp_nextChunkRound_size {size behind : Bytes} (hlen : s.header.length = SnappyCodec.headerSize)
    (hfin : s.finishedReading = false) (h4 : size.length = 4) (hdata : s.input.data = size ++ behind)
    {Q : Unit ⊕ Bool → SnappyInputStream → Prop} {E : Throwable → SnappyInputStream → Prop}
    (hQ : ∀ i : Source, i.data = behind → i.fragments.length ≤ s.input.fragments.length →
      wp (afterSize codec) Q E { s with
        input := i, header := splice s.header 0 size, uncompressedCursor := 0
        uncompressedLimit := 0 }) :
    wp (nextChunkRound codec ()) Q E s := by
  have hlong : ¬ s.input.data.length < 4 := by rw [hdata, List.length_append]; omega
  have htake : s.input.data.take 4 = size := by rw [hdata, ← h4, List.take_left]
  simp only [nextChunkRound_eq, wp_bind, wp_get, wp_ite, wp_pure, wp_set, hfin, Bool.false_eq_true,
    if_false]
  apply wp_readNext (by rw [hlen]; decide)
  intro i hi hf
  dsimp only at hi hf ⊢
  rw [if_neg (by omega), if_neg hlong, htake]
  rw [← hfin]
  exact hQ i (by rw [hi, hdata, ← h4, List.drop_left]) hf

/-- They are not. -/
theorem wp_nextChunkRound_short (htail : Short tail) (h : Ahead codec limit [] tail s)
    (hdone : s.uncompressedLimit ≤ s.uncompressedCursor)
    {Q : Unit ⊕ Bool → SnappyInputStream → Prop} {E : Throwable → SnappyInputStream → Prop}
    (hEnd : ∀ t, Ahead codec limit [] [] t → t.uncompressedLimit ≤ t.uncompressedCursor →
      Q (.inr false) t) :
    wp (nextChunkRound codec ()) Q E s := by
  have hlen := h.length_header
  have hdata : s.input.data = tail := h.data_eq
  have h4 : tail.length < 4 := htail
  simp only [nextChunkRound_eq, wp_bind, wp_get, wp_ite, wp_pure, wp_set]
  split
  · rename_i hfin
    obtain ⟨-, rfl⟩ := h.finished hfin
    exact hEnd s h hdone
  · apply wp_readNext (by rw [hlen]; decide)
    intro i hi hf
    dsimp only at hi hf ⊢
    rw [hdata, List.drop_eq_nil_of_le (by omega)] at hi
    rw [hdata, if_pos (by omega), if_pos h4]
    refine hEnd _ { h with
      data_eq := hi, length_header := ?_, cursor_le := Nat.le_refl _, limit_le := Nat.zero_le _
      finished := fun _ => ⟨rfl, rfl⟩ } (Nat.le_refl _)
    rw [← hlen]
    exact length_splice (by rw [List.length_take, hlen, SnappyCodec.headerSize_eq]; omega)

/-- A codec header is taken off the input. -/
theorem wp_nextChunkRound_header {header behind : Bytes}
    (hlen : s.header.length = SnappyCodec.headerSize) (hfin : s.finishedReading = false)
    (h16 : header.length = SnappyCodec.headerSize)
    (hmagic : header.take 4 = intBytes SnappyCodec.magicHeaderHead)
    (hdata : s.input.data = header ++ behind)
    {Q : Unit ⊕ Bool → SnappyInputStream → Prop} {E : Throwable → SnappyInputStream → Prop}
    (hQ : ∀ i : Source, i.data = behind → i.fragments.length ≤ s.input.fragments.length →
      wp (fromExcept (isValidHeader header)) (fun valid => Q (if valid then .inl () else .inr false)) E
        { s with input := i, header := header, uncompressedCursor := 0, uncompressedLimit := 0 }) :
    wp (nextChunkRound codec ()) Q E s := by
  have h4 : (header.take 4).length = 4 := by rw [List.length_take, h16]; rfl
  apply wp_nextChunkRound_size hlen hfin h4 (by rw [hdata, ← List.append_assoc, List.take_append_drop])
  intro i hi hf
  simp only [afterSize, wp_bind, wp_get, wp_ite, wp_pure, hmagic]
  rw [readInt_splice (by decide) (by decide), if_pos rfl]
  refine wp_concatenatedHeader ?_ h16 ?_ hi fun j hj hfj => hQ j hj (Nat.le_trans hfj hf)
  · rw [length_splice (by rw [length_intBytes, hlen]; decide), hlen]
  · rw [hmagic]
    exact take_splice_zero s.header (intBytes SnappyCodec.magicHeaderHead)

/-- A chunk of an accepted size, or as much of it as there is, is read. -/
theorem wp_nextChunkRound_chunk {n : Nat} {behind : Bytes}
    (hlen : s.header.length = SnappyCodec.headerSize) (hfin : s.finishedReading = false)
    (hn : n < 2 ^ 31) (hmax : n ≤ s.maxChunkSize) (hdata : s.input.data = intBytes n ++ behind)
    {Q : Unit ⊕ Bool → SnappyInputStream → Prop} {E : Throwable → SnappyInputStream → Prop}
    (hQ : ∀ (i : Source) (c : Bytes), i.data = behind.drop n →
      i.fragments.length ≤ s.input.fragments.length → c.take n = behind.take n → n ≤ behind.length →
      wp (uncompressChunk codec n) (fun _ => Q (.inr true)) E
        { s with
          input := i, header := splice s.header 0 (intBytes n), compressed := some c
          uncompressedCursor := 0, uncompressedLimit := 0 })
    (hE : behind.length < n → ∀ t, E (.ioException "failed to read chunk") t) :
    wp (nextChunkRound codec ()) Q E s := by
  have hmagic := SnappyCodec.magicHeaderHead_neg
  apply wp_nextChunkRound_size hlen hfin (length_intBytes _) hdata
  intro i hi hf
  simp only [afterSize, wp_bind, wp_get, wp_ite, wp_pure, wp_throw]
  rw [readInt_splice (by omega) (by omega), if_neg (by omega), if_neg (by omega), if_neg (by omega)]
  apply wp_readCompressed
  intro j c hj hfj htakec
  dsimp only at hj hfj htakec ⊢
  rw [Int.toNat_natCast, hi] at hj htakec
  simp only [Int.toNat_natCast, hi]
  split
  · exact hE (by omega) _
  · rw [Nat.min_eq_left (by omega)] at htakec
    exact hQ j c hj (Nat.le_trans hfj hf) htakec (by omega)

/-- A chunk above the limit of the reader is rejected. -/
theorem wp_nextChunkRound_tooLarge {n : Nat} {behind : Bytes}
    (hlen : s.header.length = SnappyCodec.headerSize) (hfin : s.finishedReading = false)
    (hn : n < 2 ^ 31) (hmax : s.maxChunkSize < n) (hdata : s.input.data = intBytes n ++ behind)
    {Q : Unit ⊕ Bool → SnappyInputStream → Prop} {E : Throwable → SnappyInputStream → Prop}
    (hE : ∀ message t, E (.snappyError .failedToUncompress message) t) :
    wp (nextChunkRound codec ()) Q E s := by
  have hmagic := SnappyCodec.magicHeaderHead_neg
  apply wp_nextChunkRound_size hlen hfin (length_intBytes _) hdata
  intro i hi hf
  simp only [afterSize, wp_bind, wp_get, wp_ite, wp_throw]
  rw [readInt_splice (by omega) (by omega), if_neg (by omega), if_neg (by omega), if_pos (by omega)]
  exact hE _ _

/-- One round takes one item off the input. -/
theorem wp_nextChunkRound (hc : codec.Lawful) {item : Item} {is : List Item}
    (h : Ahead codec limit (item :: is) tail s)
    {Q : Unit ⊕ Bool → SnappyInputStream → Prop} {E : Throwable → SnappyInputStream → Prop}
    (hHeader : ∀ t, item = .header → Ahead codec limit is tail t →
      t.uncompressedLimit ≤ t.uncompressedCursor → t.input.size < s.input.size → Q (.inl ()) t)
    (hChunk : ∀ t x, item = .chunk x → Ahead codec limit is tail t → undelivered t = x → x ≠ [] →
      t.input.size < s.input.size → Q (.inr true) t) :
    wp (nextChunkRound codec ()) Q E s := by
  have hlen := h.length_header
  have hdata := h.data_eq
  have hfin : s.finishedReading = false := by
    cases hf : s.finishedReading with
    | false => rfl
    | true => exact absurd (h.finished hf).1 (by simp)
  rw [List.flatMap_cons, List.append_assoc] at hdata
  have hoks : ∀ j ∈ is, j.Ok codec limit := fun j hj => h.items_ok j (by simp [hj])
  cases item with
  | header =>
    have h16 := SnappyCodec.length_headerArray_currentHeader
    apply wp_nextChunkRound_header hlen hfin h16 SnappyCodec.take_headerArray hdata
    intro j hj hfj
    simp only [isValidHeader_headerArray, wp_fromExcept_ok, if_true]
    refine hHeader _ rfl ⟨hj, h.limit_eq, hoks, h16, Nat.le_refl _, Nat.zero_le _, by simp [hfin]⟩
      (Nat.le_refl _) ?_
    simp only [Source.size, hj, hdata, List.length_append, Item.encode, h16]
    omega
  | chunk x =>
    obtain ⟨hne, hxlen, hcsize⟩ := h.items_ok (.chunk x) (by simp)
    have hmax : SnappyOutputStream.maxBlockSize = 536870912 := rfl
    have hclen := hc.length_compress_le x (by omega)
    have hint := length_intBytes (codec.compress x).length
    rw [Item.encode_chunk, List.append_assoc] at hdata
    have hheader : (splice s.header 0 (intBytes (codec.compress x).length)).length =
        SnappyCodec.headerSize := by
      rw [length_splice (by rw [hint, hlen]; decide), hlen]
    apply wp_nextChunkRound_chunk hlen hfin (by omega) (by rw [h.limit_eq]; exact hcsize) hdata
    · intro j c hj hfj htakec _
      rw [List.drop_left] at hj
      rw [List.take_left] at htakec
      apply wp_uncompressChunk (show x.length < 2 ^ 31 by omega)
      · rw [Option.getD_some, htakec]
        exact hc.rawUncompress_compress x (by omega)
      · intro u calls hul hux
        refine hChunk _ x rfl ⟨hj, h.limit_eq, hoks, hheader, Nat.zero_le _, hul, by simp [hfin]⟩ ?_ hne ?_
        · simp [undelivered, hux]
        · simp only [Source.size, hj, hdata, List.length_append, hint]
          omega
    · intro hlt
      rw [List.length_append] at hlt
      omega

/-! ## What the calls find -/

/-- `hasNextChunk` skips headers until a chunk comes or the tail. -/
theorem wp_nextChunkLoop (hc : codec.Lawful) (h : Ahead codec limit items tail s)
    (hdone : s.uncompressedLimit ≤ s.uncompressedCursor) {m : Nat} (hm : s.input.size < m)
    {Q : Bool → SnappyInputStream → Prop} {E : Throwable → SnappyInputStream → Prop}
    (hRest : ∀ t k, items.flatMap Item.data = [] → Ahead codec limit [] tail t →
      t.uncompressedLimit ≤ t.uncompressedCursor → t.input.size < k →
      wp (loop .outOfFuel (nextChunkRound codec) k ()) Q E t)
    (hMore : ∀ t x is, items.flatMap Item.data = x ++ is.flatMap Item.data →
      Ahead codec limit is tail t → undelivered t = x → x ≠ [] → t.input.size < s.input.size → Q true t) :
    wp (loop .outOfFuel (nextChunkRound codec) m ()) Q E s := by
  induction items generalizing s m with
  | nil => exact hRest s m rfl h hdone hm
  | cons item is ih =>
    obtain ⟨k, rfl⟩ : ∃ k, m = k + 1 := ⟨m - 1, by omega⟩
    rw [loop, wp_bind]
    apply wp_nextChunkRound hc h
    · rintro t rfl ht hdonet hlt
      rw [List.flatMap_cons, Item.data, List.nil_append] at hRest hMore
      exact ih ht hdonet (by omega) hRest fun u x is' hx hu hux hne hsize =>
        hMore u x is' hx hu hux hne (by omega)
    · rintro t x rfl ht hux hne hlt
      exact hMore t x is (by rw [List.flatMap_cons, Item.data]) ht hux hne hlt

/-- A tail too short for the size of a chunk is taken for the end. -/
theorem ends_short {E : Throwable → SnappyInputStream → Prop} : Ends codec limit Short True E := by
  intro tail t m htail h hdone hm
  obtain ⟨k, rfl⟩ : ∃ k, m = k + 1 := ⟨m - 1, by omega⟩
  rw [loop, wp_bind]
  apply wp_nextChunkRound_short htail h hdone
  intro u hu hdoneu
  exact ⟨rfl, trivial, [], [], Nat.zero_lt_succ 3, hu, by rw [undelivered_eq_nil hdoneu]; rfl⟩

variable {Tail : Bytes → Prop} {silent : Prop} {E : Throwable → SnappyInputStream → Prop}

/-- `hasNextChunk` finds the next chunk, or whatever the tail makes of it. -/
theorem wp_hasNextChunk (hc : codec.Lawful) (hT : Ends codec limit Tail silent E)
    (h : HoldsBefore codec limit Tail rest s) (hdone : s.uncompressedLimit ≤ s.uncompressedCursor)
    {Q : Bool → SnappyInputStream → Prop}
    (hEnd : ∀ t, silent → rest = [] → HoldsBefore codec limit Tail [] t → Q false t)
    (hMore : ∀ t, HoldsBefore codec limit Tail rest t → t.uncompressedCursor < t.uncompressedLimit →
      t.input.size < s.input.size → Q true t) :
    wp (hasNextChunk codec) Q (fun e t => rest = [] ∧ E e t) s := by
  obtain ⟨items, tail, htail, ha, hrest⟩ := h
  rw [undelivered_eq_nil hdone, List.nil_append] at hrest
  simp only [hasNextChunk, wp_bind, wp_get]
  apply wp_nextChunkLoop hc ha hdone (Nat.lt_succ_self _)
  · intro t k hnil ht hdonet hk
    refine wp_mono (hT tail t k htail ht hdonet hk) ?_ (fun _ _ h => ⟨hrest.trans hnil, h⟩)
    rintro more u ⟨rfl, hsilent, hu⟩
    exact hEnd u hsilent (hrest.trans hnil) hu
  · rintro t x is hx ht rfl hne hlt
    have hpos := List.length_pos_iff.mpr hne
    rw [ht.length_undelivered] at hpos
    exact hMore t ⟨is, tail, htail, ht, hrest.trans hx⟩ (by omega) hlt

end

/-! ## Delivering -/

section
variable {codec : Codec} {s : SnappyInputStream} {rest : Bytes}

/-- `H rest s` says that `rest` is still to come in state `s`, and `Done` what is
left when the end has been reported. -/
structure Feeds (codec : Codec) (H : Bytes → SnappyInputStream → Prop)
    (Done : SnappyInputStream → Prop) (E : Throwable → SnappyInputStream → Prop) : Prop where
  cursor_le : ∀ {rest s}, H rest s → s.uncompressedCursor ≤ s.uncompressedLimit
  limit_le : ∀ {rest s}, H rest s → s.uncompressedLimit ≤ (s.uncompressed.getD []).length
  undelivered_prefix : ∀ {rest s}, H rest s → undelivered s <+: rest
  advance : ∀ {rest s n}, H rest s → n ≤ s.uncompressedLimit - s.uncompressedCursor →
    H (rest.drop n) { s with uncompressedCursor := s.uncompressedCursor + n }
  next : ∀ {rest s}, H rest s → s.uncompressedLimit ≤ s.uncompressedCursor →
    wp (hasNextChunk codec)
      (fun more t => if more then H rest t ∧ t.input.size < s.input.size else rest = [] ∧ Done t)
      (fun e t => rest = [] ∧ E e t) s

variable {H : Bytes → SnappyInputStream → Prop} {Done : SnappyInputStream → Prop}
  {E E' : Throwable → SnappyInputStream → Prop}

theorem length_undelivered (hlim : s.uncompressedLimit ≤ (s.uncompressed.getD []).length)
    (hcur : s.uncompressedCursor ≤ s.uncompressedLimit) :
    (undelivered s).length = s.uncompressedLimit - s.uncompressedCursor :=
  length_slice _ (by omega)

/-- What is handed out of a chunk is the front of what is still to come. -/
theorem Feeds.slice_eq (F : Feeds codec H Done E) (h : H rest s) {n : Nat}
    (hn : n ≤ s.uncompressedLimit - s.uncompressedCursor) :
    slice (s.uncompressed.getD []) s.uncompressedCursor n = rest.take n := by
  have hcur := F.cursor_le h
  have hlim := F.limit_le h
  obtain ⟨behind, hbehind⟩ := F.undelivered_prefix h
  have hsplit := slice_append (s.uncompressed.getD []) s.uncompressedCursor n
    (s.uncompressedLimit - s.uncompressedCursor - n)
  rw [Nat.add_sub_of_le hn] at hsplit
  have hnl : (slice (s.uncompressed.getD []) s.uncompressedCursor n).length = n :=
    length_slice _ (by omega)
  rw [← hbehind, undelivered, ← hsplit, List.append_assoc, List.take_left' hnl]

theorem Feeds.le_length (F : Feeds codec H Done E) (h : H rest s) :
    s.uncompressedLimit - s.uncompressedCursor ≤ rest.length := by
  have := (F.undelivered_prefix h).length_le
  rwa [length_undelivered (F.limit_le h) (F.cursor_le h)] at this

theorem Feeds.uncompressed (F : Feeds codec H Done E) (h : H rest s)
    (hlt : s.uncompressedCursor < s.uncompressedLimit) :
    ∃ u, s.uncompressed = some u ∧ s.uncompressedLimit ≤ u.length := by
  have hl := F.limit_le h
  cases hu : s.uncompressed with
  | none => simp [hu] at hl; omega
  | some u => exact ⟨u, rfl, by simpa [hu] using hl⟩

/-- `read()` delivers the next byte, or -1 at the end. -/
theorem wp_readByte (F : Feeds codec H Done E) (h : H rest s) {Q : Int → SnappyInputStream → Prop}
    (hEnd : ∀ t, rest = [] → Done t → Q (-1) t)
    (hByte : ∀ t x xs, rest = x :: xs → H xs t → Q x.toNat t)
    (hE : ∀ e t, rest = [] → E e t → E' e t) :
    wp (readByte codec) Q E' s := by
  simp only [readByte, wp_bind, wp_get]
  refine wp_loop (fun _ t => H rest t ∧ t.input.size ≤ s.input.size)
    (fun _ t => t.input.size + if t.uncompressedCursor < t.uncompressedLimit then 0 else 1)
    ?_ ⟨h, Nat.le_refl _⟩ (by split <;> omega)
  rintro _ t ⟨ht, hsize⟩
  simp only [readByteRound, wp_bind, wp_get, wp_ite, wp_set, wp_pure]
  split
  · rename_i hlt
    obtain ⟨u, hu, hlim⟩ := F.uncompressed ht hlt
    have hdel := @Feeds.slice_eq _ _ _ _ _ _ F ht 1 (by omega)
    have hrest := @Feeds.advance _ _ _ _ F _ _ 1 ht (by omega)
    have hget : u[t.uncompressedCursor]? = some u[t.uncompressedCursor] :=
      List.getElem?_eq_getElem (by omega)
    have hone : slice u t.uncompressedCursor 1 = [u[t.uncompressedCursor]] := by
      rw [slice, List.drop_eq_getElem_cons (by omega)]
      rfl
    rw [hu, Option.getD_some, hone] at hdel
    simp only [hu, hget, wp_pure, Sum.elim_inr]
    rw [← hu]
    refine hByte _ _ (rest.drop 1) ?_ hrest
    rw [← List.singleton_append, hdel, List.take_append_drop]
  · rename_i hge
    refine wp_mono (F.next ht (by omega)) ?_ (fun e u hu => hE e u hu.1 hu.2)
    intro more u hu
    cases more with
    | false =>
      obtain ⟨hnil, hdone⟩ := hu
      exact hEnd u hnil hdone
    | true =>
      obtain ⟨hu, hless⟩ := hu
      simp only [if_true, Sum.elim_inl]
      refine ⟨⟨hu, by omega⟩, ?_⟩
      split <;> omega

/-- A copy of decompressed bytes to a good destination. -/
theorem wp_copyFromUncompressed (F : Feeds codec H Done E) (h : H rest s) {copy : ArrayCopy}
    {b : Bytes} {offset : Int} {n : Nat} (hn : n ≤ s.uncompressedLimit - s.uncompressedCursor)
    (hpos : 0 < n) (hoff : 0 ≤ offset) (hb : offset.toNat + n ≤ b.length)
    {Q : Bytes → SnappyInputStream → Prop}
    (hQ : H (rest.drop n) { s with uncompressedCursor := s.uncompressedCursor + n } →
      Q (splice b offset.toNat (rest.take n))
        { s with uncompressedCursor := s.uncompressedCursor + n }) :
    wp (copyFromUncompressed copy b offset n) Q E' s := by
  obtain ⟨u, hu, hlim⟩ := F.uncompressed h (by omega)
  have hdel := F.slice_eq h hn
  rw [hu, Option.getD_some] at hdel
  simp only [copyFromUncompressed, wp_bind, wp_get, hu, wp_ite, wp_throw, wp_set, wp_pure]
  rw [if_neg (by omega), if_neg (by omega), hdel, ← hu]
  exact hQ (F.advance h hn)

/-- `read(byte[], int, int)` and `rawRead` deliver as many of the next bytes as
the range holds, and -1 only where there are none. -/
theorem wp_bulkRead (F : Feeds codec H Done E) (h : H rest s) {copy : ArrayCopy} {b : Bytes}
    {off len : Int} (hok : RangeOk b off len) {Q : Int × Bytes → SnappyInputStream → Prop}
    (hFull : ∀ t, len.toNat ≤ rest.length → H (rest.drop len.toNat) t →
      Q (len.toNat, splice b off.toNat (rest.take len.toNat)) t)
    (hPart : ∀ t, rest.length < len.toNat → Done t →
      Q (if rest = [] then -1 else rest.length, splice b off.toNat rest) t)
    (hE : ∀ e t, rest.length < len.toNat → E e t → E' e t) :
    wp (bulkRead codec copy b off len) Q E' s := by
  obtain ⟨hoff, hlen, hend, hint⟩ := hok
  simp only [bulkRead, wp_bind, wp_get]
  refine wp_loop
    (fun (p : Bytes × Nat) t => p.2 ≤ len.toNat ∧ p.2 ≤ rest.length ∧
      p.1 = splice b off.toNat (rest.take p.2) ∧ H (rest.drop p.2) t)
    (fun p t => t.input.size + (len.toNat - p.2))
    ?_ ⟨Nat.zero_le _, Nat.zero_le _, by simp, by simpa using h⟩ (by dsimp only; omega)
  rintro ⟨b', w⟩ t hI
  dsimp only at hI
  obtain ⟨hw, hwr, rfl, ht⟩ := hI
  have hwl : (rest.take w).length = w := by simp; omega
  simp only [readRound, wp_bind, wp_get, wp_ite, wp_pure]
  split
  · rename_i hlt
    split
    · rename_i hdone
      refine wp_mono (F.next ht hdone) ?_ (fun e u hu => hE e u (by
        have := List.drop_eq_nil_iff.mp hu.1
        omega) hu.2)
      intro more u hu
      cases more with
      | false =>
        obtain ⟨hnil, hu⟩ := hu
        have hall : w = rest.length := by
          have := List.drop_eq_nil_iff.mp hnil
          omega
        simp only [Bool.false_eq_true, if_false, Sum.elim_inr]
        have hq := hPart u (by omega) hu
        have hzero : rest = [] ↔ w = 0 := by rw [hall, List.length_eq_zero_iff]
        have hcov : rest.take w = rest := List.take_of_length_le (by omega)
        rw [hcov]
        simpa only [hzero, ← hall] using hq
      | true =>
        obtain ⟨hu, hless⟩ := hu
        simp only [if_true, Sum.elim_inl]
        exact ⟨⟨hw, hwr, trivial, hu⟩, by omega⟩
    · rename_i hmore
      have hbound := F.le_length ht
      rw [List.length_drop] at hbound
      rw [Words.wrap32_of_range (by omega) (by omega)]
      have hoffset : (off + (w : Int)).toNat = off.toNat + w := by omega
      have hlen' : (splice b off.toNat (rest.take w)).length = b.length :=
        length_splice (by rw [hwl]; omega)
      have hle : ((len - (w : Int)).toNat) = len.toNat - w := by omega
      rw [hle]
      apply wp_copyFromUncompressed F ht (Nat.min_le_left _ _) (by omega) (by omega)
      · rw [hlen', hoffset]
        omega
      · intro hu
        have hcopy := @splice_append _ b (rest.take w)
          ((rest.drop w).take (min (t.uncompressedLimit - t.uncompressedCursor) (len.toNat - w)))
          off.toNat (by omega)
        rw [hwl, ← List.take_add] at hcopy
        rw [List.drop_drop] at hu
        simp only [Sum.elim_inl, hoffset, hcopy]
        exact ⟨⟨by omega, by omega, trivial, hu⟩, by omega⟩
  · rename_i hge
    have hwl' : w = len.toNat := by omega
    subst hwl'
    simp only [Sum.elim_inr]
    exact hFull t hwr ht

/-- `available()` announces bytes that are really there. -/
theorem wp_available (F : Feeds codec H Done E) (h : H rest s) {Q : Int → SnappyInputStream → Prop}
    (hQ : ∀ t (n : Nat), n ≤ rest.length → H rest t → Q n t)
    (hEnd : ∀ t, rest = [] → Done t → Q 0 t) (hE : ∀ e t, rest = [] → E e t → E' e t) :
    wp (available codec) Q E' s := by
  simp only [available, wp_bind, wp_get, wp_ite, wp_pure]
  split
  · rename_i hlt
    have := hQ s _ (F.le_length h) h
    rwa [Nat.cast_sub (by omega)] at this
  · rename_i hge
    refine wp_mono (F.next h (by omega)) ?_ (fun e t ht => hE e t ht.1 ht.2)
    intro more t ht
    cases more with
    | false =>
      obtain ⟨hnil, hdone⟩ := ht
      exact hEnd t hnil hdone
    | true =>
      have := hQ t _ (F.le_length ht.1) ht.1
      rw [Nat.cast_sub (F.cursor_le ht.1)] at this
      exact this

end

section
variable {codec : Codec} {limit : Int} {Tail : Bytes → Prop} {silent : Prop}
  {E : Throwable → SnappyInputStream → Prop}

theorem feeds_holdsBefore (hc : codec.Lawful) (hT : Ends codec limit Tail silent E) :
    Feeds codec (HoldsBefore codec limit Tail)
      (fun t => silent ∧ HoldsBefore codec limit Tail [] t) E where
  cursor_le := fun ⟨_, _, _, ha, _⟩ => ha.cursor_le
  limit_le := fun ⟨_, _, _, ha, _⟩ => ha.limit_le
  undelivered_prefix := fun ⟨_, _, _, _, hrest⟩ => ⟨_, hrest.symm⟩
  advance := by
    rintro rest s n ⟨items, tail, htail, ha, rfl⟩ hn
    have hc := ha.cursor_le
    have hl := ha.limit_le
    have hsplit := slice_append (s.uncompressed.getD []) s.uncompressedCursor n
      (s.uncompressedLimit - s.uncompressedCursor - n)
    rw [Nat.add_sub_of_le hn] at hsplit
    have hnl : (slice (s.uncompressed.getD []) s.uncompressedCursor n).length = n :=
      length_slice _ (by omega)
    refine ⟨items, tail, htail, { ha with cursor_le := ?_ }, ?_⟩
    · simp only; omega
    · rw [undelivered, ← hsplit, List.append_assoc, List.drop_left' hnl, undelivered]
      simp only [Nat.sub_add_eq]
  next := by
    intro rest s h hdone
    apply wp_hasNextChunk hc hT h hdone
    · exact fun t hsilent hnil ht => ⟨hnil, hsilent, ht⟩
    · exact fun t ht _ hless => ⟨ht, hless⟩

end

/-! ## Reading by any calls -/

namespace ReadCall

/-- The range is inside the array, and its byte offsets are below 2^31. -/
def InRange : ReadCall → Prop
  | .readByte => True
  | .read b off len => RangeOk b off len
  | .rawRead a off len => RangeOk a off len
  | .readArray t d off len =>
    RangeOk d (off * t.size) (len * t.size) ∧ off * t.size < 2 ^ 31 ∧ len * t.size < 2 ^ 31
  | .available => True

instance : DecidablePred InRange
  | .readByte => inferInstanceAs (Decidable True)
  | .read _ _ _ => inferInstanceAs (Decidable (RangeOk _ _ _))
  | .rawRead _ _ _ => inferInstanceAs (Decidable (RangeOk _ _ _))
  | .readArray _ _ _ _ => inferInstanceAs (Decidable (_ ∧ _))
  | .available => inferInstanceAs (Decidable True)

end ReadCall

section
variable {codec : Codec} {s : SnappyInputStream} {limit : Int} {rest : Bytes} {Tail : Bytes → Prop}
  {silent : Prop} {E : Throwable → SnappyInputStream → Prop}

@[simp] theorem bulkAnswer_demands (off len : Int) (r : Int × Bytes) :
    (bulkAnswer off len r).demands = decide (0 < len) := by
  unfold bulkAnswer
  split <;> rfl

/-- A bulk read serves what the stream holds. -/
theorem serves_bulkAnswer {b : Bytes} {off len : Int} (hok : RangeOk b off len) {r : Int × Bytes}
    (hr : r = (if 0 < len ∧ rest = [] then (-1 : Int) else (min len.toNat rest.length : Nat),
      splice b off.toNat (rest.take len.toNat))) :
    Serves rest (bulkAnswer off len r) ∧
      rest.drop (bulkAnswer off len r).given.length = rest.drop len.toNat := by
  obtain ⟨hoff, hlen, hend, -⟩ := hok
  by_cases h : 0 < len ∧ rest = []
  · obtain ⟨hpos, rfl⟩ := h
    rw [hr, if_pos ⟨hpos, rfl⟩]
    simp only [bulkAnswer, if_true]
    exact ⟨⟨List.nil_prefix, by simp [hpos], fun _ h => absurd rfl h, by simp, by simp⟩, by simp⟩
  · have hn : (min len.toNat rest.length : Int) ≠ -1 := by omega
    have hlt : (rest.take len.toNat).length = min len.toNat rest.length := by simp
    have hsl := @slice_splice _ b (rest.take len.toNat) off.toNat (by omega)
    rw [hlt] at hsl
    rw [hr, if_neg h]
    simp only [bulkAnswer]
    rw [if_neg (by omega), Int.toNat_natCast, hsl]
    refine ⟨⟨List.take_prefix _ _, ?_, ?_, by simp, by simp⟩, ?_⟩
    · simp only [Bool.false_eq_true, decide_eq_true_eq, false_iff]
      exact h
    · intro hd hne h0
      have hpos := List.length_pos_iff.mpr hne
      have := congrArg List.length h0
      simp only [decide_eq_true_eq] at hd
      simp only [hlt, List.length_nil] at this
      omega
    · rw [hlt]
      rcases Nat.le_total len.toNat rest.length with hle | hle
      · rw [Nat.min_eq_left hle]
      · rw [Nat.min_eq_right hle, List.drop_length, List.drop_eq_nil_of_le hle]

/-- Every call serves what the stream holds. -/
theorem wp_perform (hc : codec.Lawful) (hT : Ends codec limit Tail silent E)
    (h : HoldsBefore codec limit Tail rest s) {c : ReadCall} (hr : c.InRange) :
    wp (perform codec c)
      (fun a t => Serves rest a ∧ (a.ended = true → silent) ∧
        HoldsBefore codec limit Tail (rest.drop a.given.length) t) E s := by
  have F := feeds_holdsBefore hc hT
  have hbulk : ∀ (copy : ArrayCopy) (b : Bytes) (off len : Int), RangeOk b off len →
      wp (bulkAnswer off len <$> bulkRead codec copy b off len)
        (fun a t => Serves rest a ∧ (a.ended = true → silent) ∧
        HoldsBefore codec limit Tail (rest.drop a.given.length) t) E s := by
    intro copy b off len hok
    have hlen := hok.2.1
    rw [wp_map]
    apply wp_bulkRead F h hok
    · intro t hle ht
      have hne : ¬ (0 < len ∧ rest = []) := by
        rintro ⟨hpos, rfl⟩
        simp at hle
        omega
      obtain ⟨hs, hd⟩ := @serves_bulkAnswer rest b off len hok
        ((len.toNat : Int), splice b off.toNat (rest.take len.toNat))
        (by rw [if_neg hne, Nat.min_eq_left hle])
      exact ⟨hs, fun he => absurd (by simpa using hs.ended_iff.mp he) hne, by rw [hd]; exact ht⟩
    · rintro t hlt ⟨hsilent, ht⟩
      have hiff : (0 < len ∧ rest = []) ↔ rest = [] :=
        ⟨fun h => h.2, fun h => ⟨by omega, h⟩⟩
      obtain ⟨hs, hd⟩ := @serves_bulkAnswer rest b off len hok
        (if rest = [] then -1 else (rest.length : Int), splice b off.toNat rest)
        (by rw [List.take_of_length_le (Nat.le_of_lt hlt), Nat.min_eq_right (Nat.le_of_lt hlt)]
            simp only [hiff])
      rw [List.drop_eq_nil_of_le (Nat.le_of_lt hlt)] at hd
      exact ⟨hs, fun _ => hsilent, by rw [hd]; exact ht⟩
    · exact fun _ _ _ h => h
  cases c with
  | readByte =>
    simp only [perform, wp_bind, wp_pure]
    apply wp_readByte F h
    case hE => exact fun _ _ _ h => h
    · rintro t rfl ⟨hsilent, ht⟩
      exact ⟨⟨List.nil_prefix, by simp, fun _ h => absurd rfl h, by simp, by simp⟩,
        fun _ => hsilent, by simpa using ht⟩
    · rintro t x tail rfl ht
      have hne : (x.toNat : Int) ≠ -1 := by omega
      rw [if_neg hne, toByte_toNat]
      exact ⟨⟨by simp, by simp, by simp, by simp, by simp; omega⟩, by simp, by simpa using ht⟩
  | read b off len => exact hbulk _ _ _ _ hr
  | rawRead a off len => exact hbulk _ _ _ _ hr
  | readArray t d off len =>
    obtain ⟨hok, hoff, hlen⟩ := hr
    have h₁ := hok.1
    have h₂ := hok.2.1
    simp only [perform, readArray, rawRead]
    rw [Words.wrap32_of_range (by omega) hoff, Words.wrap32_of_range (by omega) hlen]
    exact hbulk _ _ _ _ hok
  | available =>
    simp only [perform, wp_bind, wp_pure]
    apply wp_available F h
    case hE => exact fun _ _ _ h => h
    case hEnd =>
      rintro t rfl ⟨-, ht⟩
      exact ⟨⟨List.nil_prefix, by simp, by simp, by simp, by simp⟩, by simp, by simpa using ht⟩
    intro t n hn ht
    exact ⟨⟨List.nil_prefix, by simp, by simp, by simp, by simpa using hn⟩, by simp,
      by simpa using ht⟩

/-- A run of calls drains what the stream holds. -/
theorem wp_runAll_holds (hc : codec.Lawful) (hT : Ends codec limit Tail silent E)
    (h : HoldsBefore codec limit Tail rest s) {calls : List ReadCall} (hr : ∀ c ∈ calls, c.InRange) :
    wp (runAll (perform codec) calls)
      (fun answers t => Drains rest answers ∧
        HoldsBefore codec limit Tail (rest.drop (given answers).length) t) E s :=
  wp_runAll_drains (HoldsBefore codec limit Tail) (fun _ _ _ hr h =>
    wp_mono (wp_perform hc hT h hr) (fun _ _ h => ⟨h.1, h.2.2⟩) (fun _ _ h => h)) hr h

/-- The constructor takes what begins like a codec header for one. -/
theorem new_header {header behind : Bytes} {input : Source} {maxChunkSize : Int}
    (h16 : header.length = SnappyCodec.headerSize)
    (hmagic : SnappyCodec.hasMagicHeaderPrefix header = true) (hdata : input.data = header ++ behind) :
    ∃ i : Source, i.data = behind ∧ i.fragments.length ≤ input.fragments.length ∧
      new codec input maxChunkSize =
        .ok { initial input maxChunkSize with input := i, header := header } := by
  have hrun : wp (readHeader codec)
      (fun _ t => ∃ i : Source, i.data = behind ∧ i.fragments.length ≤ input.fragments.length ∧
        t = { initial input maxChunkSize with input := i, header := header })
      (fun _ _ => False) (initial input maxChunkSize) := by
    have hheader : (newArray SnappyCodec.headerSize).length = 16 := by simp
    rw [SnappyCodec.headerSize_eq] at h16
    have hlong : min 16 input.data.length = 16 := by
      rw [hdata, List.length_append, h16]
      omega
    have htake : input.data.take 16 = header := by rw [hdata, ← h16, List.take_left]
    simp only [readHeader, initial, wp_bind, wp_get, onIn, wp_zoom, wp_modify, wp_ite, wp_throw,
      wp_when]
    apply wp_fill (by rw [hheader])
    intro i hi hf
    rw [hheader] at hi
    rw [hheader, hlong, htake, splice_full (by rw [hheader, h16])]
    rw [if_neg (by omega), if_neg (by simp [h16, hmagic])]
    exact ⟨i, by rw [hi, hdata, ← h16, List.drop_left], hf, rfl⟩
  unfold new
  obtain ⟨_, t, ht, i, hi, hf, rfl⟩ := exists_of_wp hrun
  rw [ht]
  exact ⟨i, hi, hf, rfl⟩

/-- The codec header in front of a stream. -/
theorem new_holds {items : List Item} {tail : Bytes} {input : Source} {maxChunkSize : Int}
    (htail : Tail tail) (hdata : input.data = (Item.header :: items).flatMap (Item.encode codec) ++ tail)
    (hok : ∀ i ∈ items, i.Ok codec maxChunkSize) :
    ∃ s, new codec input maxChunkSize = .ok s ∧
      HoldsBefore codec maxChunkSize Tail (items.flatMap Item.data) s := by
  rw [List.flatMap_cons, List.append_assoc] at hdata
  obtain ⟨i, hi, -, hnew⟩ := @new_header codec _ _ input maxChunkSize
    SnappyCodec.length_headerArray_currentHeader SnappyCodec.hasMagicHeaderPrefix_headerArray hdata
  exact ⟨_, hnew, items, tail, htail,
    ⟨hi, rfl, hok, SnappyCodec.length_headerArray_currentHeader, Nat.le_refl _, Nat.zero_le _,
      by simp [initial]⟩, by simp [undelivered, initial]⟩

end

end SnappyJava.SnappyInputStream
