import SnappyJava.BlockReader
import SnappyJava.BlockWriterRuns

/-! Arrays of primitive elements through the block streams. Element offsets and
lengths are scaled to byte offsets by 32-bit multiplications, and the copies
behind `rawWrite` and `rawRead` check nothing. -/

namespace SnappyJava.SnappyOutputStream

open Exec Memory Blocks

section
variable {codec : Codec} {b : Nat} {s : SnappyOutputStream} {done : List Bytes} {current : Bytes}

theorem Writing.copied_append {cls : StreamClass} {rel : Prop} {t : SnappyOutputStream}
    {data : Bytes} (hs : Writing codec cls b rel done current s)
    (ht : Writing codec cls b rel done (current ++ data) t) : t.copied = s.copied ++ data := by
  rw [ht.copied_eq, hs.copied_eq, List.append_assoc]

/-- One round of a bulk write with any offset: the piece at `o + cursor` lies in
the array, or the copy faults. -/
theorem wp_writeRound_any (hc : codec.Bounded) (hb0 : 0 < b) (hb : b ≤ maxBlockSize)
    {t : SnappyOutputStream} {data : Bytes} {copy : ArrayCopy} {a : Bytes} {o n cursor : Int}
    (ho : -2 ^ 31 ≤ o) (ho' : o < 2 ^ 31) (hn : n < 2 ^ 31) (h0 : 0 ≤ cursor)
    (ht : Writing codec .snappyOutputStream b True done (current ++ data) t)
    {Q : Int ⊕ Unit → SnappyOutputStream → Prop} {E : Throwable → SnappyOutputStream → Prop}
    (hStop : n ≤ cursor → Q (.inr ()) t)
    (hLast : ∀ u, cursor < n → 0 ≤ o + cursor → o + cursor < 2 ^ 31 → o + n ≤ a.length →
      n - cursor < (b : Int) - t.inputCursor → Writing codec .snappyOutputStream b True done
        (current ++ (data ++ slice a (o + cursor).toNat (n - cursor).toNat)) u → Q (.inr ()) u)
    (hNext : ∀ u (k : Nat), cursor < n → (k : Int) = min (n - cursor) (b - t.inputCursor) →
      (0 < k → 0 ≤ o + cursor ∧ o + cursor < 2 ^ 31 ∧ o + (cursor + k) ≤ a.length) →
      Writing codec .snappyOutputStream b True done
        (current ++ (data ++ slice a (o + cursor).toNat k)) u → u.inputCursor = 0 →
      Q (.inl (cursor + k)) u)
    (hFault : cursor < n → 0 < (b : Int) - t.inputCursor →
      ¬ (0 ≤ o + cursor ∧ o + cursor < 2 ^ 31 ∧
        o + cursor + min (n - cursor) ((b : Int) - t.inputCursor) ≤ a.length) →
      E copy.sourceFault t) :
    wp (writeRound codec .snappyOutputStream copy a o n cursor) Q E t := by
  have hin := ht.inputCursor_le
  have hbs := ht.blockSize_eq
  -- a full buffer is emptied and the loop goes on
  have hempty : ∀ (u : SnappyOutputStream) (k : Nat), cursor < n →
      (k : Int) = min (n - cursor) (b - t.inputCursor) →
      (0 < k → 0 ≤ o + cursor ∧ o + cursor < 2 ^ 31 ∧ o + (cursor + k) ≤ a.length) →
      b ≤ u.inputCursor →
      Writing codec .snappyOutputStream b True done
        (current ++ (data ++ slice a (o + cursor).toNat k)) u →
      wp (compressInput codec .snappyOutputStream) (fun _ v => Q (.inl (cursor + k)) v) E u := by
    intro u k hlt hk hin' hfull hu
    apply wp_compressInput_full hc hb hu hb0 hfull
    · intro v hv hz
      exact hNext v k hlt hk hin' hv hz
    · intro v hr
      exact absurd trivial hr
    · intro v hcls
      cases hcls
  simp only [writeRound, wp_ite, wp_bind, wp_get, wp_when, wp_pure]
  split
  · rename_i hlt
    have hk : ∃ k : Nat, (k : Int) = min (n - cursor) ((t.blockSize : Int) - t.inputCursor) :=
      ⟨(min (n - cursor) ((t.blockSize : Int) - t.inputCursor)).toNat, by omega⟩
    obtain ⟨k, hk⟩ := hk
    have hk' : (k : Int) = min (n - cursor) (b - t.inputCursor) := by rw [hk, hbs]
    simp only [← hk, Int.toNat_natCast]
    split
    · rename_i hread
      have hwrap : Words.wrap32 (o + cursor) < 0 ↔ o + cursor < 0 ∨ 2 ^ 31 ≤ o + cursor := by
        rw [Words.wrap32_eq]
        omega
      by_cases hgood : 0 ≤ o + cursor ∧ o + cursor < 2 ^ 31 ∧ o + (cursor + k) ≤ a.length
      · obtain ⟨hg, hg', hend⟩ := hgood
        rw [Words.wrap32_of_range (by omega) hg']
        apply wp_copyToInput ht (by omega)
        · intro u hu hcur
          have hub := hu.blockSize_eq
          rw [List.append_assoc] at hu
          split
          · have hall : (k : Int) = n - cursor := by omega
            rw [show k = (n - cursor).toNat by omega] at hu
            exact hLast u hlt hg hg' (by omega) (by omega) hu
          · exact hempty u k hlt hk' (fun _ => ⟨hg, hg', hend⟩) (by omega) hu
        · intro hbad
          exact absurd hbad (by omega)
      · have hfault := hFault hlt (by omega) (by omega)
        simp only [copyToInput, wp_bind, wp_get, wp_ite, wp_throw]
        rw [if_pos]
        · exact hfault
        · by_cases hneg : o + cursor < 0 ∨ 2 ^ 31 ≤ o + cursor
          · exact .inl (hwrap.mpr hneg)
          · rw [Words.wrap32_of_range (by omega) (by omega)]
            omega
    · rename_i hread
      rw [if_neg (by omega)]
      have hzero : k = 0 := by omega
      refine hempty t k hlt hk' (by omega) (by omega) ?_
      rw [hzero, slice_self_zero, List.append_nil]
      exact ht
  · rename_i hge
    exact hStop (by omega)

/-- A bulk write with any offset returns only when it has copied the whole
range, which then lies in the array. -/
theorem wp_bulkWrite_returns (hc : codec.Bounded) (hb0 : 0 < b) (hb : b ≤ maxBlockSize)
    (h : Writing codec .snappyOutputStream b True done current s) {copy : ArrayCopy} {a : Bytes}
    {o n : Int} (ho : -2 ^ 31 ≤ o) (ho' : o < 2 ^ 31) (hn : n < 2 ^ 31) :
    wp (bulkWrite codec .snappyOutputStream copy a o n)
      (fun _ t => n ≤ 0 ∧ t.copied = s.copied ∨ 0 < n ∧ 0 ≤ o ∧ o + n ≤ a.length ∧
        t.copied = s.copied ++ slice a o.toNat n.toNat)
      (fun e _ => e = copy.sourceFault) s := by
  have hclosed : s.closed = false := h.notClosed
  simp only [bulkWrite, wp_bind, wp_get, wp_ite, hclosed, Bool.false_eq_true, if_false]
  refine wp_loop
    (fun cursor t => 0 ≤ cursor ∧ (0 < cursor → 0 ≤ o ∧ cursor ≤ n ∧ o + cursor ≤ a.length) ∧
      Writing codec .snappyOutputStream b True done
        (current ++ slice a o.toNat cursor.toNat) t)
    (fun cursor t => 2 * (n - cursor).toNat + if t.inputCursor < b then 0 else 1)
    ?_ ⟨le_refl _, by omega, by simpa using h⟩ (by split <;> omega)
  rintro cursor t ⟨h0, hpos, ht⟩
  have hin := ht.inputCursor_le
  have hsplit : ∀ k : Nat, 0 ≤ o + cursor → (0 < cursor → 0 ≤ o) →
      slice a o.toNat cursor.toNat ++ slice a (o + cursor).toNat k =
        slice a o.toNat (cursor + k).toNat := by
    intro k hoc hoff
    have hk : (cursor + k).toNat = cursor.toNat + k := by omega
    by_cases hz : cursor = 0
    · subst hz
      simp
    · have := hoff (by omega)
      rw [show (o + cursor).toNat = o.toNat + cursor.toNat by omega, slice_append, hk]
  apply wp_writeRound_any hc hb0 hb ho ho' hn h0 ht
  · intro hge
    by_cases hz : n ≤ 0
    · refine .inl ⟨hz, ?_⟩
      have hcur : cursor = 0 := by
        by_contra hne
        have := hpos (by omega)
        omega
      rw [h.copied_append ht, hcur]
      simp
    · obtain ⟨ho0, hle, hend⟩ := hpos (by omega)
      have hcur : cursor = n := by omega
      subst hcur
      exact .inr ⟨by omega, ho0, hend, h.copied_append ht⟩
  · intro u hlt hoc _ hend _ hu
    rw [hsplit _ hoc (fun hp => (hpos hp).1)] at hu
    have hcov : cursor + ((n - cursor).toNat : Nat) = n := by omega
    rw [hcov] at hu
    refine .inr ⟨by omega, ?_, hend, h.copied_append hu⟩
    by_cases hz : cursor = 0
    · omega
    · exact (hpos (by omega)).1
  · intro u k hlt hk hgood hu hz
    simp only [Sum.elim_inl]
    refine ⟨⟨by omega, ?_, ?_⟩, ?_⟩
    · intro hp
      by_cases hk0 : 0 < k
      · obtain ⟨hoc, -, hend⟩ := hgood hk0
        refine ⟨?_, by omega, hend⟩
        by_cases hz : cursor = 0
        · omega
        · exact (hpos (by omega)).1
      · have := hpos (by omega)
        exact ⟨this.1, by omega, by omega⟩
    · by_cases hk0 : 0 < k
      · rwa [hsplit k (hgood hk0).1 (fun hp => (hpos hp).1)] at hu
      · obtain rfl : k = 0 := by omega
        simpa using hu
    · rw [hz, if_pos hb0]
      split <;> omega
  · intro _ _ _
    rfl

/-- A range that goes on past the byte offset 2^31 - 1 faults where a block
begins exactly there. -/
theorem wp_bulkWrite_crossing (hc : codec.Bounded)
    (h : Writing codec .snappyOutputStream 1024 True done current s) {copy : ArrayCopy} {a : Bytes}
    {o n : Int} (ho : 0 ≤ o) (ho' : o < 2 ^ 31) (hn : n < 2 ^ 31)
    (hover : 2 ^ 31 < o + n) (hphase : (s.inputCursor : Int) = o % 1024) :
    wp (bulkWrite codec .snappyOutputStream copy a o n) (fun _ _ => False)
      (fun e _ => e = copy.sourceFault) s := by
  have hM : maxBlockSize = 536870912 := rfl
  have hclosed : s.closed = false := h.notClosed
  simp only [bulkWrite, wp_bind, wp_get, wp_ite, hclosed, Bool.false_eq_true, if_false]
  refine wp_loop
    (fun cursor t => 0 ≤ cursor ∧ o + cursor ≤ 2 ^ 31 ∧ t.inputCursor < 1024 ∧
      (t.inputCursor : Int) = (o + cursor) % 1024 ∧
      ∃ data, Writing codec .snappyOutputStream 1024 True done (current ++ data) t)
    (fun cursor _ => (n - cursor).toNat) ?_
    ⟨le_refl _, by omega, by omega, by simpa using hphase, [], by simpa using h⟩ (by omega)
  rintro cursor t ⟨h0, hle, hroom, hmod, data, ht⟩
  apply @wp_writeRound_any _ _ _ _ hc (by omega) (by omega) _ _ _ _ _ _ _ (by omega) ho' hn h0 ht
  · intro hge
    omega
  · intro u _ _ _ _ hpart _
    omega
  · intro u k hlt hk hgood hu hz
    simp only [Sum.elim_inl]
    have := hgood (by omega)
    exact ⟨⟨by omega, by omega, by omega, by omega, _, hu⟩, by omega⟩
  · intro _ _ _
    rfl

end

end SnappyJava.SnappyOutputStream

namespace SnappyJava

open Exec Memory Blocks

/-- The arrays that the streams take: an array of a primitive type, or a
`byte[]` through `rawWrite` and `rawRead`. -/
inductive StreamArray
  | byte | elements (t : ElementType)
  deriving DecidableEq, Repr

namespace StreamArray

def size : StreamArray → Int
  | byte => 1
  | elements t => t.size

def write (codec : Codec) : StreamArray → Bytes → Int → Int → SnappyOutputStream.Method Unit
  | byte, d, off, len => SnappyOutputStream.rawWrite codec .snappyOutputStream d off len
  | elements t, d, off, len => SnappyOutputStream.writeArray codec .snappyOutputStream t d off len

def read (codec : Codec) :
    StreamArray → Bytes → Int → Int → SnappyInputStream.Method (Int × Bytes)
  | byte, d, off, len => SnappyInputStream.rawRead codec d off len
  | elements t, d, off, len => SnappyInputStream.readArray codec t d off len

/-- The byte offset and the byte length that the source computes. -/
def scaledOffset (a : StreamArray) (off : Int) : Int := Words.wrap32 (off * a.size)
def scaledLength (a : StreamArray) (len : Int) : Int := Words.wrap32 (len * a.size)

/-- A Java `int`. -/
def IsInt (x : Int) : Prop := -2 ^ 31 ≤ x ∧ x < 2 ^ 31

theorem isInt_wrap32 (x : Int) : IsInt (Words.wrap32 x) := by
  rw [IsInt, Words.wrap32_eq]
  omega

theorem size_pos (a : StreamArray) : 0 < a.size := by
  cases a with
  | byte => decide
  | elements t => cases t <;> decide

theorem write_eq (codec : Codec) (a : StreamArray) (d : Bytes) {off len : Int} (hoff : IsInt off)
    (hlen : IsInt len) : a.write codec d off len = SnappyOutputStream.bulkWrite codec
      .snappyOutputStream .snappyArrayCopy d (a.scaledOffset off) (a.scaledLength len) := by
  cases a with
  | byte =>
    simp only [scaledOffset, scaledLength, size, Int.mul_one]
    rw [Words.wrap32_of_range hoff.1 hoff.2, Words.wrap32_of_range hlen.1 hlen.2]
    rfl
  | elements t => rfl

theorem read_eq (codec : Codec) (a : StreamArray) (d : Bytes) {off len : Int} (hoff : IsInt off)
    (hlen : IsInt len) : a.read codec d off len = SnappyInputStream.bulkRead codec
      .snappyArrayCopy d (a.scaledOffset off) (a.scaledLength len) := by
  cases a with
  | byte =>
    simp only [scaledOffset, scaledLength, size, Int.mul_one]
    rw [Words.wrap32_of_range hoff.1 hoff.2, Words.wrap32_of_range hlen.1 hlen.2]
    rfl
  | elements t => rfl

/-- The range of elements lies in an array of `m` elements. -/
def InElements (m off len : Int) : Prop := 0 ≤ off ∧ 0 ≤ len ∧ off + len ≤ m

instance (m off len : Int) : Decidable (InElements m off len) :=
  inferInstanceAs (Decidable (_ ∧ _))

/-- An open `SnappyOutputStream` over a sink that does not fail, after any calls
with good ranges. -/
def OpenWriter (codec : Codec) (s : SnappyOutputStream) : Prop :=
  ∃ (allocate : Nat → Bytes) (blockSize : Int) (calls : List SnappyOutputStream.WriteCall)
    (s₀ : SnappyOutputStream) (r : List Unit), SnappyOutputStream.ExactAllocator allocate ∧
    1024 ≤ blockSize ∧ blockSize ≤ 512 * 1024 * 1024 ∧ (∀ c ∈ calls, c.InRange) ∧
    SnappyOutputStream.new allocate .reliable blockSize = .ok s₀ ∧
    (SnappyOutputStream.run codec .snappyOutputStream calls).run s₀ = .ok r s

/-- A `SnappyInputStream` that has `rest` left to deliver. -/
def OpenReader (codec : Codec) (rest : Bytes) (s : SnappyInputStream) : Prop :=
  ∃ limit, SnappyInputStream.HoldsBefore codec limit SnappyInputStream.Short rest s

/-- A write of a good range appends exactly its bytes; another one reads
nothing outside the array and appends nothing from there. -/
def WritesExactly (codec : Codec) (a : StreamArray) (m off len : Int) : Prop :=
  ∀ (d : Bytes) (s : SnappyOutputStream), (d.length : Int) = m * a.size → OpenWriter codec s →
    if InElements m off len then
      wp (a.write codec d off len)
        (fun _ t => t.copied = s.copied ++ slice d (off * a.size).toNat (len * a.size).toNat)
        (fun _ _ => False) s
    else
      wp (a.write codec d off len)
        (fun _ t => ∃ data, t.copied = s.copied ++ data ∧ ∀ x ∈ data, x ∈ d)
        (fun e _ => e ≠ .memoryFault .arrayCopyRead) s

/-- A read into a good range asks for its bytes and stores the next ones there;
another one writes nothing outside the array. -/
def ReadsExactly (codec : Codec) (a : StreamArray) (m off len : Int) : Prop :=
  ∀ (d rest : Bytes) (s : SnappyInputStream), (d.length : Int) = m * a.size →
    OpenReader codec rest s →
    if InElements m off len then
      wp (a.read codec d off len)
        (fun r _ => r.1 = (if rest = [] ∧ 0 < len then -1 else min (len * a.size) rest.length) ∧
          r.2 = splice d (off * a.size).toNat (rest.take (len * a.size).toNat))
        (fun _ _ => False) s
    else
      wp (a.read codec d off len) (fun r _ => r.2.length = d.length)
        (fun e _ => e ≠ .memoryFault .arrayCopyWrite) s

/-- The scaled range is empty, or lies in the array below 2^31; and a good
range is scaled without loss. -/
def ScaledOk (a : StreamArray) (m off len : Int) : Prop :=
  (0 < a.scaledLength len → 0 ≤ a.scaledOffset off ∧
    a.scaledOffset off + a.scaledLength len ≤ m * a.size ∧
    a.scaledOffset off + a.scaledLength len ≤ 2 ^ 31) ∧
  (InElements m off len → a.scaledLength len = len * a.size ∧
    (0 < len → a.scaledOffset off = off * a.size))

instance (a : StreamArray) (m off len : Int) : Decidable (ScaledOk a m off len) :=
  inferInstanceAs (Decidable (_ ∧ _))

variable {codec : Codec} {a : StreamArray} {m off len : Int}

/-! ## Ranges that are scaled without loss -/

/-- Every `OpenWriter` has been reached through its calls. -/
theorem OpenWriter.writing (hc : codec.Bounded) {s : SnappyOutputStream} (h : OpenWriter codec s) :
    ∃ b done current, 0 < b ∧ b ≤ SnappyOutputStream.maxBlockSize ∧
      SnappyOutputStream.Writing codec .snappyOutputStream b True done current s := by
  have hM : SnappyOutputStream.maxBlockSize = 536870912 := rfl
  obtain ⟨allocate, blockSize, calls, s₀, r, ha, hmin, hmax, hr, hnew, hrun⟩ := h
  obtain ⟨s₁, hs₁, hw⟩ := @SnappyOutputStream.new_writing _ ha .reliable rfl True (fun _ => rfl) _
    hmin (by omega) codec .snappyOutputStream
  obtain rfl : s₁ = s₀ := by rw [hnew] at hs₁; cases hs₁; rfl
  have hrun' := wp_ok (SnappyOutputStream.wp_run hc (by omega) (by omega) (g := ([], [])) hw hr) hrun
  exact ⟨_, _, _, by omega, by omega, hrun'⟩

/-- A good range of elements is a good range of bytes. -/
theorem InElements.scaled (h : InElements m off len) :
    0 ≤ off * a.size ∧ 0 ≤ len * a.size ∧ off * a.size + len * a.size ≤ m * a.size ∧
      (0 < len ↔ 0 < len * a.size) := by
  obtain ⟨h₁, h₂, h₃⟩ := h
  have hs := a.size_pos
  have hle := Int.mul_le_mul_of_nonneg_right h₃ (Int.le_of_lt hs)
  rw [Int.add_mul] at hle
  exact ⟨Int.mul_nonneg h₁ (Int.le_of_lt hs), Int.mul_nonneg h₂ (Int.le_of_lt hs), hle,
    (mul_pos_iff_of_pos_right hs).symm⟩

/-- The two cases of a range that is scaled without loss. -/
theorem ScaledOk.cases (h : ScaledOk a m off len) {d : Bytes} (hd : (d.length : Int) = m * a.size) :
    (a.scaledLength len ≤ 0 ∧ (InElements m off len → len * a.size = 0)) ∨
      RangeOk d (a.scaledOffset off) (a.scaledLength len) ∧
        (InElements m off len → a.scaledOffset off = off * a.size ∧
          a.scaledLength len = len * a.size) := by
  obtain ⟨hin, hexact⟩ := h
  by_cases hpos : 0 < a.scaledLength len
  · obtain ⟨h₁, h₂, h₃⟩ := hin hpos
    refine .inr ⟨⟨h₁, by omega, by omega, h₃⟩, ?_⟩
    intro hel
    obtain ⟨hlen, hoff⟩ := hexact hel
    have hiff := (hel.scaled (a := a)).2.2.2
    exact ⟨hoff (hiff.mpr (by omega)), hlen⟩
  · refine .inl ⟨by omega, ?_⟩
    intro hel
    have hnonneg := (hel.scaled (a := a)).2.1
    have hlen := (hexact hel).1
    omega

theorem wp_bulkWrite_empty {cls : StreamClass} {copy : ArrayCopy} {d : Bytes} {o n : Int}
    {s : SnappyOutputStream} (hopen : s.closed = false) (hn : n ≤ 0)
    {Q : Unit → SnappyOutputStream → Prop} {E : Throwable → SnappyOutputStream → Prop}
    (hQ : Q () s) : wp (SnappyOutputStream.bulkWrite codec cls copy d o n) Q E s := by
  have hlt : ¬ (0 : Int) < n := by omega
  simp only [SnappyOutputStream.bulkWrite, SnappyOutputStream.writeRound, loop, wp_bind, wp_get,
    wp_ite, hopen, Bool.false_eq_true, if_false, if_neg hlt, wp_pure]
  exact hQ

theorem wp_bulkRead_empty {copy : ArrayCopy} {d : Bytes} {o n : Int} {s : SnappyInputStream}
    (hn : n ≤ 0) {Q : Int × Bytes → SnappyInputStream → Prop}
    {E : Throwable → SnappyInputStream → Prop} (hQ : Q (0, d) s) :
    wp (SnappyInputStream.bulkRead codec copy d o n) Q E s := by
  have hlt : ¬ ((0 : Nat) : Int) < n := by omega
  simp only [SnappyInputStream.bulkRead, SnappyInputStream.readRound, loop, wp_bind, wp_get,
    if_neg hlt, wp_pure]
  exact hQ

theorem writesExactly_of_scaledOk (hc : codec.Bounded) (hoff : IsInt off) (hlen : IsInt len)
    (h : ScaledOk a m off len) : WritesExactly codec a m off len := by
  intro d s hd hs
  obtain ⟨b, done, current, hb0, hb, hw⟩ := hs.writing hc
  -- what is appended is a range of the array
  have hrun : ∃ data, (∀ x ∈ data, x ∈ d) ∧
      (InElements m off len → data = slice d (off * a.size).toNat (len * a.size).toNat) ∧
      wp (a.write codec d off len) (fun _ t => t.copied = s.copied ++ data)
        (fun _ _ => False) s := by
    rw [write_eq codec a d hoff hlen]
    rcases h.cases hd with ⟨hn, hzero⟩ | ⟨hok, hexact⟩
    · refine ⟨[], by simp, fun hel => by simp [hzero hel], ?_⟩
      exact wp_bulkWrite_empty hw.notClosed hn (by simp)
    · refine ⟨slice d (a.scaledOffset off).toNat (a.scaledLength len).toNat, ?_, ?_, ?_⟩
      · intro x hx
        exact List.mem_of_mem_drop (List.mem_of_mem_take hx)
      · intro hel
        rw [(hexact hel).1, (hexact hel).2]
      · apply SnappyOutputStream.wp_bulkWrite hc hb0 hb hw
        · intro t data ht hdata
          rw [hw.copied_append ht, hdata hok]
        · intro t _ hbad
          exact absurd hok hbad
        · intro t _ hr
          exact absurd trivial hr
        · intro t hcls
          cases hcls
  obtain ⟨data, hmem, hdata, hrun⟩ := hrun
  split
  · rename_i hel
    rwa [← hdata hel]
  · exact wp_mono hrun (fun _ _ ht => ⟨data, ht, hmem⟩) (fun _ _ hf => hf.elim)

theorem readsExactly_of_scaledOk (hc : codec.Lawful) (hoff : IsInt off) (hlen : IsInt len)
    (h : ScaledOk a m off len) : ReadsExactly codec a m off len := by
  intro d rest s hd hs
  obtain ⟨limit, hs⟩ := hs
  have F := @SnappyInputStream.feeds_holdsBefore codec limit _ _ _ hc
    (SnappyInputStream.ends_short (E := fun _ _ => False))
  rw [read_eq codec a d hoff hlen]
  rcases h.cases hd with ⟨hn, hzero⟩ | ⟨hok, hexact⟩
  · split
    · rename_i hel
      have hz := hzero hel
      have hpos := (hel.scaled (a := a)).2.2.2
      refine wp_bulkRead_empty hn ⟨?_, by simp [hz]⟩
      rw [if_neg (by omega), hz]
      omega
    · exact wp_bulkRead_empty hn rfl
  · have h₁ := hok.1
    have h₂ := hok.2.1
    have h₃ := hok.2.2.1
    have hspl : ∀ k : Nat, k ≤ (a.scaledLength len).toNat →
        (splice d (a.scaledOffset off).toNat (rest.take k)).length = d.length := by
      intro k hk
      rw [length_splice]
      rw [List.length_take]
      omega
    split
    · rename_i hel
      obtain ⟨ho, hn⟩ := hexact hel
      have hpos := (hel.scaled (a := a)).2.2.2
      rw [ho, hn] at hok ⊢
      rw [hn] at h₂
      apply SnappyInputStream.wp_bulkRead F hs hok
      · intro t hall _
        refine ⟨?_, rfl⟩
        split
        · rename_i hr
          rw [hr.1] at hall
          simp only [List.length_nil] at hall
          omega
        · omega
      · intro t hpart _
        refine ⟨?_, by rw [List.take_of_length_le (by omega)]⟩
        by_cases hr : rest = []
        · rw [if_pos hr, if_pos ⟨hr, by omega⟩]
        · rw [if_neg hr, if_neg (fun hc => hr hc.1)]
          omega
      · intro e t _ hf
        exact hf
    · apply SnappyInputStream.wp_bulkRead F hs hok
      · intro t _ _
        exact hspl _ (Nat.le_refl _)
      · intro t hpart _
        have := hspl rest.length (by omega)
        rwa [List.take_length] at this
      · intro e t _ hf
        exact hf.elim

/-! ## Ranges that are not -/

/-- A writer with `k` bytes in its input buffer. -/
theorem exists_openWriter (hc : codec.Bounded) {k : Nat} (hk : k < 1024) :
    ∃ s done current, OpenWriter codec s ∧ s.inputCursor = k ∧
      SnappyOutputStream.Writing codec .snappyOutputStream 1024 True done current s := by
  have hM : SnappyOutputStream.maxBlockSize = 536870912 := rfl
  have hr : ∀ c ∈ [SnappyOutputStream.WriteCall.write (List.replicate k 0) 0 k], c.InRange := by
    simp [SnappyOutputStream.WriteCall.InRange, RangeOk]
    omega
  obtain ⟨s₀, hnew, hw⟩ := @SnappyOutputStream.new_writing _
    SnappyOutputStream.exactAllocator_newArray .reliable rfl True (fun _ => rfl) 1024 (by decide)
    (by decide) codec .snappyOutputStream
  obtain ⟨r, s, hrun, hs⟩ := exists_of_wp (wp_mono (SnappyOutputStream.wp_run hc (by decide)
    (by decide) (g := ([], [])) hw hr) (fun _ _ h => h) (fun _ _ h => by cases h.2.1))
  refine ⟨s, _, _, ⟨newArray, 1024, _, s₀, r, SnappyOutputStream.exactAllocator_newArray,
    by decide, by decide, hr, hnew, hrun⟩, ?_, hs⟩
  obtain ⟨emitted, hcut, -⟩ := hs.cut
  have hlen := hs.length_pending
  have hdata := congrArg List.length hcut.data_eq
  cases emitted with
  | nil =>
    simp [Blocks.advance, SnappyOutputStream.WriteCall.part] at hdata
    omega
  | cons x xs =>
    have hx := hcut.full x (by simp)
    simp [Blocks.advance, SnappyOutputStream.WriteCall.part] at hdata hx
    omega

/-- What a write that keeps to its array and is exact says of one run. -/
theorem WritesExactly.returns (hc : codec.Bounded) (hoff : IsInt off) (hlen : IsInt len)
    (h : WritesExactly codec a m off len) {d : Bytes} (hd : (d.length : Int) = m * a.size)
    {s : SnappyOutputStream} (hs : OpenWriter codec s) {b : Nat} {done : List Bytes}
    {current : Bytes} (hb0 : 0 < b) (hb : b ≤ SnappyOutputStream.maxBlockSize)
    (hw : SnappyOutputStream.Writing codec .snappyOutputStream b True done current s) :
    (a.scaledLength len ≤ 0 ∧ (InElements m off len →
        slice d (off * a.size).toNat (len * a.size).toNat = [])) ∨
      0 < a.scaledLength len ∧ 0 ≤ a.scaledOffset off ∧
        a.scaledOffset off + a.scaledLength len ≤ d.length ∧
        (InElements m off len → slice d (off * a.size).toNat (len * a.size).toNat =
          slice d (a.scaledOffset off).toNat (a.scaledLength len).toNat) := by
  have ho : IsInt (a.scaledOffset off) := isInt_wrap32 _
  have hn : IsInt (a.scaledLength len) := isInt_wrap32 _
  have hrun : wp (a.write codec d off len)
      (fun _ t => InElements m off len → t.copied =
        s.copied ++ slice d (off * a.size).toNat (len * a.size).toNat)
      (fun e _ => e ≠ .memoryFault .arrayCopyRead) s := by
    have := h d s hd hs
    split at this
    · exact wp_mono this (fun _ _ ht _ => ht) (fun _ _ hf => hf.elim)
    · rename_i hnot
      exact wp_mono this (fun _ _ _ hel => absurd hel hnot) (fun _ _ he => he)
  rw [write_eq codec a d hoff hlen] at hrun
  have hboth := wp_and hrun (@SnappyOutputStream.wp_bulkWrite_returns _ _ _ _ _ hc hb0 hb hw
    .snappyArrayCopy d _ _ ho.1 ho.2 hn.2)
  obtain ⟨_, t, -, hcopied, hret⟩ := exists_of_wp (wp_mono hboth (fun _ _ h => h)
    (fun _ _ he => he.1 he.2))
  rcases hret with ⟨hle, ht⟩ | ⟨hpos, hpos', hend, ht⟩
  · refine .inl ⟨hle, fun hel => ?_⟩
    have := hcopied hel
    rw [ht] at this
    simpa using this
  · refine .inr ⟨hpos, hpos', hend, fun hel => ?_⟩
    have := hcopied hel
    rw [ht] at this
    exact (List.append_cancel_left this).symm

/-- A write that never leaves its array stays below 2^31. -/
theorem WritesExactly.le_two_pow (hc : codec.Bounded) (hoff : IsInt off) (hlen : IsInt len)
    (hm : 0 ≤ m) (h : WritesExactly codec a m off len) (hpos : 0 < a.scaledLength len) :
    0 ≤ a.scaledOffset off ∧ a.scaledOffset off + a.scaledLength len ≤ m * a.size ∧
      a.scaledOffset off + a.scaledLength len ≤ 2 ^ 31 := by
  have hs0 := a.size_pos
  have hm0 : 0 ≤ m * a.size := Int.mul_nonneg hm (Int.le_of_lt hs0)
  have hd : ((newArray (m * a.size).toNat).length : Int) = m * a.size := by
    rw [length_newArray]
    omega
  have ho : IsInt (a.scaledOffset off) := isInt_wrap32 _
  have hn : IsInt (a.scaledLength len) := isInt_wrap32 _
  obtain ⟨s, done, current, hs, hphase, hw⟩ := @exists_openWriter codec hc
    (a.scaledOffset off % 1024).toNat (by omega)
  rcases h.returns hc hoff hlen hd hs (by decide) (by decide) hw with ⟨hle, -⟩ |
    ⟨-, hpos', hend, -⟩
  · omega
  · refine ⟨hpos', by omega, ?_⟩
    by_contra hover
    -- a block begins at the byte offset 2^31
    have hcross := @SnappyOutputStream.wp_bulkWrite_crossing _ _ _ _ hc hw .snappyArrayCopy
      (newArray (m * a.size).toNat) _ _ hpos' ho.2 hn.2 (by omega) (by rw [hphase]; omega)
    have hrun : wp (a.write codec (newArray (m * a.size).toNat) off len) (fun _ _ => True)
        (fun e _ => e ≠ .memoryFault .arrayCopyRead) s := by
      have := h _ s hd hs
      split at this
      · exact wp_mono this (fun _ _ _ => trivial) (fun _ _ hf => hf.elim)
      · exact wp_mono this (fun _ _ _ => trivial) (fun _ _ he => he)
    rw [write_eq codec a _ hoff hlen] at hrun
    exact not_wp_false (wp_mono (wp_and hrun hcross) (fun _ _ h => h.2) (fun _ _ he => he.1 he.2))

theorem scaledOk_of_writesExactly (hc : codec.Bounded) (hoff : IsInt off) (hlen : IsInt len)
    (hm : 0 ≤ m) (h : WritesExactly codec a m off len) : ScaledOk a m off len := by
  refine ⟨h.le_two_pow hc hoff hlen hm, fun hel => ?_⟩
  obtain ⟨h₁, h₂, h₃, hiff⟩ := hel.scaled (a := a)
  obtain ⟨s, done, current, hs, -, hw⟩ := @exists_openWriter codec hc 0 (by decide)
  -- one byte of the array tells its first byte of the range from all others
  have hd : (((newArray (m * a.size).toNat).set (off * a.size).toNat 1).length : Int) =
      m * a.size := by
    rw [List.length_set, length_newArray]
    omega
  have hslice : (slice ((newArray (m * a.size).toNat).set (off * a.size).toNat 1)
      (off * a.size).toNat (len * a.size).toNat).length = (len * a.size).toNat :=
    length_slice _ (by omega)
  rcases h.returns hc hoff hlen hd hs (by decide) (by decide) hw with ⟨hle, hnil⟩ |
    ⟨hpos, hpos', hend, heq⟩
  · rw [hnil hel] at hslice
    have hz : len * a.size = 0 := by
      simp only [List.length_nil] at hslice
      omega
    refine ⟨?_, fun hp => by omega⟩
    rw [scaledLength, hz]
    decide
  · have heq := heq hel
    have hn : a.scaledLength len = len * a.size := by
      have := congrArg List.length heq
      rw [hslice, length_slice _ (by omega)] at this
      omega
    refine ⟨hn, fun _ => ?_⟩
    have hget := congrArg List.head? heq
    rw [hn] at hget
    have hne : (len * a.size).toNat ≠ 0 := by omega
    simp only [slice, List.head?_take, if_neg hne, List.head?_drop] at hget
    by_contra hdiff
    have hidx : (off * a.size).toNat ≠ (a.scaledOffset off).toNat := by omega
    rw [List.getElem?_set_ne hidx, List.getElem?_set_self (by rw [length_newArray]; omega)] at hget
    have hzero : (newArray (m * a.size).toNat)[(a.scaledOffset off).toNat]? = some 0 := by
      rw [newArray, List.getElem?_replicate, if_pos (by omega)]
    rw [hzero] at hget
    exact absurd hget (by decide)

/-- The typed and raw calls transfer exactly the requested range if and only if
their byte offset and byte length are scaled without loss, or to nothing. -/
theorem exact_iff_scaledOk (hc : codec.Lawful) (a : StreamArray) {m off len : Int} (hm : 0 ≤ m)
    (hoff : IsInt off) (hlen : IsInt len) :
    WritesExactly codec a m off len ∧ ReadsExactly codec a m off len ↔ ScaledOk a m off len := by
  constructor
  · rintro ⟨hw, -⟩
    exact scaledOk_of_writesExactly hc.toBounded hoff hlen hm hw
  · intro h
    exact ⟨writesExactly_of_scaledOk hc.toBounded hoff hlen h,
      readsExactly_of_scaledOk hc hoff hlen h⟩

/-- Two elements asked of an array of one: eight bytes behind the array are
read, and go to the stream. -/
theorem twoOfOne_overread :
    ¬ (WritesExactly literalCodec (.elements .long) 1 0 2 ∧
        ReadsExactly literalCodec (.elements .long) 1 0 2) ∧
      ∃ s, SnappyOutputStream.new newArray .reliable 1024 = .ok s ∧
        wp (write literalCodec (.elements .long) (newArray 8) 0 2) (fun _ _ => False)
          (fun e _ => e = .memoryFault .arrayCopyRead) s := by
  refine ⟨?_, _, rfl, by decide +kernel⟩
  rintro ⟨hw, -⟩
  have hok := scaledOk_of_writesExactly LiteralCodec.lawful.toBounded (by simp [IsInt])
    (by simp [IsInt]) (by decide) hw
  exact absurd hok (by decide)

/-- The last of four `int`s. -/
theorem exact_iff_scaledOk_lastOfFour :
    WritesExactly literalCodec (.elements .int) 4 3 1 ∧
      ReadsExactly literalCodec (.elements .int) 4 3 1 ↔ ScaledOk (.elements .int) 4 3 1 :=
  exact_iff_scaledOk LiteralCodec.lawful _ (by decide) (by simp [IsInt]) (by simp [IsInt])

end StreamArray

end SnappyJava
