import SnappyJava.Nio
import SnappyJava.BufferPool
import SnappyJava.LiteralCodec
import SnappyJava.Lib.Crc

/-! `SnappyFramed`: what the reader and the writer of the framed format share.
The checksum is a parameter, since the runtime may supply it. -/

namespace SnappyJava

open Exec Memory Words

/-- What the framed streams are built on: the native library, the CRC-32C
implementation and the pool. -/
structure Platform where
  codec : Codec
  crc32c : Bytes → BitVec 32
  bufferPool : BufferPool

/-- A platform without copies in its blocks and without pooling. -/
def literalPlatform : Platform := ⟨literalCodec, Crc.crc32c, QuiescentBufferPool⟩

namespace SnappyFramed

def compressedDataFlag : UInt8 := 0x00
def uncompressedDataFlag : UInt8 := 0x01
def streamIdentifierFlag : UInt8 := 0xff
def maskDelta : BitVec 32 := 0xa282ead8

def headerBytes : Bytes :=
  [streamIdentifierFlag, 0x06, 0x00, 0x00, 0x73, 0x4e, 0x61, 0x50, 0x70, 0x59]

/-- Rotate right by 15 bits and add a constant. -/
def mask (crc : BitVec 32) : BitVec 32 := ((crc >>> 15) ||| (crc <<< 17)) + maskDelta

def maskedCrc32c (crc32c : Bytes → BitVec 32) (data : Bytes) (offset length : Nat) : BitVec 32 :=
  mask (crc32c (slice data offset length))

/-- `source.read(dest)`: the number of bytes, or `none` for -1. -/
def readChannel (dest : ByteBuffer) : EStateM Throwable Source (Option Nat × ByteBuffer) := do
  match ← Source.read dest.remaining with
  | none => pure (none, dest)
  | some data =>
    let filled ← fromExcept (dest.put data)
    pure (some data.length, filled)

/-- A further read of `readBytes`; the state of the loop is `totalRead`, whether
`lastRead` is not -1, and `dest`. -/
def readBytesRound (p : Int × Bool × ByteBuffer) :
    EStateM Throwable Source ((Int × Bool × ByteBuffer) ⊕ (Int × ByteBuffer)) := do
  let (totalRead, more, dest) := p
  if dest.remaining ≠ 0 ∧ more then
    match ← readChannel dest with
    | (none, dest) => pure (.inl (totalRead, false, dest))
    | (some lastRead, dest) => pure (.inl (totalRead + lastRead, true, dest))
  else
    pure (.inr (totalRead, dest))

def readBytes (dest : ByteBuffer) : EStateM Throwable Source (Int × ByteBuffer) := do
  let s ← get
  let (lastRead, first) ← readChannel dest
  let (totalRead, filled) ← loop .outOfFuel readBytesRound (s.size + 2)
    (match lastRead with
      | none => (-1, false, first)
      | some n => (n, true, first))
  if totalRead > 0 then
    let limited ← fromExcept (filled.setLimit filled.position)
    pure (totalRead, limited)
  else
    let positioned ← fromExcept (filled.setPosition filled.limit)
    pure (totalRead, positioned)

/-- A read of `skip` into a cleared buffer; the state of the loop is `toSkip`,
whether the last read was not -1, and the buffer. -/
def skipRound (p : Int × Bool × ByteBuffer) :
    EStateM Throwable Source ((Int × Bool × ByteBuffer) ⊕ (Int × ByteBuffer)) := do
  let (toSkip, more, buffer) := p
  if toSkip > 0 ∧ more then
    let cleared := buffer.clear
    let target ← fromExcept
      (if toSkip < cleared.capacity then cleared.setLimit toSkip else .ok cleared)
    match ← readChannel target with
    | (none, read) => pure (.inl (toSkip, false, read))
    | (some skipped, read) => pure (.inl (toSkip - skipped, true, read))
  else
    pure (.inr (toSkip, buffer.clear))

/-- The number of bytes skipped, and the buffer they were read into. -/
def skip (skip : Int) (buffer : ByteBuffer) : EStateM Throwable Source (Int × ByteBuffer) := do
  if skip ≤ 0 then
    pure (0, buffer)
  else
    let s ← get
    let (toSkip, cleared) ← loop .outOfFuel skipRound (s.size + 2) (skip, true, buffer)
    pure (skip - toSkip, cleared)

/-! ## Reading what is there -/

/-- The buffer after `readBytes` from a channel that still has `data`. -/
def filled (dest : ByteBuffer) (data : Bytes) : ByteBuffer :=
  if data = [] then dest.ended
  else (dest.store (data.take dest.remaining) (List.length_take_le _ _)).limited

/-- What `readBytes` returns: the number of bytes, or -1 where the first read
finds the end. A first read that transfers nothing hides the end. -/
def readCount (dest : ByteBuffer) (s : Source) : Int :=
  if s.data = [] ∧ s.fragments.head? ≠ some 0 then -1 else (s.data.take dest.remaining).length

/-- A read of the channel hands out a first part of the data, or reports the
end. -/
theorem wp_readChannel {dest : ByteBuffer} (hr : 0 < dest.remaining)
    {Q : Option Nat × ByteBuffer → Source → Prop} {E : Throwable → Source → Prop} {s : Source}
    (hend : ∀ t : Source, s.data = [] → s.fragments.head? ≠ some 0 → t.data = [] →
      t.fragments = s.fragments.tail → Q (none, dest) t)
    (hsome : ∀ (xs : Bytes) (t : Source) (h : xs.length ≤ dest.remaining),
      (xs = [] → s.fragments.head? = some 0) → s.data = xs ++ t.data →
      t.fragments = s.fragments.tail → t.size < s.size → Q (some xs.length, dest.store xs h) t) :
    wp (readChannel dest) Q E s := by
  simp only [readChannel, wp_bind]
  apply Source.wp_read hr
  · exact fun t hs hz ht hf => hend t hs hz ht hf
  · intro n t hn hns ht hf hz hsize
    have hl : (s.data.take n).length = n := by simp; omega
    have hput : dest.put (s.data.take n) = .ok (dest.store (s.data.take n) (by omega)) := by
      rw [ByteBuffer.put, dif_pos]
    simp only [hput, wp_bind, wp_fromExcept_ok, wp_pure]
    refine hsome _ t _ (fun hnil => hz ?_) ?_ hf hsize
    · rw [← hl, hnil, List.length_nil]
    · rw [ht, List.take_append_drop]

/-- What `readBytes` does depends on the data only, but for the way it reports
the end. -/
theorem wp_readBytes {dest : ByteBuffer} (hr : 0 < dest.remaining)
    {Q : Int × ByteBuffer → Source → Prop} {E : Throwable → Source → Prop} {s : Source}
    (hQ : ∀ t : Source, t.data = s.data.drop dest.remaining → (s.Positive → t.Positive) →
      t.fragments.length ≤ s.fragments.length → Q (readCount dest s, filled dest s.data) t) :
    wp (readBytes dest) Q E s := by
  -- the end of the method
  have hfinish : ∀ (zs : Bytes) (hz : zs.length ≤ dest.remaining) (t : Source),
      s.data = zs ++ t.data → (zs.length = dest.remaining ∨ t.data = []) →
      (zs = [] → s.fragments.head? = some 0) → (s.Positive → t.Positive) →
      t.fragments.length ≤ s.fragments.length →
      wp (if (zs.length : Int) > 0 then
          fromExcept ((dest.store zs hz).setLimit (dest.store zs hz).position) >>= fun b =>
            pure ((zs.length : Int), b)
        else
          fromExcept ((dest.store zs hz).setPosition (dest.store zs hz).limit) >>= fun b =>
            pure ((zs.length : Int), b)) Q E t := by
    intro zs hz t hzs hall hstall hpos hfrag
    have htake : s.data.take dest.remaining = zs := by
      rw [hzs]
      rcases hall with hfull | hnil
      · rw [← hfull, List.take_left]
      · rw [hnil, List.append_nil, List.take_of_length_le hz]
    have hdrop : t.data = s.data.drop dest.remaining := by
      rw [hzs]
      rcases hall with hfull | hnil
      · rw [← hfull, List.drop_left]
      · rw [hnil, List.append_nil, List.drop_eq_nil_of_le hz]
    have hq := hQ t hdrop hpos hfrag
    rw [wp_ite]
    split
    · rename_i hlt
      have hne : s.data ≠ [] := by
        intro h
        rw [h, List.take_nil] at htake
        rw [← htake] at hlt
        simp at hlt
      rw [readCount, if_neg (fun h => hne h.1), filled, if_neg hne] at hq
      simp only [htake] at hq
      rw [ByteBuffer.setLimit_position]
      exact hq
    · rename_i hlt
      obtain rfl : zs = [] := List.length_eq_zero_iff.mp (by omega)
      have hnil : s.data = [] := by
        rcases hall with hfull | hnil
        · rw [List.length_nil] at hfull
          omega
        · rw [hzs, hnil, List.append_nil]
      rw [readCount, if_neg (fun h => h.2 (hstall rfl)), filled, if_pos hnil, htake] at hq
      rw [ByteBuffer.setPosition_limit]
      have hstore : (dest.store [] hz).ended = ⟨dest.array, dest.limit, dest.limit,
          Nat.le_refl _, dest.limit_le⟩ := ByteBuffer.ext (splice_nil _ _) rfl rfl
      rw [hstore]
      exact hq
  -- the loop, once something has been read or nothing was there
  have hloop : ∀ (n : Nat) (ys : Bytes) (t : Source) (h : ys.length ≤ dest.remaining),
      (ys = [] → s.fragments.head? = some 0) → s.data = ys ++ t.data →
      (s.Positive → t.Positive) → t.fragments.length ≤ s.fragments.length → t.size + 1 < n →
      wp (loop .outOfFuel readBytesRound n ((ys.length : Int), true, dest.store ys h))
        (fun p u => ∃ (zs : Bytes) (hz : zs.length ≤ dest.remaining),
          p = ((zs.length : Int), dest.store zs hz) ∧ s.data = zs ++ u.data ∧
          (zs.length = dest.remaining ∨ u.data = []) ∧ (zs = [] → s.fragments.head? = some 0) ∧
          (s.Positive → u.Positive) ∧ u.fragments.length ≤ s.fragments.length) E t := by
    intro n ys t h hstall ht hpt hft hn
    refine wp_loop
      (fun (p : Int × Bool × ByteBuffer) (u : Source) =>
        ∃ (zs : Bytes) (hz : zs.length ≤ dest.remaining),
          p.1 = zs.length ∧ p.2.2 = dest.store zs hz ∧ (p.2.1 = false → u.data = []) ∧
          s.data = zs ++ u.data ∧ (zs = [] → s.fragments.head? = some 0) ∧
          (s.Positive → u.Positive) ∧ u.fragments.length ≤ s.fragments.length)
      (fun p u => u.size + if p.2.1 then 1 else 0) ?_
      ⟨ys, h, rfl, rfl, by simp, ht, hstall, hpt, hft⟩ (by simpa using hn)
    rintro ⟨total, more, b⟩ u ⟨zs, hz, htotal, hb, hmore, hu, hstallz, hpu, hfu⟩
    dsimp only at htotal hb hmore
    subst htotal hb
    simp only [readBytesRound, wp_ite, wp_pure, ByteBuffer.remaining_store]
    split
    · rename_i hgo
      obtain ⟨hroom, rfl⟩ := hgo
      rw [wp_bind]
      apply wp_readChannel (by rw [ByteBuffer.remaining_store]; omega)
      · intro w hnil _ hw hf
        simp only [wp_pure, Sum.elim_inl]
        refine ⟨⟨zs, hz, rfl, rfl, fun _ => hw, by rw [hw, hu, hnil], hstallz,
          fun hp => Source.positive_tail (hpu hp) hf, by rw [hf, List.length_tail]; omega⟩, ?_⟩
        simp only [Source.size, hnil, hw, hf, List.length_tail, Bool.false_eq_true, if_false, if_true]
        omega
      · intro ws w hw _ hv hf hsize
        simp only [wp_pure, Sum.elim_inl, ByteBuffer.store_store]
        refine ⟨⟨zs ++ ws, ?_, by simp, rfl, by simp, ?_, ?_,
          fun hp => Source.positive_tail (hpu hp) hf, by rw [hf, List.length_tail]; omega⟩, by omega⟩
        · rw [ByteBuffer.remaining_store] at hw
          rw [List.length_append]
          omega
        · rw [hu, hv, List.append_assoc]
        · exact fun h => hstallz (List.append_eq_nil_iff.mp h).1
    · rename_i hstop
      refine ⟨zs, hz, rfl, hu, ?_, hstallz, hpu, hfu⟩
      by_cases hfull : dest.remaining - zs.length = 0
      · exact .inl (by omega)
      · refine .inr (hmore ?_)
        simpa [hfull] using hstop
  simp only [readBytes, wp_bind, wp_get]
  apply wp_readChannel hr
  · intro t hnil hz ht hf
    simp only [loop, readBytesRound, wp_bind, wp_ite, wp_pure]
    rw [if_neg (by simp), if_neg (by decide)]
    have hq := hQ t (by rw [ht, hnil, List.drop_nil])
      (fun hp => Source.positive_tail hp hf) (by rw [hf, List.length_tail]; omega)
    rw [readCount, if_pos ⟨hnil, hz⟩, filled, if_pos hnil] at hq
    rw [ByteBuffer.setPosition_limit]
    exact hq
  · intro ys t h hstall ht hf hsize
    refine wp_mono (hloop _ ys t h hstall ht (fun hp => Source.positive_tail hp hf)
      (by rw [hf, List.length_tail]; omega) (by omega)) ?_ (fun _ _ h => h)
    rintro _ u ⟨zs, hz, rfl, hu, hall, hstallz, hpu, hfu⟩
    have hfin := hfinish zs hz u hu hall hstallz hpu hfu
    simpa only [wp_ite, wp_bind, wp_pure] using hfin

/-- The buffer that a read of `skipRound` is given. -/
private theorem skipTarget (buffer : ByteBuffer) {k : Nat} (hk : 0 < k) :
    ∃ target : ByteBuffer,
      (if (k : Int) < buffer.clear.capacity then buffer.clear.setLimit k
        else .ok buffer.clear) = .ok target ∧
      target.remaining = min k buffer.capacity ∧ target.capacity = buffer.capacity := by
  have hcap : buffer.clear.capacity = buffer.capacity := rfl
  by_cases hlt : (k : Int) < buffer.clear.capacity
  · rw [if_pos hlt, ByteBuffer.setLimit, dif_pos ⟨by omega, by omega⟩]
    refine ⟨_, rfl, ?_, rfl⟩
    simp only [ByteBuffer.remaining, ByteBuffer.clear, ByteBuffer.wrap]
    omega
  · rw [if_neg hlt]
    refine ⟨_, rfl, ?_, rfl⟩
    simp only [ByteBuffer.clear, ByteBuffer.remaining_wrap, ByteBuffer.capacity] at hcap hlt ⊢
    omega

/-- `skip` moves past the bytes, as far as there are any, and the buffer stays
as large as it is. -/
theorem wp_skip {buffer : ByteBuffer} (hc : 0 < buffer.capacity) {k : Nat}
    {Q : Int × ByteBuffer → Source → Prop} {E : Throwable → Source → Prop} {s : Source}
    (hQ : ∀ (b : ByteBuffer) (t : Source), b.capacity = buffer.capacity →
      t.data = s.data.drop k → (s.Positive → t.Positive) →
      t.fragments.length ≤ s.fragments.length → Q ((min k s.data.length : Nat), b) t) :
    wp (skip k buffer) Q E s := by
  simp only [skip, wp_ite, wp_pure, wp_bind, wp_get]
  split
  · rename_i hnil
    obtain rfl : k = 0 := by omega
    simpa using hQ buffer s rfl rfl (fun h => h) (Nat.le_refl _)
  refine wp_loop
    (fun (p : Int × Bool × ByteBuffer) (t : Source) => ∃ n : Nat, n ≤ k ∧ n ≤ s.data.length ∧
      p.1 = (k - n : Nat) ∧ (p.2.1 = false → t.data = []) ∧ p.2.2.capacity = buffer.capacity ∧
      t.data = s.data.drop n ∧ (s.Positive → t.Positive) ∧
      t.fragments.length ≤ s.fragments.length)
    (fun p t => t.size + if p.2.1 then 1 else 0) ?_
    ⟨0, by omega, by omega, by simp, by simp, rfl, by simp, fun h => h, Nat.le_refl _⟩ (by simp)
  rintro ⟨toSkip, more, b⟩ t ⟨n, hn, hns, htoSkip, hmore, hb, ht, hpt, hft⟩
  dsimp only at htoSkip hmore hb
  subst htoSkip
  simp only [skipRound, wp_ite, wp_pure]
  split
  · rename_i hgo
    obtain ⟨hpos, rfl⟩ := hgo
    obtain ⟨target, htarget, hrem, hcap⟩ := skipTarget b (by omega : 0 < k - n)
    simp only [wp_bind, htarget, wp_fromExcept_ok]
    apply wp_readChannel (by omega)
    · intro u hnil _ hu hf
      simp only [wp_pure, Sum.elim_inl]
      refine ⟨⟨n, hn, hns, rfl, fun _ => hu, by rw [hcap, hb], by rw [hu, ← hnil, ht],
        fun hp => Source.positive_tail (hpt hp) hf, by rw [hf, List.length_tail]; omega⟩, ?_⟩
      simp only [Source.size, hnil, hu, hf, List.length_tail, Bool.false_eq_true, if_false, if_true]
      omega
    · intro ws u hw _ hu hf hsize
      have hlen : s.data.length - n = ws.length + u.data.length := by
        rw [← List.length_drop, ← ht, hu, List.length_append]
      simp only [wp_pure, Sum.elim_inl]
      refine ⟨⟨n + ws.length, by omega, by omega, by omega, by simp, ?_, ?_,
        fun hp => Source.positive_tail (hpt hp) hf, by rw [hf, List.length_tail]; omega⟩, by omega⟩
      · rw [ByteBuffer.capacity_store, hcap, hb]
      · rw [← List.drop_drop, ← ht, hu, List.drop_left]
  · rename_i hstop
    have hall : n = min k s.data.length := by
      by_cases hk : k - n = 0
      · omega
      · have hdone : more = false := by
          cases more with
          | false => rfl
          | true => exact absurd ⟨by omega, rfl⟩ hstop
        have hnil := hmore hdone
        rw [ht] at hnil
        have := List.drop_eq_nil_iff.mp hnil
        omega
    have hdrop : t.data = s.data.drop k := by
      rw [ht]
      rcases Nat.le_total k s.data.length with hle | hle
      · rw [hall, Nat.min_eq_left hle]
      · rw [List.drop_eq_nil_of_le hle, List.drop_eq_nil_of_le (by omega)]
    have hcount : (k : Int) - (k - n : Nat) = (min k s.data.length : Nat) := by omega
    simp only [Sum.elim_inr, hcount]
    exact hQ _ t hb hdrop hpt hft

/-- So it does with any buffer, but that into an empty one nothing is ever read. -/
theorem wp_skip_moves (buffer : ByteBuffer) (k : Nat) (s : Source) :
    wp (skip k buffer) (fun p t => p.2.capacity = buffer.capacity ∧ t.data = s.data.drop k)
      (fun _ _ => True) s := by
  by_cases hc : 0 < buffer.capacity
  · exact wp_skip hc fun b t hb ht _ _ => ⟨hb, ht⟩
  have hnever : ∀ (n : Nat) (b : ByteBuffer) (t : Source), 0 < k → b.capacity = 0 →
      wp (loop .outOfFuel skipRound n ((k : Int), true, b)) (fun _ _ => False) (fun _ _ => True) t := by
    intro n
    induction n with
    | zero => exact fun _ _ _ _ => trivial
    | succ n ih =>
      intro b t hk hb
      have hclear : b.clear.capacity = 0 := hb
      have hrem : b.clear.remaining = 0 := hb
      rw [loop, wp_bind]
      simp only [skipRound, wp_ite, wp_bind, wp_pure]
      rw [if_pos ⟨by omega, trivial⟩, if_neg (by rw [hclear]; omega), wp_fromExcept_ok]
      simp only [readChannel, Source.read, wp_bind, wp_get, wp_pure, hrem, if_true]
      have hput : b.clear.put [] = .ok (b.clear.store [] (Nat.zero_le _)) := by
        rw [ByteBuffer.put, dif_pos]
      simp only [hput, wp_fromExcept_ok, List.length_nil, Nat.cast_zero, sub_zero]
      exact ih _ t hk (by rw [ByteBuffer.capacity_store]; exact hclear)
  simp only [skip, wp_ite, wp_pure, wp_bind, wp_get]
  split
  · rename_i hnil
    obtain rfl : k = 0 := by omega
    exact ⟨trivial, rfl⟩
  · refine wp_mono (hnever _ buffer s (by omega) (by omega)) (fun _ _ hf => hf.elim) fun _ _ h => h

end SnappyFramed

end SnappyJava
