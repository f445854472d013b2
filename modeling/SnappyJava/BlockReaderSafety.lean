import SnappyJava.SnappyInputStream

/-! The memory a `SnappyInputStream` hands to the native decompressor, for any
input and any calls. -/

namespace SnappyJava.SnappyInputStream

open Exec Memory

/-- Each call of the native decompressor has had enough room exactly if the
block declares a length that the Java code can see, and the destination that is
kept for the next block is a Java array. -/
structure Measured (s : SnappyInputStream) : Prop where
  calls : ∀ c ∈ s.uncompressCalls, c.Fits ↔ c.Signed
  room : (s.uncompressed.getD []).length < 2 ^ 31

/-- It speaks of the destination and the record only. -/
theorem Measured.frame {s t : SnappyInputStream} (h : Measured s)
    (hcalls : t.uncompressCalls = s.uncompressCalls) (hdest : t.uncompressed = s.uncompressed) :
    Measured t :=
  ⟨by rw [hcalls]; exact h.calls, by rw [hdest]; exact h.room⟩

section
variable {codec : Codec}

theorem keeps_onIn {α : Type} (m : EStateM Throwable Source α) : Keeps Measured (onIn m) :=
  Keeps.zoom m fun _ _ h => h.frame rfl rfl

theorem uncompressedLength_lt {src : Bytes} {n : Int}
    (h : Snappy.uncompressedLength codec src = .ok n) : n < 2 ^ 31 := by
  unfold Snappy.uncompressedLength at h
  split at h
  · cases h
  · simp only [Except.ok.injEq] at h
    rw [← h]
    exact Words.wrap32_lt _

/-- A call of the decompressor whose destination has room for the signed
length is recorded rightly. -/
theorem wp_uncompress_measured {length : Nat} {n : Int} {s : SnappyInputStream} (h : Measured s)
    (hn : Snappy.uncompressedLength codec ((s.compressed.getD []).take length) = .ok n)
    (hroom : n ≤ (s.uncompressed.getD []).length) :
    wp (uncompress codec length) (fun _ => Measured) (fun _ => Measured) s := by
  have hdest : (Snappy.uncompress codec ((s.compressed.getD []).take length)
      (s.uncompressed.getD [])).2.length = (s.uncompressed.getD []).length :=
    Snappy.length_uncompress _ _ _
  simp only [uncompress, wp_bind, wp_get, wp_set]
  refine Keeps.fromExcept _ _ ⟨?_, ?_⟩
  · intro c hc
    rcases List.mem_append.mp hc with hc | hc
    · exact h.calls c hc
    · rw [List.mem_singleton.mp hc]
      exact Snappy.uncompress_fits_iff hn hroom h.room
  · simp only [Option.getD_some, hdest]
    exact h.room

theorem keeps_readFullyRound (cursor : Nat) : Keeps Measured (readFullyRound cursor) := by
  refine Keeps.bind Keeps.get fun s => Keeps.bind (keeps_onIn _) fun r => ?_
  cases r with
  | none => exact Keeps.pure _
  | some data =>
    dsimp only
    refine Keeps.bind (Keeps.update fun t h => h.frame rfl rfl) fun _ => ?_
    split
    · split
      · exact Keeps.throw _
      · exact Keeps.bind (Keeps.update fun t h => h.frame rfl rfl) fun _ => Keeps.pure _
    · exact Keeps.pure _

/-- The first allocation is made with the signed length, and fails where that
is negative. -/
theorem keeps_readFully (fragment : Bytes) (fragmentLength : Nat) :
    Keeps Measured (readFully codec fragment fragmentLength) := by
  refine Keeps.ite (Keeps.update fun t h => h.frame rfl rfl) ?_
  refine Keeps.bind (Keeps.update fun t h => h.frame rfl rfl) fun _ => ?_
  refine Keeps.bind Keeps.get fun s => ?_
  refine Keeps.bind (Keeps.loop keeps_readFullyRound _ _) fun cursor => ?_
  refine Keeps.bind (Keeps.update fun t h => h.frame rfl rfl) fun _ => ?_
  refine Keeps.bind_get fun t ht => ?_
  rw [wp_bind]
  cases hn : Snappy.uncompressedLength codec ((t.compressed.getD []).take cursor) with
  | error e => exact ht
  | ok n =>
    simp only [wp_fromExcept_ok, wp_bind, allocateUncompressed, wp_ite, wp_throw, wp_modify]
    split
    · exact ht
    · have hlt := uncompressedLength_lt hn
      refine wp_mono (wp_uncompress_measured ⟨ht.calls, ?_⟩ hn ?_)
        (fun _ u hu => hu.frame rfl rfl) (fun _ _ h => h)
      · simp only [Option.getD_some, length_newArray]
        omega
      · simp only [Option.getD_some, length_newArray]
        omega

theorem keeps_readHeader : Keeps Measured (readHeader codec) := by
  refine Keeps.bind Keeps.get fun s => Keeps.bind (keeps_onIn _) fun p => ?_
  refine Keeps.bind (Keeps.update fun t h => h.frame rfl rfl) fun _ => ?_
  exact Keeps.ite (Keeps.throw _) (Keeps.when (keeps_readFully _ _))

theorem keeps_readNext (offset len : Nat) : Keeps Measured (readNext offset len) := by
  refine Keeps.bind Keeps.get fun s => Keeps.bind (keeps_onIn _) fun p => ?_
  exact Keeps.bind (Keeps.update fun t h => h.frame rfl rfl) fun _ => Keeps.pure _

theorem keeps_concatenatedHeader : Keeps Measured concatenatedHeader := by
  refine Keeps.bind (keeps_readNext _ _) fun n => Keeps.ite (Keeps.throw _) ?_
  exact Keeps.bind Keeps.get fun s => Keeps.fromExcept _

theorem keeps_readCompressed (chunkSize : Nat) : Keeps Measured (readCompressed chunkSize) := by
  refine Keeps.bind Keeps.get fun s => ?_
  refine Keeps.bind (Keeps.when (Keeps.update fun t h => h.frame rfl rfl)) fun _ => ?_
  refine Keeps.bind Keeps.get fun t => Keeps.bind (keeps_onIn _) fun p => ?_
  exact Keeps.bind (Keeps.update fun t h => h.frame rfl rfl) fun _ => Keeps.pure _

/-- A later allocation is made where the signed comparison says so; a block
whose length has lost its sign keeps the destination as it is. -/
theorem keeps_uncompressChunk (chunkSize : Nat) :
    Keeps Measured (uncompressChunk codec chunkSize) := by
  refine Keeps.bind_get fun s hs => ?_
  rw [wp_bind]
  cases hn : Snappy.uncompressedLength codec ((s.compressed.getD []).take chunkSize) with
  | error e => exact hs
  | ok n =>
    have hlt := uncompressedLength_lt hn
    have hrun : ∀ t : SnappyInputStream, Measured t → t.compressed = s.compressed →
        n ≤ (t.uncompressed.getD []).length →
        wp (uncompress codec chunkSize >>= fun actual =>
          if n ≠ actual then
            throw (.snappyIOException .invalidChunkSize ("expected " ++ formatGrouped n ++
              " bytes, but decompressed chunk has " ++ formatGrouped actual ++ " bytes"))
          else modify fun s => { s with uncompressedLimit := actual.toNat })
          (fun _ => Measured) (fun _ => Measured) t := by
      intro t ht hcomp hroom
      rw [← hcomp] at hn
      rw [wp_bind]
      refine wp_mono (wp_uncompress_measured ht hn hroom) (fun actual u hu => ?_) (fun _ _ h => h)
      exact Keeps.ite (Keeps.throw _) (Keeps.update fun t h => h.frame rfl rfl) u hu
    simp only [wp_fromExcept_ok]
    rw [wp_bind, wp_when]
    split
    · simp only [allocateUncompressed, wp_ite, wp_throw, wp_modify]
      split
      · exact hs
      · refine hrun _ ⟨hs.calls, ?_⟩ rfl ?_
        · simp only [Option.getD_some, length_newArray]
          omega
        · simp only [Option.getD_some, length_newArray]
          omega
    · exact hrun s hs rfl (by omega)

theorem keeps_nextChunkRound (u : Unit) : Keeps Measured (nextChunkRound codec u) := by
  refine Keeps.bind_get fun s hs => ?_
  refine Keeps.ite (Keeps.pure _) (Keeps.bind (fun t ht => ?_) fun _ => ?_) s hs
  · exact hs.frame rfl rfl
  refine Keeps.bind (keeps_readNext _ _) fun n => Keeps.ite (Keeps.pure _) ?_
  refine Keeps.bind Keeps.get fun t => Keeps.ite ?_ (Keeps.ite (Keeps.throw _) ?_)
  · exact Keeps.bind keeps_concatenatedHeader fun _ => Keeps.pure _
  refine Keeps.ite (Keeps.throw _) (Keeps.bind (keeps_readCompressed _) fun m => ?_)
  refine Keeps.ite (Keeps.throw _) (Keeps.bind (keeps_uncompressChunk _) fun _ => Keeps.pure _)

theorem keeps_hasNextChunk : Keeps Measured (hasNextChunk codec) :=
  Keeps.bind Keeps.get fun _ => Keeps.loop keeps_nextChunkRound _ _

theorem keeps_readByte : Keeps Measured (readByte codec) := by
  refine Keeps.bind Keeps.get fun _ => Keeps.loop (fun _ => Keeps.bind_get fun s hs => ?_) _ _
  rw [wp_ite]
  split
  · have ht : Measured { s with uncompressedCursor := s.uncompressedCursor + 1 } :=
      hs.frame rfl rfl
    rw [wp_bind, wp_set]
    split
    · exact ht
    · split
      · exact ht
      · exact ht
  · exact Keeps.bind keeps_hasNextChunk (fun _ => Keeps.pure _) s hs

theorem keeps_copyFromUncompressed (copy : ArrayCopy) (b : Bytes) (offset : Int) (n : Nat) :
    Keeps Measured (copyFromUncompressed copy b offset n) := by
  refine Keeps.bind_get fun s hs => ?_
  have ht : Measured { s with uncompressedCursor := s.uncompressedCursor + n } := hs.frame rfl rfl
  split
  · exact hs
  · simp only [wp_ite, wp_throw, wp_bind, wp_set, wp_pure]
    split
    · exact hs
    · split
      · exact hs
      · exact ht

theorem keeps_bulkRead (copy : ArrayCopy) (b : Bytes) (off len : Int) :
    Keeps Measured (bulkRead codec copy b off len) := by
  refine Keeps.bind Keeps.get fun s => Keeps.loop (fun p => ?_) _ _
  refine Keeps.ite (Keeps.bind Keeps.get fun t => Keeps.ite ?_ ?_) (Keeps.pure _)
  · exact Keeps.bind keeps_hasNextChunk fun _ => Keeps.pure _
  · exact Keeps.bind (keeps_copyFromUncompressed _ _ _ _) fun _ => Keeps.pure _

theorem keeps_available : Keeps Measured (available codec) := by
  refine Keeps.bind Keeps.get fun s => Keeps.ite (Keeps.pure _) ?_
  exact Keeps.bind keeps_hasNextChunk fun _ => Keeps.bind Keeps.get fun _ => Keeps.pure _

theorem keeps_perform (c : ReadCall) : Keeps Measured (perform codec c) := by
  cases c with
  | readByte => exact Keeps.bind keeps_readByte fun _ => Keeps.pure _
  | read b off len => exact Keeps.map (keeps_bulkRead _ _ _ _)
  | rawRead a off len => exact Keeps.map (keeps_bulkRead _ _ _ _)
  | readArray t d off len => exact Keeps.map (keeps_bulkRead _ _ _ _)
  | available => exact Keeps.bind keeps_available fun _ => Keeps.pure _

end

/-! ## Room for the native decompressor -/

/-- The constructor and then any calls, each exception ending its own call. -/
def openRun (codec : Codec) (calls : List ReadCall) :
    Method (List (Except Throwable (Reading.Answer UInt8))) := do
  readHeader codec
  runOn Throwable.Fatal (perform codec) calls

/-- In every run over any input, the native decompressor has room at every call
if and only if no block it is given has lost the sign of its length. -/
theorem openRun_fits_iff (codec : Codec) (input : Source) (maxChunkSize : Int)
    (calls : List ReadCall) :
    wp (openRun codec calls)
      (fun _ t => (∀ c ∈ t.uncompressCalls, c.Fits) ↔ ∀ c ∈ t.uncompressCalls, c.Signed)
      (fun _ t => (∀ c ∈ t.uncompressCalls, c.Fits) ↔ ∀ c ∈ t.uncompressCalls, c.Signed)
      (initial input maxChunkSize) := by
  have hiff : ∀ t, Measured t →
      ((∀ c ∈ t.uncompressCalls, c.Fits) ↔ ∀ c ∈ t.uncompressCalls, c.Signed) :=
    fun t ht => forall₂_congr ht.calls
  have hkeeps : Keeps Measured (openRun codec calls) :=
    Keeps.bind keeps_readHeader fun _ => Keeps.runOn keeps_perform _
  exact wp_mono (hkeeps _ ⟨by simp [initial], by simp [initial]⟩) (fun _ t ht => hiff t ht)
    (fun _ t ht => hiff t ht)

end SnappyJava.SnappyInputStream
