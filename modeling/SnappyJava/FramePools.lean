import SnappyJava.FrameDrain

/-! The buffers of a `SnappyFramedInputStream` over a whole stream of frames:
when each frame's data fits `buffer`, for the pools of the library and for any
pool that keeps the contract. -/

namespace SnappyJava.SnappyFramedInputStream

open Exec Memory Words

/-! ## Lists of frames -/

/-- A list has a first element without the property, or they all have it. -/
theorem all_or_first {α : Type} (p : α → Prop) (xs : List α) :
    (∀ x ∈ xs, p x) ∨ ∃ pre x post, xs = pre ++ x :: post ∧ (∀ y ∈ pre, p y) ∧ ¬ p x := by
  induction xs with
  | nil => exact .inl (by simp)
  | cons x xs ih =>
    by_cases hx : p x
    · rcases ih with hall | ⟨pre, y, post, rfl, hpre, hy⟩
      · exact .inl (by simpa [hx] using hall)
      · exact .inr ⟨x :: pre, y, post, rfl, by simpa [hx] using hpre, hy⟩
    · exact .inr ⟨[], x, xs, rfl, by simp, hx⟩

/-- A frame that can be written down has data that an `int` can count, if its
block declares so much. -/
theorem length_data_lt {platform : Platform} {f : Frame} (hf : f.Fits)
    (hshort : f.flag = SnappyFramed.compressedDataFlag → ∀ data,
      platform.codec.rawUncompress f.payload = .ok data → data.length < 2 ^ 31) :
    (f.data platform.codec).length < 2 ^ 31 := by
  rw [Frame.data]
  split
  · rename_i hflag
    split
    · rename_i data hok
      exact hshort hflag data hok
    · decide
  · split
    · have hfits : f.body.length < 2 ^ 24 := hf
      rw [Frame.payload, List.length_drop]
      omega
    · decide

/-! ## What a pool answers -/

section
variable {pool : BufferPool}

theorem answered_direct {f : Nat → Nat} (h : pool.Sized f) (k : Nat) {size : Nat} (hpos : 0 < size)
    (hs : size < 2 ^ 31) : answered (pool.allocateDirect k size) = f size := by
  obtain ⟨b, hb⟩ := h.direct_ok k size hs
  rw [hb]
  exact h.direct_size k size b hpos hb

theorem answered_array {f : Nat → Nat} (h : pool.Sized f) (k : Nat) {size : Nat} (hpos : 0 < size)
    (hs : size < 2 ^ 31) : answered (pool.allocateArray k size) = f size := by
  obtain ⟨b, hb⟩ := h.array_ok k size hs
  rw [hb]
  exact h.array_size k size b hpos hb

end

namespace Capacities

section
variable {platform : Platform} {c : Capacities} {frames : List Frame} {f : Frame}

theorem roomy_append {more : List Frame} :
    c.Roomy platform (frames ++ more) ↔
      c.Roomy platform frames ∧ (c.after platform frames).Roomy platform more := by
  induction frames generalizing c with
  | nil => exact ⟨fun h => ⟨trivial, h⟩, fun h => h.2⟩
  | cons f fs ih =>
    rw [List.cons_append, Roomy, Roomy, ih]
    exact and_assoc.symm

/-- Where a stream of frames has no room, there is a first frame without. -/
theorem exists_first_of_not_roomy (h : ¬ c.Roomy platform frames) :
    ∃ pre f post, frames = pre ++ f :: post ∧ c.Roomy platform pre ∧
      ((c.after platform pre).next platform f).buffer < (f.data platform.codec).length := by
  induction frames generalizing c with
  | nil => exact absurd trivial h
  | cons f fs ih =>
    by_cases hf : (f.data platform.codec).length ≤ (c.next platform f).buffer
    · obtain ⟨pre, g, post, rfl, hpre, hg⟩ := ih fun hfs => h ⟨hf, hfs⟩
      exact ⟨f :: pre, g, post, rfl, ⟨hf, hpre⟩, hg⟩
    · exact ⟨[], f, fs, rfl, trivial, Nat.lt_of_not_le hf⟩

/-! ## The pools of the library -/

/-- The relation between the three buffers that the pools of the library keep. -/
structure Even (c : Capacities) : Prop where
  input_le : c.input ≤ c.buffer
  buffer_eq : c.buffer = c.uncompressedDirect

section
variable {pool : BufferPool} {size : Nat → Nat} (hsized : pool.Sized size)
  (hmono : ∀ n m, 0 < n → n ≤ m → m < 2 ^ 31 → size n ≤ size m)
include hsized hmono

theorem even_basedOnSize (k : Nat) {n : Nat} (hpos : 0 < n) (hn : n ≤ 2 ^ 25) :
    (basedOnSize pool k n).Even ∧ n ≤ (basedOnSize pool k n).input := by
  have hmax := @Snappy.maxCompressedLength_natCast n (by omega)
  have hle := le_answered_direct hsized.toReliable k (show n < 2 ^ 31 by omega)
  simp only [basedOnSize]
  rw [answered_direct hsized k hpos (by omega), answered_direct hsized _ (by omega) (by omega),
    answered_array hsized _ (by omega) (by omega)]
  rw [answered_direct hsized k hpos (by omega)] at hle
  exact ⟨⟨hmono _ _ hpos (by omega) (by omega), rfl⟩, hle⟩

theorem Even.forBody (h : c.Even) {n : Nat} (hn : n < 2 ^ 24) :
    (c.forBody pool n).Even ∧ n ≤ (c.forBody pool n).input := by
  rw [Capacities.forBody]
  split
  · exact even_basedOnSize hsized hmono _ (by omega) (by omega)
  · exact ⟨h, by omega⟩

omit hmono in
theorem Even.forBlock (h : c.Even) {n : Nat} (hn : n < 2 ^ 31) :
    (c.forBlock pool n).Even ∧ n ≤ (c.forBlock pool n).buffer := by
  have hin := h.input_le
  have heq := h.buffer_eq
  rw [Capacities.forBlock]
  split
  · have hle := le_answered_array hsized.toReliable (c.allocations + 1) hn
    refine ⟨⟨?_, ?_⟩, hle⟩
    · simp only
      omega
    · simp only
      rw [answered_array hsized _ (by omega) hn, answered_direct hsized _ (by omega) hn]
  · exact ⟨h, by omega⟩

end

/-- With a pool of the library every frame's data finds room. -/
theorem Even.roomy {size : Nat → Nat} (hsized : platform.bufferPool.Sized size)
    (hmono : ∀ n m, 0 < n → n ≤ m → m < 2 ^ 31 → size n ≤ size m) (h : c.Even)
    (hf : ∀ f ∈ frames, f.Fits ∧ (f.data platform.codec).length < 2 ^ 31) :
    c.Roomy platform frames := by
  induction frames generalizing c with
  | nil => trivial
  | cons f fs ih =>
    obtain ⟨hfits, hshort⟩ := hf f (by simp)
    have hstep : (c.next platform f).Even ∧
        (f.data platform.codec).length ≤ (c.next platform f).buffer := by
      obtain ⟨hbody, hin⟩ := h.forBody hsized hmono hfits
      rw [next]
      split
      · exact hbody.forBlock hsized hshort
      · rename_i h0
        split
        · rename_i h1
          have hle := hbody.input_le
          rw [Frame.data, if_neg h0, if_pos h1, Frame.payload, List.length_drop]
          exact ⟨hbody, by omega⟩
        · rename_i h1
          rw [Frame.data, if_neg h0, if_neg h1]
          exact ⟨h, Nat.zero_le _⟩
    exact ⟨hstep.2, ih hstep.1 fun g hg => hf g (by simp [hg])⟩

theorem roomy_of_builtIn (hpool : platform.bufferPool.BuiltIn)
    (hf : ∀ f ∈ frames, f.Fits ∧ (f.data platform.codec).length < 2 ^ 31) :
    (initial platform.bufferPool).Roomy platform frames := by
  obtain ⟨size, hsized, hmono⟩ := hpool.sized
  exact (even_basedOnSize hsized hmono 0 (by decide) (by decide)).1.roomy hsized hmono hf

/-! ## Any pool -/

/-- The buffer whose size is tested is large enough for the frame, so that no
larger ones are asked for, but `buffer` is not. -/
def Overlooks (platform : Platform) (c : Capacities) (f : Frame) : Prop :=
  (f.flag = SnappyFramed.compressedDataFlag ∧
    (f.data platform.codec).length ≤
      (c.forBody platform.bufferPool f.body.length).uncompressedDirect ∧
    (c.forBody platform.bufferPool f.body.length).buffer < (f.data platform.codec).length) ∨
  (f.flag = SnappyFramed.uncompressedDataFlag ∧ f.body.length ≤ c.input ∧
    c.buffer < (f.data platform.codec).length)

/-- None of the frames is one of those. -/
def NoneOverlooked (platform : Platform) : Capacities → List Frame → Prop
  | _, [] => True
  | c, f :: fs => ¬ c.Overlooks platform f ∧ NoneOverlooked platform (c.next platform f) fs

/-- Buffers that have just been asked for are large enough. -/
theorem overlooks_iff (hpool : platform.bufferPool.Reliable) (hf : f.Fits)
    (hshort : (f.data platform.codec).length < 2 ^ 31) :
    c.Overlooks platform f ↔ (c.next platform f).buffer < (f.data platform.codec).length := by
  have hne : SnappyFramed.uncompressedDataFlag ≠ SnappyFramed.compressedDataFlag := by decide
  by_cases h0 : f.flag = SnappyFramed.compressedDataFlag
  · have h1 : f.flag ≠ SnappyFramed.uncompressedDataFlag := fun h1 => hne (h1.symm.trans h0)
    simp only [Overlooks, next, h0, if_true, true_and, Ne.symm hne, false_and, or_false, forBlock]
    split
    · rename_i hlarge
      have hle := le_answered_array hpool
        ((c.forBody platform.bufferPool f.body.length).allocations + 1) hshort
      simp only
      omega
    · omega
  by_cases h1 : f.flag = SnappyFramed.uncompressedDataFlag
  · have hdata : (f.data platform.codec).length ≤ f.body.length := by
      rw [Frame.data, if_neg h0, if_pos h1, Frame.payload, List.length_drop]
      omega
    simp only [Overlooks, next, h1, hne, false_and, false_or, if_false, if_true, true_and, forBody]
    split
    · rename_i hlarge
      have hfits : f.body.length < 2 ^ 24 := hf
      have hmax := @Snappy.maxCompressedLength_natCast f.body.length (by omega)
      have hle := le_answered_array hpool (c.allocations + 2)
        (show (Snappy.maxCompressedLength f.body.length).toNat < 2 ^ 31 by omega)
      simp only [basedOnSize]
      omega
    · omega
  · rw [Overlooks, Frame.data, if_neg h0, if_neg h1]
    simp [h0, h1]

theorem noneOverlooked_iff (hpool : platform.bufferPool.Reliable)
    (hf : ∀ f ∈ frames, f.Fits ∧ (f.data platform.codec).length < 2 ^ 31) :
    c.NoneOverlooked platform frames ↔ c.Roomy platform frames := by
  induction frames generalizing c with
  | nil => exact Iff.rfl
  | cons f fs ih =>
    obtain ⟨hfits, hshort⟩ := hf f (by simp)
    rw [NoneOverlooked, Roomy, overlooks_iff hpool hfits hshort, Nat.not_lt,
      ih fun g hg => hf g (by simp [hg])]

end

end Capacities

section
variable {platform : Platform} {v : Bool} {frames : List Frame} {rbc : Source}

/-- A stream of good frames is drained whole exactly where each of them has
room. -/
theorem drain_iff_roomy (hpool : platform.bufferPool.Reliable) (hp : rbc.Positive)
    (hdata : rbc.data = SnappyFramed.headerBytes ++ frames.flatMap Frame.encode)
    (hacc : ∀ f ∈ frames, Accepted platform f) :
    drain platform rbc v =
        (.ok (contents platform.codec frames).length, contents platform.codec frames) ↔
      (Capacities.initial platform.bufferPool).Roomy platform frames := by
  refine ⟨fun h => ?_, drain_of_roomy hpool hp hdata hacc⟩
  by_contra hnot
  obtain ⟨pre, f, post, rfl, hpre, hover⟩ := Capacities.exists_first_of_not_roomy hnot
  have hf := hacc f (by simp)
  obtain ⟨e, he, -⟩ := @drain_stop platform v pre rbc hpool hp f post hdata
    (fun g hg => hacc g (by simp [hg])) hpre hf.fits (fun hflag _ hn => hf.declared_lt hflag hn)
    (.inr hover)
  rw [h] at he
  cases he

/-- A stream of complete good frames is drained whole, over any pool that keeps
the contract, exactly where no frame is overlooked. -/
theorem drain_iff_noneOverlooked (hpool : platform.bufferPool.Reliable) (hp : rbc.Positive)
    (hdata : rbc.data = SnappyFramed.headerBytes ++ frames.flatMap Frame.encode)
    (hfits : ∀ f ∈ frames, f.Fits) (hgood : ∀ f ∈ frames, f.Good platform)
    (hshort : ∀ f ∈ frames, (f.data platform.codec).length < 2 ^ 31) :
    drain platform rbc v =
        (.ok (contents platform.codec frames).length, contents platform.codec frames) ↔
      (Capacities.initial platform.bufferPool).NoneOverlooked platform frames := by
  rw [Capacities.noneOverlooked_iff hpool fun f hf => ⟨hfits f hf, hshort f hf⟩]
  exact drain_iff_roomy hpool hp hdata fun f hf => ⟨hfits f hf, hgood f hf, hshort f hf⟩

end

theorem drain_iff_noneOverlooked_samples :
    drain literalPlatform ⟨SnappyFramed.headerBytes ++ Frame.samples.flatMap Frame.encode, [3, 1]⟩ true =
        (.ok (contents literalCodec Frame.samples).length, contents literalCodec Frame.samples) ↔
      (Capacities.initial QuiescentBufferPool).NoneOverlooked literalPlatform Frame.samples :=
  @drain_iff_noneOverlooked literalPlatform true _ _ QuiescentBufferPool.builtIn.reliable (by decide)
    rfl (fun _ hf => (Frame.samples_spec hf).1) (fun _ hf => (Frame.samples_spec hf).2.1)
    (fun _ hf => (Frame.samples_spec hf).2.2)

/-- A pool that keeps the contract: its arrays are as large as asked for, its
direct buffers have at least 128 KiB. -/
def wideDirectPool : BufferPool where
  allocateDirect _ size :=
    if size < 2 ^ 31 then .ok (newArray (max size (2 ^ 17))) else .error .outOfMemoryError
  allocateArray := QuiescentBufferPool.allocateArray
  object k := k

theorem wideDirectPool_reliable : wideDirectPool.Reliable where
  direct := by
    intro k size b h
    simp only [wideDirectPool] at h
    split at h
    · cases h
      rw [length_newArray]
      omega
    · cases h
  array := QuiescentBufferPool.builtIn.reliable.array
  direct_ok := fun _ _ h => ⟨_, if_pos h⟩
  array_ok := QuiescentBufferPool.builtIn.reliable.array_ok

/-- Over that pool a raw frame of 100000 bytes is not delivered: `input` holds
it, so that nothing larger is asked for, but `buffer` does not. -/
theorem wideDirectPool_frame_lost :
    let platform := { literalPlatform with bufferPool := wideDirectPool }
    let f := Frame.ofBlock platform false (newArray 100000) (newArray 100000)
    wideDirectPool.Reliable ∧ f.Fits ∧ f.Good platform ∧
      (f.data platform.codec).length = 100000 ∧
      drain platform ⟨SnappyFramed.headerBytes ++ [f].flatMap Frame.encode, []⟩ true =
        (.error .indexOutOfBoundsException, []) := by
  intro platform f
  have hdec : Frame.Decodes platform.codec false (newArray 100000) (newArray 100000) := rfl
  have hdata : f.data platform.codec = newArray 100000 := Frame.data_ofBlock hdec
  have hlen : (f.data platform.codec).length = 100000 := by rw [hdata, length_newArray]
  have hbody : f.body.length = 100004 := by
    rw [Frame.length_body_ofBlock, length_newArray]
  have hfits : f.Fits := by
    rw [Frame.Fits, hbody]
    decide
  have hgood : f.Good platform := by
    refine Frame.good_ofBlock hdec fun h => ?_
    have := congrArg List.length h
    rw [length_newArray, List.length_nil] at this
    omega
  have hover : (((Capacities.initial platform.bufferPool).after platform []).next platform f).buffer <
      (f.data platform.codec).length := by
    rw [← Capacities.overlooks_iff wideDirectPool_reliable hfits (by omega)]
    have hin : (Capacities.initial wideDirectPool).input = 2 ^ 17 := length_newArray _
    have hbuf : (Capacities.initial wideDirectPool).buffer = 76496 := length_newArray _
    refine .inr ⟨rfl, ?_, ?_⟩
    · rw [hbody]
      exact Nat.le_of_lt (by rw [Capacities.after, List.foldl_nil, hin]; omega)
    · rw [hlen, Capacities.after, List.foldl_nil, hbuf]
      omega
  refine ⟨wideDirectPool_reliable, hfits, hgood, hlen, ?_⟩
  obtain ⟨e, he, ⟨rfl, -⟩ | ⟨-, hbad⟩⟩ := @drain_stop platform true []
    ⟨SnappyFramed.headerBytes ++ [f].flatMap Frame.encode, []⟩ wideDirectPool_reliable
    (by simp [Source.Positive]) f [] rfl (by simp) trivial hfits
    (fun h => absurd h (by decide)) (.inr hover)
  · exact he
  · exact absurd hgood hbad

end SnappyJava.SnappyFramedInputStream
