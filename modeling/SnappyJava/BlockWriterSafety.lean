import SnappyJava.BlockWriterRuns

/-! The memory a `SnappyOutputStream` hands to native code. The calls are made
one after another with any arguments and over any sink, and an exception ends
its own call only; a run stops where native code has left its memory. -/

namespace SnappyJava.SnappyOutputStream

open Exec Memory

/-- Between two calls: some segments are complete and some data is pending. -/
def InProgress (codec : Codec) (cls : StreamClass) (b : Nat) (s : SnappyOutputStream) : Prop :=
  ∃ done current, Writing codec cls b False done current s

/-- The range of the call lies inside its array, as the caller has to see to.
The offsets and lengths are `int`s, and so is the length of a byte array. -/
def WriteCall.InArray : WriteCall → Prop
  | .writeByte _ => True
  | .write a off len => 0 ≤ off ∧ 0 ≤ len ∧ off + len ≤ a.length ∧ a.length < 2 ^ 31
  | .rawWrite a off len => 0 ≤ off ∧ 0 ≤ len ∧ off + len ≤ a.length ∧ off < 2 ^ 31 ∧ len < 2 ^ 31
  | .writeArray t d off len => 0 ≤ off ∧ 0 ≤ len ∧ (off + len) * t.size ≤ d.length ∧
    off + len < 2 ^ 31
  | .flush => True

instance : DecidablePred WriteCall.InArray
  | .writeByte _ => inferInstanceAs (Decidable True)
  | .write _ _ _ => inferInstanceAs (Decidable (_ ∧ _))
  | .rawWrite _ _ _ => inferInstanceAs (Decidable (_ ∧ _))
  | .writeArray _ _ _ _ => inferInstanceAs (Decidable (_ ∧ _))
  | .flush => inferInstanceAs (Decidable True)

/-- How a call can fail. Apart from a failing sink and from the compressor of
the subclass, the fault is the range of the caller. -/
def Failure (codec : Codec) (cls : StreamClass) (b : Nat) (c : WriteCall) (e : Throwable)
    (t : SnappyOutputStream) : Prop :=
  Open b False cls t ∧
    (e = .underlyingException ∧ InProgress codec cls b t ∨
      e = .indexOutOfBoundsException ∧ ¬ c.InArray ∧ InProgress codec cls b t ∨
      e = .memoryFault .arrayCopyRead ∨ e = .memoryFault .rawCompress)

section
variable {codec : Codec} {cls : StreamClass} {b : Nat} {s : SnappyOutputStream}

theorem InProgress.open (h : InProgress codec cls b s) : Open b False cls s := by
  obtain ⟨_, _, hw⟩ := h
  exact hw.toOpen

/-- One call, whatever its arguments and whatever the sink does. -/
theorem wp_perform_any (hc : codec.Bounded) (hb0 : 0 < b) (hb : b ≤ maxBlockSize)
    (h : InProgress codec cls b s) (c : WriteCall) :
    wp (perform codec cls c) (fun _ t => InProgress codec cls b t) (Failure codec cls b c) s := by
  obtain ⟨done, current, hw⟩ := h
  have hSink : ∀ t done' current', Writing codec cls b False done' current' t →
      Failure codec cls b c .underlyingException t :=
    fun t _ _ ht => ⟨ht.toOpen, .inl ⟨rfl, _, _, ht⟩⟩
  have hFault : ∀ t, Open b False cls t → Failure codec cls b c (.memoryFault .rawCompress) t :=
    fun t ht => ⟨ht, .inr (.inr (.inr rfl))⟩
  -- the two bulk paths differ in what a bad range does
  have hbulk : ∀ (copy : ArrayCopy) (a : Bytes) (off len : Int),
      (∀ t, ¬ RangeOk a off len → InProgress codec cls b t →
        Failure codec cls b c copy.sourceFault t) →
      wp (bulkWrite codec cls copy a off len) (fun _ t => InProgress codec cls b t)
        (Failure codec cls b c) s := by
    intro copy a off len hSource
    apply wp_bulkWrite hc hb0 hb hw
    · intro t data ht _
      exact ⟨_, _, ht⟩
    · intro t data hbad ht
      exact hSource t hbad ⟨_, _, ht⟩
    · intro t data _ ht _
      exact hSink t _ _ ht
    · intro t _ ht
      exact hFault t ht
  have hread : ∀ t, InProgress codec cls b t →
      Failure codec cls b c (.memoryFault .arrayCopyRead) t :=
    fun t ht => ⟨ht.open, .inr (.inr (.inl rfl))⟩
  cases c with
  | writeByte x =>
    apply wp_writeByte hc hb0 hb hw
    · intro t ht
      exact ⟨_, _, ht⟩
    · intro t _ ht
      exact hSink t _ _ ht
    · intro t _ ht
      exact hFault t ht
  | write a off len =>
    apply hbulk
    intro t hbad ht
    refine ⟨ht.open, .inr (.inl ⟨rfl, ?_, ht⟩)⟩
    rintro ⟨h₁, h₂, h₃, h₄⟩
    exact hbad ⟨h₁, h₂, h₃, by omega⟩
  | rawWrite a off len => exact hbulk _ _ _ _ fun t _ ht => hread t ht
  | writeArray t d off len => exact hbulk _ _ _ _ fun t _ ht => hread t ht
  | flush =>
    apply wp_flush hc hb0 hb hw
    · intro t ht _
      exact ⟨_, _, ht⟩
    · intro t _ ht
      rcases ht with ht | ht
      · exact hSink t _ _ ht
      · exact hSink t _ _ ht
    · intro t _ ht
      exact hFault t ht

/-- A run of calls. It ends early only where a native call has left its
memory, and that is never a copy into `inputBuffer`. -/
theorem wp_runOn_any (hc : codec.Bounded) (hb0 : 0 < b) (hb : b ≤ maxBlockSize)
    (h : InProgress codec cls b s) {ok : WriteCall → Prop} {R : Throwable → Prop}
    (hR : R .underlyingException)
    (hRange : ∀ c, ok c → ¬ c.InArray → R .indexOutOfBoundsException)
    {calls : List WriteCall} (hok : ∀ c ∈ calls, ok c) :
    wp (runOn Throwable.Fatal (perform codec cls) calls)
      (fun rs t => (∀ e, .error e ∈ rs → R e) ∧ Open b False cls t)
      (fun e t => (e = .memoryFault .arrayCopyRead ∨ e = .memoryFault .rawCompress) ∧
        Open b False cls t) s := by
  refine wp_mono (wp_runOn (InProgress codec cls b) (fun r => ∀ e, r = .error e → R e)
    ?_ hok h) ?_ (fun _ _ h => h)
  · intro c t hc' ht
    refine wp_mono (wp_perform_any hc hb0 hb ht c) ?_ ?_
    · intro _ u hu
      exact ⟨by simp, hu⟩
    · rintro e u ⟨hu, ⟨rfl, hp⟩ | ⟨rfl, hbad, hp⟩ | rfl | rfl⟩
      · rw [if_neg (by simp [Throwable.Fatal])]
        exact ⟨by rintro e ⟨⟩; exact hR, hp⟩
      · rw [if_neg (by simp [Throwable.Fatal])]
        exact ⟨by rintro e ⟨⟩; exact hRange c hc' hbad, hp⟩
      · rw [if_pos (by simp [Throwable.Fatal])]
        exact ⟨.inl rfl, hu⟩
      · rw [if_pos (by simp [Throwable.Fatal])]
        exact ⟨.inr rfl, hu⟩
  · rintro rs t ⟨hrs, ht⟩
    exact ⟨fun e he => hrs _ he e rfl, ht.open⟩

end

/-! ## Room for the native compressor -/

/-- Each call of the native compressor has had the room the library asks for. -/
def CompressorFits (s : SnappyOutputStream) : Prop := ∀ c ∈ s.compressCalls, c.Fits

/-- The class stores nothing between the measure and the block, or the measure
never left fewer spare bytes than the four of the preamble. -/
def PreambleFits (cls : StreamClass) (s : SnappyOutputStream) : Prop :=
  cls = .snappyOutputStream ∨ ∀ c ∈ s.compressCalls, ¬ (0 < c.spare ∧ c.spare < 4)

instance (c : CompressCall) : Decidable c.Fits := by unfold CompressCall.Fits; infer_instance

instance (s : SnappyOutputStream) : Decidable (CompressorFits s) := by
  unfold CompressorFits; infer_instance

theorem Open.compressorFits_iff {b : Nat} {rel : Prop} {cls : StreamClass} {s : SnappyOutputStream}
    (h : Open b rel cls s) : CompressorFits s ↔ PreambleFits cls s := by
  constructor
  · intro hfits
    cases cls with
    | snappyOutputStream => exact .inl rfl
    | snappyHadoopCompatibleOutputStream =>
      refine .inr fun c hc hspare => ?_
      exact (h.calls c hc).mp (hfits c hc) ⟨rfl, hspare⟩
  · intro hpre c hc
    refine (h.calls c hc).mpr ?_
    rintro ⟨hcls, hspare⟩
    rcases hpre with hbase | hpre
    · exact absurd (hcls.symm.trans hbase) (by simp)
    · exact hpre c hc hspare

/-- In every run the native compressor has room at each call if and only if no
preamble is stored into the spare bytes of the measure. -/
theorem compressorFits_iff_preambleFits {codec : Codec} (hc : codec.Bounded) (cls : StreamClass)
    {allocate : Nat → Bytes} (ha : ExactAllocator allocate) {out : OutputStream}
    (hout : out.received = []) {blockSize : Int} (hmin : 1024 ≤ blockSize)
    (hmax : blockSize ≤ 512 * 1024 * 1024) (calls : List WriteCall) :
    ∃ s, new allocate out blockSize = .ok s ∧
      wp (runOn Throwable.Fatal (perform codec cls) calls)
        (fun _ t => CompressorFits t ↔ PreambleFits cls t)
        (fun _ t => CompressorFits t ↔ PreambleFits cls t) s := by
  have hM : maxBlockSize = 536870912 := rfl
  obtain ⟨s, hs, hw⟩ := @new_writing _ ha out hout False False.elim _ hmin (by omega) codec cls
  refine ⟨s, hs, ?_⟩
  refine wp_mono (@wp_runOn_any _ _ _ _ hc (by omega) (by omega) ⟨_, _, hw⟩ (fun _ => True)
    (fun _ => True) trivial (fun _ _ _ => trivial) calls (fun _ _ => trivial)) ?_ ?_
  · intro _ t ht
    exact ht.2.compressorFits_iff
  · intro _ t ht
    exact ht.2.compressorFits_iff

/-- A block that leaves two spare bytes: the subclass compresses into an array
that may be two bytes short. -/
theorem hadoop_compressor_without_room :
    ∃ s, new newArray .reliable 1024 = .ok s ∧
      wp (runOn Throwable.Fatal (perform literalCodec .snappyHadoopCompatibleOutputStream)
          [.write (List.replicate 1024 0) 0 1024, .write (List.replicate 135 0) 0 135, .flush])
        (fun _ t => ¬ CompressorFits t) (fun _ _ => False) s :=
  ⟨_, rfl, by decide +kernel⟩

/-- A run of the subclass whose blocks leave more than the preamble needs. -/
theorem compressorFits_iff_preambleFits_zeros :
    ∃ s, new newArray .reliable 1024 = .ok s ∧
      wp (runOn Throwable.Fatal (perform literalCodec .snappyHadoopCompatibleOutputStream)
          [.writeByte 7, .flush])
        (fun _ t => CompressorFits t ↔ PreambleFits .snappyHadoopCompatibleOutputStream t)
        (fun _ t => CompressorFits t ↔ PreambleFits .snappyHadoopCompatibleOutputStream t) s :=
  compressorFits_iff_preambleFits LiteralCodec.lawful.toBounded
    .snappyHadoopCompatibleOutputStream exactAllocator_newArray rfl (by decide) (by decide) _

/-! ## Copies into the input buffer -/

/-- No call with a good range fails with an index error, no copy leaves the
input buffer, and the cursor stays in it, in every run. -/
def Usable (codec : Codec) (cls : StreamClass) (s : SnappyOutputStream) : Prop :=
  ∀ calls : List WriteCall, (∀ c ∈ calls, c.InArray) →
    wp (runOn Throwable.Fatal (perform codec cls) calls)
      (fun rs t => .error .indexOutOfBoundsException ∉ rs ∧ t.inputCursor ≤ t.inputBuffer.length)
      (fun e t => e ≠ .memoryFault .arrayCopyWrite ∧ t.inputCursor ≤ t.inputBuffer.length) s

/-- What the constructor makes of a size it accepts. Only the field is raised
to the minimum, not the size of the buffers. -/
theorem new_ok {allocate : Nat → Bytes} (ha : ExactAllocator allocate) {out : OutputStream}
    {blockSize : Int} {s : SnappyOutputStream} (h : new allocate out blockSize = .ok s) :
    0 ≤ blockSize ∧ blockSize ≤ maxBlockSize ∧
      s.blockSize = max minBlockSize blockSize.toNat ∧ s.inputBuffer.length = blockSize.toNat ∧
      s.inputCursor = 0 ∧ s.closed = false := by
  have hM : maxBlockSize = 536870912 := rfl
  have hm : minBlockSize = 1024 := rfl
  simp only [new] at h
  split at h
  · cases h
  · split at h
    · cases h
    · cases h
      exact ⟨by omega, by omega, by simp only; omega, ha _, rfl, rfl⟩

/-- A block written at once into a buffer shorter than a block. -/
theorem wp_bulkWrite_short {codec : Codec} {cls : StreamClass} {copy : ArrayCopy} {a : Bytes}
    {s : SnappyOutputStream} (hopen : s.closed = false) (hcursor : s.inputCursor = 0)
    (hshort : s.inputBuffer.length < s.blockSize) (ha : a.length = s.blockSize)
    (Q : Unit → SnappyOutputStream → Prop) (E : Throwable → SnappyOutputStream → Prop) :
    wp (bulkWrite codec cls copy a 0 s.blockSize) Q E s = E copy.destinationFault s := by
  have hpos : (0 : Int) < s.blockSize := by omega
  have hlen : min ((s.blockSize : Int) - 0) ((s.blockSize : Int) - s.inputCursor) = s.blockSize := by
    omega
  simp only [bulkWrite, loop, writeRound, copyToInput, wp_bind, wp_get, wp_ite, wp_when, wp_throw,
    hopen, Bool.false_eq_true, if_false, if_pos hpos, hlen, Int.toNat_natCast, Int.add_zero]
  rw [if_neg (by simp [Words.wrap32]; omega), if_pos (by omega)]

/-- Below the minimum, one block at once does not fit the input buffer. -/
theorem not_usable_of_lt (codec : Codec) (cls : StreamClass) {allocate : Nat → Bytes}
    (ha : ExactAllocator allocate) {out : OutputStream} {blockSize : Int} {s : SnappyOutputStream}
    (h : new allocate out blockSize = .ok s) (hlt : blockSize < 1024) :
    ¬ Usable codec cls s := by
  have hm : minBlockSize = 1024 := rfl
  obtain ⟨h0, -, hbs, hin, hcursor, hopen⟩ := new_ok ha h
  intro hu
  have hrun := hu [.write (List.replicate s.blockSize 0) 0 s.blockSize]
    (by simp [WriteCall.InArray]; omega)
  simp only [runOn, perform, write, wp_bind, wp_attempt] at hrun
  rw [wp_bulkWrite_short hopen hcursor (by omega) (by simp)] at hrun
  simp [ArrayCopy.destinationFault, Throwable.Fatal] at hrun

/-- A block size is usable if and only if the constructor need not raise it. -/
theorem usable_iff_minBlockSize {codec : Codec} (hc : codec.Bounded) (cls : StreamClass)
    {allocate : Nat → Bytes} (ha : ExactAllocator allocate) {out : OutputStream}
    (hout : out.received = []) {blockSize : Int} {s : SnappyOutputStream}
    (h : new allocate out blockSize = .ok s) :
    Usable codec cls s ↔ 1024 ≤ blockSize := by
  have hM : maxBlockSize = 536870912 := rfl
  obtain ⟨-, hmax, -⟩ := new_ok ha h
  constructor
  · intro hu
    by_contra hlt
    exact not_usable_of_lt codec cls ha h (by omega) hu
  · intro hmin calls hcalls
    obtain ⟨s', hs', hw⟩ := @new_writing _ ha out hout False False.elim _ hmin hmax codec cls
    obtain rfl : s = s' := by rw [h] at hs'; cases hs'; rfl
    have hcur : ∀ {t}, Open blockSize.toNat False cls t → t.inputCursor ≤ t.inputBuffer.length :=
      fun ht => by rw [ht.length_input]; exact ht.inputCursor_le
    refine wp_mono (@wp_runOn_any _ _ _ _ hc (by omega) (by omega) ⟨_, _, hw⟩ WriteCall.InArray
      (fun e => e ≠ .indexOutOfBoundsException) (by simp)
      (fun c hc' hbad => absurd hc' hbad) calls hcalls) ?_ ?_
    · rintro rs t ⟨hrs, ht⟩
      exact ⟨fun hmem => hrs _ hmem rfl, hcur ht⟩
    · rintro e t ⟨rfl | rfl, ht⟩
      · exact ⟨by simp, hcur ht⟩
      · exact ⟨by simp, hcur ht⟩

/-- An accepted size that is not usable: `rawWrite` copies 600 bytes over an
array of 512. -/
theorem small_block_overflow :
    ∃ s, new newArray .reliable 512 = .ok s ∧ ¬ Usable literalCodec .snappyOutputStream s ∧
      wp (runOn Throwable.Fatal (perform literalCodec .snappyOutputStream)
          [.rawWrite (List.replicate 600 0) 0 600])
        (fun _ _ => False) (fun e _ => e = .memoryFault .arrayCopyWrite) s := by
  refine ⟨_, rfl, ?_, by decide +kernel⟩
  exact not_usable_of_lt literalCodec .snappyOutputStream exactAllocator_newArray
    (by rfl : new newArray .reliable 512 = _) (by decide)

theorem usable_iff_minBlockSize_1024 :
    ∃ s, new newArray .reliable 1024 = .ok s ∧
      (Usable literalCodec .snappyOutputStream s ↔ (1024 : Int) ≤ 1024) :=
  ⟨_, rfl, usable_iff_minBlockSize LiteralCodec.lawful.toBounded .snappyOutputStream
    exactAllocator_newArray rfl rfl⟩

end SnappyJava.SnappyOutputStream
