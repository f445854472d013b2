import SnappyJava.Nio
import SnappyJava.TypedArrays

/-! `BitShuffle.shuffle` and `unshuffle` on direct buffers, with the native code
that is told where to read and to write and checks neither. -/

namespace SnappyJava

open Memory

/-- Unshuffling undoes shuffling, of whole elements. -/
def BitShuffleLibrary.Lawful (library : BitShuffleLibrary) : Prop :=
  ∀ (typeSize : Nat) (x : Bytes), typeSize ∣ x.length →
    library.bitunshuffle typeSize (library.bitshuffle typeSize x) = x

inductive BitShuffleType
  | byte | short | int | long | float | double
  deriving DecidableEq, Repr

def BitShuffleType.getTypeSize : BitShuffleType → Nat
  | byte => 1 | short => 2 | int => 4 | long => 8 | float => 4 | double => 8

/-- A `java.nio.ByteBuffer`, direct or not. -/
structure NioBuffer extends ByteBuffer where
  isDirect : Bool
  deriving DecidableEq, Repr

/-- The buffer with other bytes in its memory. -/
def NioBuffer.overwritten (b : NioBuffer) (array : Bytes) (h : array.length = b.array.length) :
    NioBuffer :=
  { b with array := array, limit_le := by rw [h]; exact b.limit_le }

namespace BitShuffle

/-- How a call ends. Native code that has left its buffers promises nothing. -/
inductive Outcome (α : Type)
  | returned (a : α)
  | threw (e : Throwable)
  | overran
  deriving DecidableEq, Repr

/-- What a call leaves: its result, the two buffers it was given, and the range of
the second one, from where and how many bytes, that native code has written. -/
structure Result where
  numProcessed : Nat
  input : NioBuffer
  output : NioBuffer
  writtenFrom : Nat
  written : Nat
  deriving DecidableEq, Repr

/-- `shuffleDirectBuffer` and `unshuffleDirectBuffer` on the memory of two buffers:
the number of bytes processed, and the memory of the second. -/
def directBuffer (process : Bytes → Bytes) (hp : ∀ x, (process x).length = x.length)
    (input : Bytes) (inputOffset typeSize length : Nat) (output : Bytes) (outputOffset : Nat) :
    Option (Nat × { array : Bytes // array.length = output.length }) :=
  let n := length / typeSize * typeSize
  if n = 0 then
    some (0, ⟨output, rfl⟩)
  else if h : inputOffset + n ≤ input.length ∧ outputOffset + n ≤ output.length then
    some (n, ⟨splice output outputOffset (process (slice input inputOffset n)),
      length_splice (by rw [hp, length_slice _ h.1]; exact h.2)⟩)
  else
    none

/-- `shuffle(ByteBuffer, BitShuffleType, ByteBuffer)`. -/
def shuffle (library : BitShuffleLibrary) (input : NioBuffer) (type : BitShuffleType)
    (shuffled : NioBuffer) : Outcome Result :=
  if input.isDirect = false then
    .threw (.snappyError .notADirectBuffer "input is not a direct buffer")
  else if shuffled.isDirect = false then
    .threw (.snappyError .notADirectBuffer "destination is not a direct buffer")
  else
    let uPos := input.position
    let uLen := input.remaining
    let typeSize := type.getTypeSize
    if uLen % typeSize ≠ 0 then
      .threw (.illegalArgumentException
        ("input length must be a multiple of the given type size: " ++ toString typeSize))
    else if shuffled.remaining < uLen then
      .threw (.illegalArgumentException "not enough space for output")
    else
      match directBuffer (library.bitshuffle typeSize) (library.length_bitshuffle typeSize)
          input.array uPos typeSize uLen shuffled.array shuffled.position with
      | none => .overran
      | some (numProcessed, ⟨array, h⟩) =>
        match (shuffled.overwritten array h).setLimit (shuffled.position + numProcessed : Nat) with
        | .error e => .threw e
        | .ok limited =>
          .returned ⟨numProcessed, input, { limited with isDirect := true }, shuffled.position,
            numProcessed⟩

/-- `unshuffle(ByteBuffer, BitShuffleType, ByteBuffer)`. The offset it hands on for
`output` is the position of `shuffled`, and it is `shuffled` whose limit it sets. -/
def unshuffle (library : BitShuffleLibrary) (shuffled : NioBuffer) (type : BitShuffleType)
    (output : NioBuffer) : Outcome Result :=
  if shuffled.isDirect = false then
    .threw (.snappyError .notADirectBuffer "input is not a direct buffer")
  else if output.isDirect = false then
    .threw (.snappyError .notADirectBuffer "destination is not a direct buffer")
  else
    let uPos := shuffled.position
    let uLen := shuffled.remaining
    let typeSize := type.getTypeSize
    if uLen % typeSize ≠ 0 then
      .threw (.illegalArgumentException
        ("length of input shuffled data must be a multiple of the given type size: " ++
          toString typeSize))
    else if output.remaining < uLen then
      .threw (.illegalArgumentException "not enough space for output")
    else
      match directBuffer (library.bitunshuffle typeSize) (library.length_bitunshuffle typeSize)
          shuffled.array uPos typeSize uLen output.array shuffled.position with
      | none => .overran
      | some (numProcessed, ⟨array, h⟩) =>
        match shuffled.setLimit (shuffled.position + numProcessed : Nat) with
        | .error e => .threw e
        | .ok limited =>
          .returned ⟨numProcessed, { limited with isDirect := true }, output.overwritten array h,
            shuffled.position, numProcessed⟩

/-! ## Shuffling and back -/

/-- A call has taken the content of `input` through `process` to `output`, where it
has written from the position on, as far as the limit now is, and nothing else. -/
structure Converts (process : Bytes → Bytes) (input output : NioBuffer) (r : Result) : Prop where
  numProcessed_eq : r.numProcessed = input.remaining
  input_eq : r.input = input
  array_eq : r.output.array = splice output.array output.position (process input.content)
  position_eq : r.output.position = output.position
  limit_eq : r.output.limit = output.position + input.remaining
  written_eq : r.written = input.remaining
  writtenFrom_eq : r.written ≠ 0 → r.writtenFrom = output.position

/-- Shuffling converts, and unshuffling what it has made converts back to the
content there was. -/
def RoundTrips (library : BitShuffleLibrary) (type : BitShuffleType)
    (input shuffled output : NioBuffer) : Prop :=
  ∃ r, shuffle library input type shuffled = .returned r ∧
    Converts (library.bitshuffle type.getTypeSize) input shuffled r ∧
    ∃ r', unshuffle library r.output type output = .returned r' ∧
      Converts (fun _ => input.content) r.output output r'

section
variable {library : BitShuffleLibrary} {type : BitShuffleType} {input shuffled output : NioBuffer}

/-- Native code on ranges that are inside their buffers. -/
theorem directBuffer_eq {process : Bytes → Bytes} {hp : ∀ x, (process x).length = x.length}
    {source : Bytes} {inputOffset typeSize length : Nat} {dest : Bytes} {outputOffset : Nat}
    (hdvd : typeSize ∣ length) (hin : inputOffset + length ≤ source.length)
    (hout : length ≠ 0 → outputOffset + length ≤ dest.length) :
    ∃ h, directBuffer process hp source inputOffset typeSize length dest outputOffset =
      some (length, ⟨splice dest outputOffset (process (slice source inputOffset length)), h⟩) := by
  have hn : length / typeSize * typeSize = length := Nat.div_mul_cancel hdvd
  by_cases h0 : length = 0
  · have hnil : process (slice source inputOffset length) = [] := by
      rw [← List.length_eq_zero_iff, hp, length_slice _ hin, h0]
    have hdest : splice dest outputOffset (process (slice source inputOffset length)) = dest := by
      rw [hnil, splice_nil]
    subst h0
    refine ⟨by rw [hdest], ?_⟩
    simp only [directBuffer, hn, if_true]
    exact congrArg some (Prod.ext rfl (Subtype.ext hdest.symm))
  · refine ⟨length_splice (by rw [hp, length_slice _ hin]; exact hout h0), ?_⟩
    simp only [directBuffer, hn, if_neg h0, dif_pos (And.intro hin (hout h0))]

/-- The range of a buffer from its position on. -/
theorem position_add_le {b : NioBuffer} {n : Nat} (h : n ≤ b.remaining) :
    b.position + n ≤ b.limit ∧ b.position + n ≤ b.array.length := by
  have h₁ := b.position_le
  have h₂ := b.limit_le
  unfold ByteBuffer.remaining at h
  omega

/-- A limit behind the position leaves the position. -/
theorem setLimit_add {b : ByteBuffer} {p n : Nat} (hp : b.position = p) (h : p + n ≤ b.array.length) :
    b.setLimit (p + n : Nat) = .ok ⟨b.array, p, p + n, Nat.le_add_right _ _, h⟩ := by
  rw [ByteBuffer.setLimit, dif_pos ⟨by omega, by unfold ByteBuffer.capacity; omega⟩]
  refine congrArg Except.ok (ByteBuffer.ext rfl ?_ rfl)
  simp only [hp, Int.toNat_natCast]
  omega

/-- Where the length checks pass, `shuffle` converts the content. -/
theorem shuffle_converts (hin : input.isDirect = true) (hsh : shuffled.isDirect = true)
    (hdvd : type.getTypeSize ∣ input.remaining) (hroom : input.remaining ≤ shuffled.remaining) :
    ∃ r, shuffle library input type shuffled = .returned r ∧
      Converts (library.bitshuffle type.getTypeSize) input shuffled r ∧ r.output.isDirect = true := by
  obtain ⟨-, hcap⟩ := position_add_le hroom
  have hinput := (position_add_le (Nat.le_refl input.remaining)).2
  obtain ⟨hlen, hdirect⟩ := @directBuffer_eq (library.bitshuffle type.getTypeSize)
    (library.length_bitshuffle type.getTypeSize) _ _ _ _ shuffled.array shuffled.position hdvd hinput
    (fun _ => hcap)
  have hset := @setLimit_add (shuffled.overwritten _ hlen).toByteBuffer shuffled.position
    input.remaining rfl (Nat.le_trans hcap (Nat.le_of_eq hlen.symm))
  simp only [shuffle, hin, hsh, Bool.true_eq_false, if_false, Nat.mod_eq_zero_of_dvd hdvd,
    ne_eq, not_true_eq_false, if_neg (Nat.not_lt.mpr hroom), hdirect, hset]
  exact ⟨_, rfl, ⟨rfl, rfl, rfl, rfl, rfl, rfl, fun _ => rfl⟩, rfl⟩

/-- Where the length checks pass and the two buffers stand alike, `unshuffle`
converts the content. -/
theorem unshuffle_converts (hin : shuffled.isDirect = true) (hout : output.isDirect = true)
    (hdvd : type.getTypeSize ∣ shuffled.remaining) (hroom : shuffled.remaining ≤ output.remaining)
    (hposition : shuffled.remaining ≠ 0 → shuffled.position = output.position)
    (hlimit : output.limit = output.position + shuffled.remaining) :
    ∃ r, unshuffle library shuffled type output = .returned r ∧
      Converts (library.bitunshuffle type.getTypeSize) shuffled output r := by
  obtain ⟨-, hcap⟩ := position_add_le hroom
  have hinput := (position_add_le (Nat.le_refl shuffled.remaining)).2
  obtain ⟨hlen, hdirect⟩ := @directBuffer_eq (library.bitunshuffle type.getTypeSize)
    (library.length_bitunshuffle type.getTypeSize) _ _ _ _ output.array shuffled.position hdvd hinput
    (fun h0 => by rw [hposition h0]; exact hcap)
  have hset := @setLimit_add shuffled.toByteBuffer shuffled.position shuffled.remaining rfl hinput
  simp only [unshuffle, hin, hout, Bool.true_eq_false, if_false, Nat.mod_eq_zero_of_dvd hdvd,
    ne_eq, not_true_eq_false, if_neg (Nat.not_lt.mpr hroom), hdirect, hset]
  have hend : shuffled.position + shuffled.remaining = shuffled.limit := by
    have := shuffled.position_le
    unfold ByteBuffer.remaining
    omega
  refine ⟨_, rfl, rfl, ?_, ?_, rfl, hlimit, rfl, hposition⟩
  · have hsame : (⟨shuffled.array, shuffled.position, shuffled.position + shuffled.remaining,
        Nat.le_add_right _ _, hinput⟩ : ByteBuffer) = shuffled.toByteBuffer :=
      ByteBuffer.ext rfl rfl hend
    show NioBuffer.mk _ true = shuffled
    rw [hsame, ← hin]
  · by_cases h0 : shuffled.remaining = 0
    · have hnil : library.bitunshuffle type.getTypeSize shuffled.content = [] := by
        rw [← List.length_eq_zero_iff, library.length_bitunshuffle, ByteBuffer.length_content, h0]
      show splice output.array shuffled.position
        (library.bitunshuffle type.getTypeSize shuffled.content) = _
      rw [hnil, splice_nil, splice_nil]
    · rw [← hposition h0]
      rfl

/-- Native code writes `output` from the position of `shuffled` on, and the limit of
`output` stays. -/
theorem unshuffle_returned {r : Result} (h : unshuffle library shuffled type output = .returned r) :
    r.writtenFrom = shuffled.position ∧ r.output.limit = output.limit := by
  simp only [unshuffle] at h
  split at h
  · cases h
  split at h
  · cases h
  split at h
  · cases h
  split at h
  · cases h
  split at h
  · cases h
  · split at h
    · cases h
    · cases h
      exact ⟨rfl, rfl⟩

/-- The two calls undo each other and touch nothing else just in case the positions
of `shuffled` and `output` agree, if there is anything to convert, and the limit of
`output` is already where the content is going to end. -/
theorem roundTrips_iff (hlib : library.Lawful) (hin : input.isDirect = true)
    (hsh : shuffled.isDirect = true) (hout : output.isDirect = true)
    (hdvd : type.getTypeSize ∣ input.remaining) (hroom : input.remaining ≤ shuffled.remaining)
    (hroom' : input.remaining ≤ output.remaining) :
    RoundTrips library type input shuffled output ↔
      (input.remaining ≠ 0 → shuffled.position = output.position) ∧
        output.limit = output.position + input.remaining := by
  obtain ⟨r, hr, hconv, hdirect⟩ := @shuffle_converts library _ _ _ hin hsh hdvd hroom
  have hremaining : r.output.remaining = input.remaining := by
    unfold ByteBuffer.remaining
    rw [hconv.limit_eq, hconv.position_eq]
    unfold ByteBuffer.remaining
    omega
  constructor
  · rintro ⟨r₁, hr₁, -, r', hr', hconv'⟩
    obtain rfl := Outcome.returned.inj (hr.symm.trans hr₁)
    obtain ⟨hfrom, hlimit⟩ := unshuffle_returned hr'
    refine ⟨fun h0 => ?_, ?_⟩
    · rw [← hconv.position_eq, ← hfrom]
      exact hconv'.writtenFrom_eq (by rw [hconv'.written_eq, hremaining]; exact h0)
    · rw [← hlimit, hconv'.limit_eq, hremaining]
  · rintro ⟨hposition, hlimit⟩
    obtain ⟨r', hr', hconv'⟩ := @unshuffle_converts library type r.output output hdirect hout
      (by rwa [hremaining]) (by rwa [hremaining])
      (fun h0 => by rw [hconv.position_eq]; exact hposition (by rwa [← hremaining]))
      (by rwa [hremaining])
    -- what has been shuffled is what was there
    have hlen : (library.bitshuffle type.getTypeSize input.content).length = input.remaining := by
      rw [library.length_bitshuffle, ByteBuffer.length_content]
    have hcontent : r.output.content = library.bitshuffle type.getTypeSize input.content := by
      rw [ByteBuffer.content, hremaining, hconv.array_eq, hconv.position_eq, ← hlen]
      exact slice_splice (Nat.le_trans shuffled.position_le shuffled.limit_le)
    have hback : library.bitunshuffle type.getTypeSize r.output.content = input.content := by
      rw [hcontent]
      exact hlib _ _ (by rwa [ByteBuffer.length_content])
    refine ⟨r, hr, hconv, r', hr', hconv'.numProcessed_eq, hconv'.input_eq, ?_, hconv'.position_eq,
      hconv'.limit_eq, hconv'.written_eq, hconv'.writtenFrom_eq⟩
    rw [hconv'.array_eq, hback]

end

/-- Two `short`s, and a buffer with room for two more. -/
def twoShorts : NioBuffer := { ByteBuffer.wrap [1, 2, 3, 4] with isDirect := true }

def fourShorts : NioBuffer := { ByteBuffer.wrap (newArray 8) with isDirect := true }

/-- The same buffer, to be filled from its second half on. -/
def secondHalf : NioBuffer :=
  { array := newArray 8, position := 4, limit := 8, position_le := by decide,
    limit_le := by decide, isDirect := true }

theorem identityLibrary_lawful : identityLibrary.Lawful := fun _ _ _ => rfl

theorem roundTrips_iff_secondHalf :
    RoundTrips identityLibrary .short twoShorts fourShorts secondHalf ↔
      (twoShorts.remaining ≠ 0 → fourShorts.position = secondHalf.position) ∧
        secondHalf.limit = secondHalf.position + twoShorts.remaining :=
  roundTrips_iff identityLibrary_lawful rfl rfl rfl (by decide) (by decide) (by decide)

/-- What was to go to the second half has gone to the first. -/
theorem secondHalf_missed :
    (∃ r r', shuffle identityLibrary twoShorts .short fourShorts = .returned r ∧
      unshuffle identityLibrary r.output .short secondHalf = .returned r' ∧
      r'.output.array = [1, 2, 3, 4, 0, 0, 0, 0]) ∧
    ¬ RoundTrips identityLibrary .short twoShorts fourShorts secondHalf := by
  have hrun : ∃ r r', shuffle identityLibrary twoShorts .short fourShorts = .returned r ∧
      unshuffle identityLibrary r.output .short secondHalf = .returned r' ∧
      r'.output.array = [1, 2, 3, 4, 0, 0, 0, 0] := by
    refine ⟨_, _, rfl, rfl, ?_⟩
    rfl
  refine ⟨hrun, ?_⟩
  obtain ⟨r, r', hr, hr', harray⟩ := hrun
  rintro ⟨r₁, hr₁, -, r₁', hr₁', hconv⟩
  obtain rfl := Outcome.returned.inj (hr.symm.trans hr₁)
  obtain rfl := Outcome.returned.inj (hr'.symm.trans hr₁')
  have := hconv.array_eq
  rw [harray] at this
  exact absurd this (by decide)

end BitShuffle

end SnappyJava
