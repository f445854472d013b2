import SnappyJava.Java

/-! The native Snappy library behind `Snappy.java`. The compressor and the
decompressor are not part of the sources, so they are a parameter: `Codec` is
what the Java code calls, together with what the format itself guarantees, and
`Codec.Lawful` is what a correct library guarantees on top of it. -/

namespace SnappyJava

open Memory Words

/-- The library functions the Java classes reach through `SnappyNative`. -/
structure Codec where
  /-- `snappy::RawCompress`. -/
  compress : Bytes → Bytes
  /-- `snappy::GetUncompressedLength`, `none` if the varint is malformed. -/
  getUncompressedLength : Bytes → Option Nat
  /-- `snappy::RawUncompress`: the data, or what had been written when the
  block turned out to be corrupt. -/
  rawUncompress : Bytes → Except Bytes Bytes
  /-- The declared length is a 32-bit number. -/
  getUncompressedLength_lt : ∀ x n, getUncompressedLength x = some n → n < 2 ^ 32
  /-- A block that decompresses yields as many bytes as it declares. -/
  length_rawUncompress : ∀ x d, rawUncompress x = .ok d → getUncompressedLength x = some d.length

namespace Codec

/-- Compression expands by no more than `MaxCompressedLength` says. -/
structure Bounded (c : Codec) : Prop where
  length_compress_le : ∀ x : Bytes, x.length < 2 ^ 31 →
    (c.compress x).length ≤ 32 + x.length + x.length / 6

/-- Compression is undone by decompression, and no block is empty. -/
structure Lawful (c : Codec) : Prop extends Bounded c where
  rawUncompress_compress : ∀ x : Bytes, x.length < 2 ^ 31 → c.rawUncompress (c.compress x) = .ok x
  compress_ne_nil : ∀ x : Bytes, x.length < 2 ^ 31 → c.compress x ≠ []

theorem Lawful.getUncompressedLength_compress {c : Codec} (h : c.Lawful) {x : Bytes}
    (hx : x.length < 2 ^ 31) : c.getUncompressedLength (c.compress x) = some x.length :=
  c.length_rawUncompress _ _ (h.rawUncompress_compress x hx)

end Codec

namespace Snappy

/-- The native bound `32 + n + n/6` on `(size_t) byteSize`, cast to `jint`. -/
def maxCompressedLength (byteSize : Int) : Int :=
  let n := byteSize % 2 ^ 64
  wrap32 (32 + n + n / 6)

theorem maxCompressedLength_natCast {n : Nat} (h : n ≤ 512 * 1024 * 1024) :
    maxCompressedLength n = ((32 + n + n / 6 : Nat) : Int) := by
  have hn : (n : Int) % 2 ^ 64 = n := Int.emod_eq_of_lt (by omega) (by omega)
  simp only [maxCompressedLength, hn]
  rw [wrap32_of_range (by omega) (by omega)]
  omega

/-- `Snappy.uncompressedLength`: the declared length, cast to `jint`. -/
def uncompressedLength (c : Codec) (src : Bytes) : Except Throwable Int :=
  match c.getUncompressedLength src with
  | none => .error (throw_error .parsingError)
  | some n => .ok (wrap32 n)

/-- `Snappy.uncompress` into the `dest` it is given, of which the native code
takes as many bytes as the block declares without asking for its size. -/
def uncompress (c : Codec) (src dest : Bytes) : Except Throwable Int × Bytes :=
  let declared := (c.getUncompressedLength src).getD 0
  if dest.length < declared then
    (.error (.memoryFault .rawUncompress), dest)
  else
    match c.rawUncompress src with
    | .ok data => (.ok (wrap32 declared), splice dest 0 data)
    | .error written =>
      (.error (throw_error .failedToUncompress), splice dest 0 (written.take dest.length))

/-- A block whose declared length fits a signed 32-bit integer is measured
exactly. -/
theorem uncompressedLength_of_lt {c : Codec} {src : Bytes} {n : Nat}
    (h : c.getUncompressedLength src = some n) (hn : n < 2 ^ 31) :
    uncompressedLength c src = .ok n := by
  simp only [uncompressedLength, h]
  rw [wrap32_of_range (by omega) (by omega)]

/-- The destination stays the array it is, whatever the block. -/
theorem length_uncompress (c : Codec) (src dest : Bytes) :
    (uncompress c src dest).2.length = dest.length := by
  unfold uncompress
  dsimp only
  split
  · rfl
  · rename_i hroom
    split
    · rename_i data h
      rw [c.length_rawUncompress src data h, Option.getD_some] at hroom
      exact length_splice (by omega)
    · exact length_splice (by simp)

/-- A good block in a destination that is large enough. -/
theorem uncompress_of_ok {c : Codec} {src dest data : Bytes}
    (h : c.rawUncompress src = .ok data) (hl : data.length ≤ dest.length)
    (hd : data.length < 2 ^ 31) :
    uncompress c src dest = (.ok data.length, splice dest 0 data) := by
  have hg := c.length_rawUncompress src data h
  simp only [uncompress, hg, h, Option.getD_some]
  rw [if_neg (by omega), wrap32_of_range (by omega) (by omega)]

/-- Where `uncompress` returns, the block is decoded at the front of the
destination, an array or direct buffer. -/
theorem uncompress_ok {c : Codec} {src dest : Bytes} {n : Int} (hdest : dest.length < 2 ^ 31)
    (h : (uncompress c src dest).1 = .ok n) :
    ∃ data, c.rawUncompress src = .ok data ∧ n = data.length ∧ data.length ≤ dest.length ∧
      (uncompress c src dest).2 = splice dest 0 data := by
  cases hdata : c.rawUncompress src with
  | error written =>
    simp only [uncompress, hdata] at h
    split at h <;> cases h
  | ok data =>
    have hlen := c.length_rawUncompress src data hdata
    have hroom : data.length ≤ dest.length := by
      simp only [uncompress, hlen, Option.getD_some] at h
      split at h
      · cases h
      · omega
    rw [uncompress_of_ok hdata hroom (by omega)] at h ⊢
    exact ⟨data, rfl, (Except.ok.inj h).symm, hroom, rfl⟩

/-- What `uncompress` returns depends on the size of the destination only. -/
theorem uncompress_congr {c : Codec} {src dest dest' : Bytes} (h : dest.length = dest'.length) :
    (uncompress c src dest).1 = (uncompress c src dest').1 := by
  unfold uncompress
  dsimp only
  rw [h]
  split
  · rfl
  · split <;> rfl

end Snappy

/-- How the bulk methods copy: `System.arraycopy` checks both ranges,
`Snappy.arrayCopy` is a `memcpy` that checks nothing. -/
inductive ArrayCopy
  | systemArraycopy | snappyArrayCopy
  deriving DecidableEq, Repr

namespace ArrayCopy

/-- What comes of a source range outside its array. -/
def sourceFault : ArrayCopy → Throwable
  | systemArraycopy => .indexOutOfBoundsException
  | snappyArrayCopy => .memoryFault .arrayCopyRead

/-- What comes of a destination range outside its array. -/
def destinationFault : ArrayCopy → Throwable
  | systemArraycopy => .indexOutOfBoundsException
  | snappyArrayCopy => .memoryFault .arrayCopyWrite

end ArrayCopy

/-- The element types of the typed `write` and `read` methods. -/
inductive ElementType
  | long | double | float | int | short
  deriving DecidableEq, Repr

def ElementType.size : ElementType → Int
  | long => 8 | double => 8 | float => 4 | int => 4 | short => 2

/-- The range lies inside the array and every byte of it has an `int` offset. -/
def RangeOk (a : Bytes) (off len : Int) : Prop :=
  0 ≤ off ∧ 0 ≤ len ∧ off + len ≤ a.length ∧ off + len ≤ 2 ^ 31

instance (a : Bytes) (off len : Int) : Decidable (RangeOk a off len) :=
  inferInstanceAs (Decidable (_ ∧ _))

/-- A call of the native compressor: `outputCursor` when `compressInput`
decided whether to drain the output buffer, and what was then passed down. -/
structure CompressCall where
  cursor : Nat
  inputLength : Nat
  outputOffset : Nat
  outputLength : Nat
  deriving DecidableEq, Repr

/-- A call of the native decompressor: the length the block declares and the
room at its destination. -/
structure UncompressCall where
  declared : Nat
  room : Nat
  deriving DecidableEq, Repr

namespace UncompressCall

/-- The native contract: room for all the block declares. -/
def Fits (c : UncompressCall) : Prop := c.declared ≤ c.room

/-- The Java code sees the length the block declares. -/
def Signed (c : UncompressCall) : Prop := c.declared < 2 ^ 31

instance : DecidablePred Fits := fun c => inferInstanceAs (Decidable (c.declared ≤ c.room))

end UncompressCall

/-- A destination sized by the signed length is large enough exactly where the
sign has not been lost. -/
theorem Snappy.uncompress_fits_iff {c : Codec} {src : Bytes} {n : Int} {room : Nat}
    (hn : uncompressedLength c src = .ok n) (hle : n ≤ room) (hroom : room < 2 ^ 31) :
    (UncompressCall.mk ((c.getUncompressedLength src).getD 0) room).Fits ↔
      (UncompressCall.mk ((c.getUncompressedLength src).getD 0) room).Signed := by
  unfold uncompressedLength at hn
  split at hn
  · cases hn
  · rename_i d hd
    simp only [Except.ok.injEq] at hn
    simp only [UncompressCall.Fits, UncompressCall.Signed, hd, Option.getD_some]
    constructor
    · intro h
      omega
    · intro h
      rw [wrap32_of_range (by omega) (by omega)] at hn
      omega

end SnappyJava
