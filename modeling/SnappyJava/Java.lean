import SnappyJava.Lib.Exec
import SnappyJava.Lib.Memory
import SnappyJava.Lib.Words

/-! What the sources take from Java: bytes, exceptions, and the streams and
channels underneath. A stream or channel carries a schedule of its own
behaviour, so that a statement for every schedule is a statement for every
fragmentation and every pattern of failures. -/

namespace SnappyJava

open Exec Memory

abbrev Bytes := List UInt8

/-- `(byte) b` of a Java `int`. -/
def toByte (b : Int) : UInt8 := UInt8.ofBitVec (BitVec.ofInt 8 b)

@[simp] theorem toByte_toNat (x : UInt8) : toByte x.toNat = x := by
  unfold toByte
  rw [BitVec.ofInt_natCast]
  exact UInt8.ofNat_toNat

/-- `new byte[n]`. -/
def newArray (n : Nat) : Bytes := List.replicate n 0

@[simp] theorem length_newArray (n : Nat) : (newArray n).length = n := by simp [newArray]

/-! ## Exceptions -/

inductive SnappyErrorCode
  | unknown | failedToLoadNativeLibrary | parsingError | notADirectBuffer | outOfMemory
  | failedToUncompress | emptyInput | incompatibleVersion | invalidChunkSize
  | unsupportedPlatform | tooLargeInput
  deriving DecidableEq, Repr

namespace SnappyErrorCode

def id : SnappyErrorCode → Nat
  | unknown => 0 | failedToLoadNativeLibrary => 1 | parsingError => 2 | notADirectBuffer => 3
  | outOfMemory => 4 | failedToUncompress => 5 | emptyInput => 6 | incompatibleVersion => 7
  | invalidChunkSize => 8 | unsupportedPlatform => 9 | tooLargeInput => 10

def name : SnappyErrorCode → String
  | unknown => "UNKNOWN"
  | failedToLoadNativeLibrary => "FAILED_TO_LOAD_NATIVE_LIBRARY"
  | parsingError => "PARSING_ERROR"
  | notADirectBuffer => "NOT_A_DIRECT_BUFFER"
  | outOfMemory => "OUT_OF_MEMORY"
  | failedToUncompress => "FAILED_TO_UNCOMPRESS"
  | emptyInput => "EMPTY_INPUT"
  | incompatibleVersion => "INCOMPATIBLE_VERSION"
  | invalidChunkSize => "INVALID_CHUNK_SIZE"
  | unsupportedPlatform => "UNSUPPORTED_PLATFORM"
  | tooLargeInput => "TOO_LARGE_INPUT"

def values : List SnappyErrorCode :=
  [unknown, failedToLoadNativeLibrary, parsingError, notADirectBuffer, outOfMemory,
    failedToUncompress, emptyInput, incompatibleVersion, invalidChunkSize,
    unsupportedPlatform, tooLargeInput]

def getErrorCode (id : Nat) : SnappyErrorCode :=
  (values.find? fun code => code.id = id).getD unknown

def getErrorMessage (id : Nat) : String := (getErrorCode id).name

/-- The native code reports an error by its id, and no id is lost. -/
theorem getErrorCode_id (code : SnappyErrorCode) : getErrorCode code.id = code := by
  cases code <;> rfl

end SnappyErrorCode

/-- The native accesses that no bounds check guards: what the compressor and
the decompressor write, and the two sides of `arrayCopy`. -/
inductive NativeCall
  | rawCompress | rawUncompress | arrayCopyRead | arrayCopyWrite
  deriving DecidableEq, Repr

inductive Throwable
  | ioException (message : String)
  | eofException (message : String)
  | closedChannelException
  | snappyIOException (errorCode : SnappyErrorCode) (message : String)
  | snappyError (errorCode : SnappyErrorCode) (message : String)
  | illegalArgumentException (message : String)
  | indexOutOfBoundsException
  | negativeArraySizeException
  | nullPointerException
  | bufferOverflowException
  | bufferUnderflowException
  | outOfMemoryError
  /-- An exception thrown by the stream or channel underneath. -/
  | underlyingException
  /-- Not a Java exception: native code left the memory it was given, and
  nothing is promised about the process from there on. -/
  | memoryFault (call : NativeCall)
  /-- Not a Java exception: a loop of the model used up its bound. -/
  | outOfFuel
  deriving DecidableEq, Repr

/-- The two outcomes that no Java program can catch and go on from. -/
def Throwable.Fatal : Throwable → Prop
  | memoryFault _ => True
  | outOfFuel => True
  | _ => False

instance : DecidablePred Throwable.Fatal := fun e => by
  unfold Throwable.Fatal
  split <;> infer_instance

/-- The exception without its message. -/
def Throwable.kind : Throwable → Throwable
  | ioException _ => ioException ""
  | eofException _ => eofException ""
  | snappyIOException errorCode _ => snappyIOException errorCode ""
  | snappyError errorCode _ => snappyError errorCode ""
  | illegalArgumentException _ => illegalArgumentException ""
  | e => e

/-- The exception `SnappyNative.throw_error` throws. -/
def throw_error (errorCode : SnappyErrorCode) : Throwable :=
  .ioException (SnappyErrorCode.getErrorMessage errorCode.id ++ "(" ++ toString errorCode.id ++ ")")

private def groupDigits : List Char → List Char
  | a :: b :: c :: d :: rest => a :: b :: c :: ',' :: groupDigits (d :: rest)
  | ds => ds

/-- The format `%,d`: decimal digits in groups of three. -/
def formatGrouped (n : Int) : String :=
  (if n < 0 then "-" else "") ++
    String.ofList (groupDigits (Nat.toDigits 10 n.natAbs).reverse).reverse

example : formatGrouped 536870912 = "536,870,912" := by decide

/-! ## Reading from below -/

/-- An `InputStream` or `ReadableByteChannel`: the bytes it still has, and how
many it is going to hand out at its next reads. Beyond the schedule a read
fills the request. -/
structure Source where
  data : Bytes
  fragments : List Nat
  deriving DecidableEq, Repr

namespace Source

/-- Every scheduled read hands out something, as an `InputStream` must. -/
def Positive (s : Source) : Prop := ∀ k ∈ s.fragments, 0 < k

instance : DecidablePred Positive := fun s => inferInstanceAs (Decidable (∀ k ∈ s.fragments, 0 < k))

/-- A bound for the number of reads up to the end of the data. -/
def size (s : Source) : Nat := s.data.length + s.fragments.length

/-- One read into `room` free bytes: the bytes handed out, or `none` for -1. -/
def read (room : Nat) : EStateM Throwable Source (Option Bytes) := do
  let s ← get
  if room = 0 then
    pure (some [])
  else
    let n := (s.fragments.head?.getD room).min room
    if n = 0 then
      set { s with fragments := s.fragments.tail }
      pure (some [])
    else if s.data = [] then
      set { s with fragments := s.fragments.tail }
      pure none
    else
      set { data := s.data.drop n, fragments := s.fragments.tail : Source }
      pure (some (s.data.take n))

theorem positive_tail {s t : Source} (h : s.Positive) (ht : t.fragments = s.fragments.tail) :
    t.Positive := by
  intro k hk
  rw [ht] at hk
  exact h k (List.mem_of_mem_tail hk)

theorem Positive.head_ne_zero {s : Source} (h : s.Positive) : s.fragments.head? ≠ some 0 := by
  intro h0
  have := h 0 (List.mem_of_mem_head? h0)
  omega

/-- What one read can do: report the end, or hand out a first part of the
data, which is empty only where the schedule says so. -/
theorem wp_read {room : Nat} (hr : 0 < room) {Q : Option Bytes → Source → Prop}
    {E : Throwable → Source → Prop} {s : Source}
    (hend : ∀ t, s.data = [] → s.fragments.head? ≠ some 0 → t.data = [] →
      t.fragments = s.fragments.tail → Q none t)
    (hsome : ∀ n t, n ≤ room → n ≤ s.data.length → t.data = s.data.drop n →
      t.fragments = s.fragments.tail → (n = 0 → s.fragments.head? = some 0) → t.size < s.size →
      Q (some (s.data.take n)) t) :
    wp (read room) Q E s := by
  have hne : room ≠ 0 := by omega
  simp only [read, wp_bind, wp_get, wp_ite, wp_pure, wp_set, if_neg hne]
  have hroom : (s.fragments.head?.getD room).min room ≤ room := Nat.min_le_right _ _
  have hzero : (s.fragments.head?.getD room).min room = 0 ↔ s.fragments.head? = some 0 := by
    cases hf : s.fragments with
    | nil => simp; omega
    | cons k ks => simp; omega
  have hfrag : 0 < s.fragments.length ∨ (s.fragments.head?.getD room).min room = room := by
    cases hf : s.fragments with
    | nil => right; simp
    | cons k ks => left; simp
  generalize (s.fragments.head?.getD room).min room = n at hroom hzero hfrag
  by_cases hn : n = 0
  · subst hn
    rw [if_pos rfl]
    exact hsome 0 _ (by omega) (by omega) rfl rfl hzero.mp (by simp [size]; omega)
  · rw [if_neg hn]
    by_cases hd : s.data = []
    · rw [if_pos hd]
      exact hend _ hd (mt hzero.mpr hn) hd rfl
    · rw [if_neg hd]
      have hlen : 0 < s.data.length := List.length_pos_iff.mpr hd
      rcases Nat.le_total n s.data.length with hle | hle
      · exact hsome n _ hroom hle rfl rfl (fun h => absurd h hn) (by simp [size]; omega)
      · have ht : s.data.take n = s.data.take s.data.length := by
          rw [List.take_of_length_le hle, List.take_length]
        rw [ht]
        exact hsome s.data.length _ (by omega) (Nat.le_refl _)
          (by simp [List.drop_eq_nil_of_le hle]) rfl (fun h => by omega) (by simp [size]; omega)

end Source

/-! ## Writing to below -/

/-- An `OutputStream`: what it has received, and which of its next calls throw.
A call that throws has taken nothing. Beyond the schedule every call succeeds. -/
structure OutputStream where
  received : Bytes
  failures : List Bool
  closeCalls : Nat
  deriving DecidableEq, Repr

namespace OutputStream

/-- A stream that has received nothing and never fails. -/
def reliable : OutputStream := ⟨[], [], 0⟩

private def call : EStateM Throwable OutputStream Unit := do
  let o ← get
  set { o with failures := o.failures.tail }
  if o.failures.head?.getD false then throw .underlyingException else pure ()

def write (data : Bytes) : EStateM Throwable OutputStream Unit := do
  call
  modify fun o => { o with received := o.received ++ data }

def flush : EStateM Throwable OutputStream Unit := call

def close : EStateM Throwable OutputStream Unit := do
  modify fun o => { o with closeCalls := o.closeCalls + 1 }
  call

/-- One of the next `k` calls throws. -/
def Fails (k : Nat) (o : OutputStream) : Prop := true ∈ o.failures.take k

instance (k : Nat) (o : OutputStream) : Decidable (o.Fails k) :=
  inferInstanceAs (Decidable (true ∈ o.failures.take k))

theorem fails_one (o : OutputStream) : o.Fails 1 ↔ o.failures.head?.getD false = true := by
  unfold Fails
  cases o.failures with
  | nil => simp
  | cons x xs => simp [eq_comm]

/-- `k` calls later. -/
theorem fails_add {o o' : OutputStream} {k : Nat} (h : o'.failures = o.failures.drop k) (j : Nat) :
    o.Fails (k + j) ↔ o.Fails k ∨ o'.Fails j := by
  unfold Fails
  rw [h, List.take_add, List.mem_append]

theorem Fails.add {o : OutputStream} {k : Nat} (h : o.Fails k) (j : Nat) : o.Fails (k + j) := by
  unfold Fails at h ⊢
  rw [List.take_add]
  exact List.mem_append_left _ h

/-- What a call does is left to the failure that comes next. -/
private theorem wp_call_next {Q : Unit → OutputStream → Prop}
    {E : Throwable → OutputStream → Prop} {o : OutputStream}
    (hQ : ¬ o.Fails 1 → Q () { o with failures := o.failures.drop 1 })
    (hE : o.Fails 1 → E .underlyingException { o with failures := o.failures.drop 1 }) :
    wp call Q E o := by
  rw [fails_one] at hQ hE
  rw [List.drop_one] at hQ hE
  simp only [call, wp_bind, wp_get, wp_set, wp_ite, wp_throw, wp_pure]
  split
  · exact hE ‹_›
  · exact hQ ‹_›

/-- A write takes all it is offered, or throws having taken nothing. -/
theorem wp_write_next {data : Bytes} {Q : Unit → OutputStream → Prop}
    {E : Throwable → OutputStream → Prop} {o : OutputStream}
    (hQ : ¬ o.Fails 1 →
      Q () { o with received := o.received ++ data, failures := o.failures.drop 1 })
    (hE : o.Fails 1 → E .underlyingException { o with failures := o.failures.drop 1 }) :
    wp (write data) Q E o := by
  simp only [write, wp_bind, wp_modify]
  exact wp_call_next hQ hE

theorem wp_flush_next {Q : Unit → OutputStream → Prop} {E : Throwable → OutputStream → Prop}
    {o : OutputStream} (hQ : ¬ o.Fails 1 → Q () { o with failures := o.failures.drop 1 })
    (hE : o.Fails 1 → E .underlyingException { o with failures := o.failures.drop 1 }) :
    wp flush Q E o := wp_call_next hQ hE

theorem wp_close_next {Q : Unit → OutputStream → Prop} {E : Throwable → OutputStream → Prop}
    {o : OutputStream}
    (hQ : ¬ o.Fails 1 →
      Q () { o with closeCalls := o.closeCalls + 1, failures := o.failures.drop 1 })
    (hE : o.Fails 1 →
      E .underlyingException { o with closeCalls := o.closeCalls + 1, failures := o.failures.drop 1 }) :
    wp close Q E o := by
  simp only [close, wp_bind, wp_modify]
  exact wp_call_next hQ hE

theorem drop_one_eq_nil {o : OutputStream} (h : o.failures = []) : o.failures.drop 1 = [] := by
  rw [h]
  rfl

theorem failures_ne_nil {o : OutputStream} (h : o.Fails 1) : o.failures ≠ [] := by
  intro hnil
  rw [fails_one, hnil] at h
  exact absurd h (by decide)

theorem wp_write {data : Bytes} {Q : Unit → OutputStream → Prop}
    {E : Throwable → OutputStream → Prop} {o : OutputStream}
    (hQ : ∀ fs, (o.failures = [] → fs = []) →
      Q () { o with received := o.received ++ data, failures := fs })
    (hE : ∀ fs, o.failures ≠ [] → E .underlyingException { o with failures := fs }) :
    wp (write data) Q E o :=
  wp_write_next (fun _ => hQ _ drop_one_eq_nil) fun hf => hE _ (failures_ne_nil hf)

theorem wp_flush {Q : Unit → OutputStream → Prop} {E : Throwable → OutputStream → Prop}
    {o : OutputStream} (hQ : ∀ fs, (o.failures = [] → fs = []) → Q () { o with failures := fs })
    (hE : ∀ fs, o.failures ≠ [] → E .underlyingException { o with failures := fs }) :
    wp flush Q E o :=
  wp_flush_next (fun _ => hQ _ drop_one_eq_nil) fun hf => hE _ (failures_ne_nil hf)

theorem wp_close {Q : Unit → OutputStream → Prop} {E : Throwable → OutputStream → Prop}
    {o : OutputStream}
    (hQ : ∀ fs, (o.failures = [] → fs = []) →
      Q () { o with closeCalls := o.closeCalls + 1, failures := fs })
    (hE : ∀ fs, o.failures ≠ [] →
      E .underlyingException { o with closeCalls := o.closeCalls + 1, failures := fs }) :
    wp close Q E o :=
  wp_close_next (fun _ => hQ _ drop_one_eq_nil) fun hf => hE _ (failures_ne_nil hf)

end OutputStream

end SnappyJava
