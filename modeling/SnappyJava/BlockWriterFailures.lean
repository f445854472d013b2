import SnappyJava.BlockWriterSafety

/-! A `SnappyOutputStream` over a sink that fails now and then: a write of the
sink takes everything it is offered or throws and takes nothing. The caller
goes on after a failure, and some later flush returns. -/

namespace SnappyJava.SnappyOutputStream

open Exec Memory Blocks

/-- What the sink holds when nothing is pending: the header, once, and complete
blocks that decode to the bytes copied into the stream. -/
def Delivered (codec : Codec) (cls : StreamClass) (s : SnappyOutputStream) : Prop :=
  ∃ xs : List Bytes, s.out.received = headerBytes cls ++ xs.flatMap (encodeBlock codec cls) ∧
    xs.flatten = s.copied ∧ ∀ x ∈ xs, x ≠ [] ∧ codec.rawUncompress (codec.compress x) = .ok x

section
variable {codec : Codec} {cls : StreamClass} {b : Nat} {s : SnappyOutputStream}

/-- A run over a failing sink leaves the stream between two segments. -/
theorem wp_runOn_inProgress (hc : codec.Bounded) (hb0 : 0 < b) (hb : b ≤ maxBlockSize)
    (h : InProgress codec cls b s) (calls : List WriteCall) :
    wp (runOn Throwable.Fatal (perform codec cls) calls)
      (fun _ t => InProgress codec cls b t)
      (fun e _ => e = .memoryFault .arrayCopyRead ∨ e = .memoryFault .rawCompress) s := by
  refine wp_mono (@wp_runOn _ _ _ _ Throwable.Fatal _ (perform codec cls) (fun _ => True)
    (InProgress codec cls b) (fun _ => True)
    (fun e _ => e = .memoryFault .arrayCopyRead ∨ e = .memoryFault .rawCompress)
    ?_ calls (fun _ _ => trivial) s h) (fun _ _ h => h.2) (fun _ _ h => h)
  intro c t _ ht
  refine wp_mono (wp_perform_any hc hb0 hb ht c) (fun _ _ hu => ⟨trivial, hu⟩) ?_
  rintro e u ⟨-, ⟨rfl, hp⟩ | ⟨rfl, -, hp⟩ | rfl | rfl⟩
  · rw [if_neg (by simp [Throwable.Fatal])]
    exact ⟨trivial, hp⟩
  · rw [if_neg (by simp [Throwable.Fatal])]
    exact ⟨trivial, hp⟩
  · rw [if_pos (by simp [Throwable.Fatal])]
    exact .inl rfl
  · rw [if_pos (by simp [Throwable.Fatal])]
    exact .inr rfl

/-- A flush that returns has delivered everything. -/
theorem wp_flush_delivered (hc : codec.Lawful) (hb0 : 0 < b) (hb : b ≤ maxBlockSize)
    (h : InProgress codec cls b s) :
    wp (flush codec cls) (fun _ t => Delivered codec cls t)
      (fun e _ => e = .underlyingException ∨ e = .memoryFault .rawCompress) s := by
  have hM : maxBlockSize = 536870912 := rfl
  obtain ⟨done, current, hw⟩ := h
  apply wp_flush hc.toBounded hb0 hb hw
  · intro t ht hrec
    refine ⟨done ++ blocks b current, hrec, ?_, ?_⟩
    · rw [ht.copied_eq, List.append_nil]
    · intro x hx
      obtain ⟨hne, hle⟩ := ht.done_le x hx
      exact ⟨hne, hc.rawUncompress_compress x (by omega)⟩
  · intro t _ _
    exact .inl rfl
  · intro t _ _
    exact .inr rfl

end

/-- `runOn`, then `flush`. -/
def runOnFlush (codec : Codec) (cls : StreamClass) (calls : List WriteCall) : Method Unit := do
  let _ ← runOn Throwable.Fatal (perform codec cls) calls
  flush codec cls

/-- Whatever writes of the sink fail, a later flush that returns has delivered
the bytes copied into the stream, none lost, none twice, behind one header. A
run stops where native code leaves its memory. -/
theorem flush_delivers {codec : Codec} (hc : codec.Lawful) (cls : StreamClass)
    {allocate : Nat → Bytes} (ha : ExactAllocator allocate) {out : OutputStream}
    (hout : out.received = []) {blockSize : Int} (hmin : 1024 ≤ blockSize)
    (hmax : blockSize ≤ 512 * 1024 * 1024) (calls : List WriteCall) :
    ∃ s, new allocate out blockSize = .ok s ∧
      wp (runOnFlush codec cls calls) (fun _ t => Delivered codec cls t)
        (fun e _ => e = .underlyingException ∨ e = .memoryFault .arrayCopyRead ∨
          e = .memoryFault .rawCompress) s := by
  have hM : maxBlockSize = 536870912 := rfl
  obtain ⟨s, hs, hw⟩ := @new_writing _ ha out hout False False.elim _ hmin (by omega) codec cls
  refine ⟨s, hs, ?_⟩
  simp only [runOnFlush, wp_bind]
  refine wp_mono (wp_runOn_inProgress hc.toBounded (by omega) (by omega) ⟨_, _, hw⟩ calls) ?_
    (fun _ _ h => .inr h)
  intro _ t ht
  refine wp_mono (wp_flush_delivered hc (by omega) (by omega) ht) (fun _ _ h => h) ?_
  rintro e u (he | he)
  · exact .inl he
  · exact .inr (.inr he)

/-- A sink whose first two writes fail. -/
theorem flush_delivers_after_two_failures :
    ∃ s, new newArray { OutputStream.reliable with failures := [true, true] } 1024 = .ok s ∧
      wp (runOnFlush literalCodec .snappyOutputStream
          [.write [1, 2, 3] 0 3, .flush, .writeByte 4, .flush])
        (fun _ t => Delivered literalCodec .snappyOutputStream t)
        (fun e _ => e = .underlyingException ∨ e = .memoryFault .arrayCopyRead ∨
          e = .memoryFault .rawCompress) s :=
  flush_delivers LiteralCodec.lawful .snappyOutputStream exactAllocator_newArray rfl
    (by decide) (by decide) _

end SnappyJava.SnappyOutputStream
