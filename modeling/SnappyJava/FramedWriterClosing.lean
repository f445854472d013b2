import SnappyJava.BlockWriterClosing
import SnappyJava.FramedWriterSources

/-! What `close()` of a `SnappyFramedOutputStream` does over a channel that may
fail at any call. As in `SnappyOutputStream` the flush comes before the close of
the channel, and in one block with it. -/

namespace SnappyJava.SnappyFramedOutputStream

open Exec Memory

/-- What the calls throw once the stream is closed, an `IOException` in each
case. -/
def refusal : WriteCall → Throwable
  | .writeByte _ | .write _ _ _ | .flush => streamIsClosed
  | .writeBuffer _ | .transferFromStream _ | .transferFromChannel _ => .closedChannelException

/-- Of the job of `close()` all but the close of the channel: the three buffers
have gone back to the pool once, every write and flush is refused and changes
nothing, and neither does a further `close()`. -/
structure Settled (w : FrameWriter) (t : SnappyFramedOutputStream) : Prop where
  closed : t.closed = true
  released_eq : t.released = [0, 1, 2]
  refuses : ∀ c, (perform w c).run t = .error (refusal c) t
  closesAgain : (close w).run t = .ok () t

/-- The whole job, the channel having been closed `n` times before. -/
structure Finished (w : FrameWriter) (n : Nat) (t : SnappyFramedOutputStream) : Prop
    extends Settled w t where
  asked : t.out.closeCalls = n + 1

/-- The final flush has data, and the channel throws at one of its two writes. -/
def FlushThrows (s : SnappyFramedOutputStream) : Prop :=
  0 < s.buffer.position ∧ s.out.FlushFails 0

instance (s : SnappyFramedOutputStream) : Decidable (FlushThrows s) :=
  inferInstanceAs (Decidable (_ ∧ _))

section
variable {w : FrameWriter} {b n : Nat} {s : SnappyFramedOutputStream}

theorem perform_closed (h : s.closed = true) (c : WriteCall) :
    (perform w c).run s = .error (refusal c) s := by
  have hrun : wp (perform w c) (fun _ _ => False) (fun e t => e = refusal c ∧ t = s) s := by
    cases c <;> simp [perform, refusal, writeByte, write, writeBuffer, transferFromStream,
      transferFromChannel, transferFromBy, withCaller, flush, wp_bind, wp_withLocal, h]
  cases hr : (perform w c).run s with
  | ok r t => exact (wp_ok hrun hr).elim
  | error e t =>
    obtain ⟨rfl, rfl⟩ := wp_error hrun hr
    rfl

theorem close_closed (h : s.closed = true) : (close w).run s = .ok () s := by
  simp [close, EStateM.run_bind, h]

/-- What the `finally` block does. -/
def givenBack (s : SnappyFramedOutputStream) : SnappyFramedOutputStream :=
  { s with closed := true, released := s.released ++ [0, 1, 2] }

theorem Unclosed.settled (h : Unclosed b n s) (o : WritableByteChannel) :
    Settled w { givenBack s with out := o } :=
  ⟨rfl, by rw [givenBack, h.released_eq]; rfl, perform_closed rfl, close_closed rfl⟩

/-- A flush returns exactly if it has no data or the channel takes its frame. -/
theorem wp_flush_throws (hc : w.codec.Bounded) (h : Unclosed b n s)
    {Q : Unit → SnappyFramedOutputStream → Prop} {E : Throwable → SnappyFramedOutputStream → Prop}
    (hQ : ∀ t, Unclosed b n t → ¬ FlushThrows s → Q () t)
    (hE : ∀ t, Unclosed b n t → FlushThrows s → E .underlyingException t) :
    wp (flush w) Q E s := by
  have hiff := s.out.flushFails_zero (w.header (pending s))
  simp only [flush, wp_bind, wp_get, wp_ite, h.notClosed, Bool.false_eq_true, if_false]
  by_cases hpos : 0 < s.buffer.position
  · apply wp_flushBuffer_unclosed hc h hpos
    · intro t ht _ hf hf'
      refine hQ t ht fun hthrows => ?_
      rcases hiff.mp hthrows.2 with hf₁ | hf₁
      · exact absurd (hf.symm.trans hf₁) (by decide)
      · exact absurd (hf'.symm.trans hf₁) (by decide)
    · exact fun t ht hf => hE t ht ⟨hpos, hiff.mpr hf⟩
  · simp only [flushBuffer, wp_bind, wp_get, wp_when, if_neg hpos]
    exact hQ s h fun hthrows => hpos hthrows.1

/-- Whatever fails, everything but the close of the channel is done, and that
exactly if the flush does not throw. -/
theorem wp_close_finished (hc : w.codec.Bounded) (h : Unclosed b n s) :
    wp (close w)
      (fun _ t => Settled w t ∧ (Finished w n t ↔ ¬ FlushThrows s))
      (fun _ t => Settled w t ∧ (Finished w n t ↔ ¬ FlushThrows s)) s := by
  simp only [close, wp_bind, wp_get, wp_ite, h.notClosed, Bool.false_eq_true, if_false, wp_ensuring,
    wp_modify]
  apply wp_flush_throws hc h
  · intro t ht hok
    have hdone : Settled w { givenBack t with
          out := { t.out with closeCalls := t.out.closeCalls + 1 } } ∧
        (Finished w n { givenBack t with
          out := { t.out with closeCalls := t.out.closeCalls + 1 } } ↔ ¬ FlushThrows s) :=
      ⟨ht.settled _, fun _ => hok, fun _ => ⟨ht.settled _, congrArg (· + 1) ht.closeCalls_eq⟩⟩
    simp only [WritableByteChannel.close, wp_zoom, wp_bind, wp_modify, wp_get, wp_ite, wp_throw,
      wp_pure]
    split
    · exact hdone
    · exact hdone
  · intro t ht hf
    refine ⟨ht.settled t.out, fun hdone => ?_, fun hok => absurd hf hok⟩
    have hasked : t.out.closeCalls = n + 1 := hdone.asked
    rw [ht.closeCalls_eq] at hasked
    omega

end

/-- Some calls, whatever they threw, lead from the constructor to `t`. -/
def Reached (w : FrameWriter) (out : WritableByteChannel) (t : SnappyFramedOutputStream) : Prop :=
  ∃ (blockSize : Int) (s : SnappyFramedOutputStream) (calls : List WriteCall)
    (rs : List (Except Throwable WriteResult)), new w out blockSize = .ok s ∧
      (runOn Throwable.Fatal (perform w) calls).run s = .ok rs t

theorem Reached.unclosed {w : FrameWriter} (hc : w.codec.Bounded) (hpool : w.bufferPool.Contract)
    {out : WritableByteChannel} {t : SnappyFramedOutputStream} (h : Reached w out t) :
    ∃ b, Unclosed b out.closeCalls t := by
  obtain ⟨blockSize, s, calls, rs, hnew, hrun⟩ := h
  have hreached := wp_ok (unclosed_of_run hc hpool hnew calls) hrun
  exact ⟨_, hreached⟩

end SnappyJava.SnappyFramedOutputStream

namespace SnappyJava

open Exec Memory

/-- In every state that writes and flushes lead to: `close()` finishes its job
exactly if the flush it begins with does not throw. Whether it does or not, only
the close of what is underneath can be left out. -/
theorem close_finishes_iff {codec : Codec} (hc : codec.Bounded) {allocate : Nat → Bytes}
    (ha : SnappyOutputStream.ExactAllocator allocate) {w : FrameWriter} (hw : w.codec.Bounded)
    (hpool : w.bufferPool.Contract) :
    (∀ cls out s, SnappyOutputStream.Reached codec cls allocate out s →
      wp (SnappyOutputStream.close codec cls)
        (fun _ t => SnappyOutputStream.Settled codec cls t ∧
          (SnappyOutputStream.Finished codec cls out.closeCalls t ↔
            ¬ s.out.Fails (SnappyOutputStream.sinkCalls cls s)))
        (fun e t => e = .memoryFault .rawCompress ∧ cls = .snappyHadoopCompatibleOutputStream ∨
          SnappyOutputStream.Settled codec cls t ∧
            (SnappyOutputStream.Finished codec cls out.closeCalls t ↔
              ¬ s.out.Fails (SnappyOutputStream.sinkCalls cls s))) s) ∧
    ∀ out s, SnappyFramedOutputStream.Reached w out s →
      wp (SnappyFramedOutputStream.close w)
        (fun _ t => SnappyFramedOutputStream.Settled w t ∧
          (SnappyFramedOutputStream.Finished w out.closeCalls t ↔
            ¬ SnappyFramedOutputStream.FlushThrows s))
        (fun _ t => SnappyFramedOutputStream.Settled w t ∧
          (SnappyFramedOutputStream.Finished w out.closeCalls t ↔
            ¬ SnappyFramedOutputStream.FlushThrows s)) s := by
  refine ⟨fun cls out s h => ?_, fun out s h => ?_⟩
  · exact SnappyOutputStream.wp_close_finished hc (h.unclosed hc ha)
  · obtain ⟨b, hs⟩ := h.unclosed hw hpool
    exact SnappyFramedOutputStream.wp_close_finished hw hs

/-- A sink that throws at its next call. -/
def failingSink : OutputStream := ⟨[], [true], 0⟩

/-- After `write(7)`, with a block size of 4. Irreducible, for unification must
not evaluate what `close()` does with it. -/
@[irreducible] def onePending : SnappyOutputStream :=
  { out := failingSink, blockSize := 1024
    inputBuffer := [7, 0, 0, 0], outputBuffer := newArray 56
    inputCursor := 1, outputCursor := 0, headerWritten := false, closed := false
    copied := [7], inputReleases := 0, outputReleases := 0, compressCalls := [] }

theorem reached_onePending :
    SnappyOutputStream.Reached literalCodec .snappyOutputStream newArray failingSink onePending := by
  unfold onePending
  exact ⟨4, _, [.writeByte 7], [.ok ()], rfl, rfl⟩

theorem reached_twoPending :
    SnappyFramedOutputStream.Reached SnappyFramedOutputStream.literalWriter
      SnappyFramedOutputStream.failingChannel SnappyFramedOutputStream.twoPending :=
  ⟨4, _, [.write [1, 2] 0 2], [.ok .done], rfl, rfl⟩

theorem close_finishes_iff_pending :
    wp (SnappyOutputStream.close literalCodec .snappyOutputStream)
      (fun _ t => SnappyOutputStream.Settled literalCodec .snappyOutputStream t ∧
        (SnappyOutputStream.Finished literalCodec .snappyOutputStream failingSink.closeCalls t ↔
          ¬ onePending.out.Fails (SnappyOutputStream.sinkCalls .snappyOutputStream onePending)))
      (fun e t => e = .memoryFault .rawCompress ∧
          StreamClass.snappyOutputStream = .snappyHadoopCompatibleOutputStream ∨
        SnappyOutputStream.Settled literalCodec .snappyOutputStream t ∧
          (SnappyOutputStream.Finished literalCodec .snappyOutputStream failingSink.closeCalls t ↔
            ¬ onePending.out.Fails (SnappyOutputStream.sinkCalls .snappyOutputStream onePending)))
      onePending :=
  (@close_finishes_iff literalCodec LiteralCodec.lawful.toBounded _
    SnappyOutputStream.exactAllocator_newArray SnappyFramedOutputStream.literalWriter
    LiteralCodec.lawful.toBounded QuiescentBufferPool.builtIn.reliable.toContract).1 .snappyOutputStream
    failingSink onePending reached_onePending

/-- A failing flush in `close()`: the sink and the channel are never closed. -/
theorem failed_flush_not_finished :
    SnappyOutputStream.Reached literalCodec .snappyOutputStream newArray failingSink onePending ∧
    wp (SnappyOutputStream.close literalCodec .snappyOutputStream) (fun _ _ => False)
      (fun e t => e = .underlyingException ∧
        ¬ SnappyOutputStream.Finished literalCodec .snappyOutputStream 0 t) onePending ∧
    SnappyFramedOutputStream.Reached SnappyFramedOutputStream.literalWriter
      SnappyFramedOutputStream.failingChannel SnappyFramedOutputStream.twoPending ∧
    wp (SnappyFramedOutputStream.close SnappyFramedOutputStream.literalWriter) (fun _ _ => False)
      (fun e t => e = .underlyingException ∧
        ¬ SnappyFramedOutputStream.Finished SnappyFramedOutputStream.literalWriter 0 t)
      SnappyFramedOutputStream.twoPending := by
  have hblock : wp (SnappyOutputStream.close literalCodec .snappyOutputStream) (fun _ _ => False)
      (fun e t => e = .underlyingException ∧ t.out.closeCalls = 0) onePending := by
    decide +kernel
  have hframed : wp (SnappyFramedOutputStream.close SnappyFramedOutputStream.literalWriter)
      (fun _ _ => False) (fun e t => e = .underlyingException ∧ t.out.closeCalls = 0)
      SnappyFramedOutputStream.twoPending := by
    decide +kernel
  refine ⟨reached_onePending, ?_, reached_twoPending, ?_⟩
  · refine wp_mono hblock (fun _ _ hfalse => hfalse) ?_
    rintro e t ⟨he, hcalls⟩
    exact ⟨he, fun hdone => absurd (hcalls.symm.trans hdone.asked) (by decide)⟩
  · refine wp_mono hframed (fun _ _ hfalse => hfalse) ?_
    rintro e t ⟨he, hcalls⟩
    exact ⟨he, fun hdone => absurd (hcalls.symm.trans hdone.asked) (by decide)⟩

end SnappyJava
