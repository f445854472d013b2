import SnappyJava.FramePools

/-! What `SnappyFramedInputStream` accepts, with the pools of the library: the
stream identifier and then good frames. -/

namespace SnappyJava.SnappyFramedInputStream

open Exec Memory Words

section
variable {platform : Platform} {frames : List Frame}

/-- The parser accepts exactly its grammar. The frames up to the first that is
not good are decoded and transferred; there the transfer ends with an
`IOException`, and if all are good it returns the length of what it has
transferred. A stream that does not begin with the identifier is not opened. -/
theorem drain_grammar (hpool : platform.bufferPool.BuiltIn) (hfits : ∀ f ∈ frames, f.Fits)
    (hshort : ∀ f ∈ frames, f.flag = SnappyFramed.compressedDataFlag → ∀ n,
      platform.codec.getUncompressedLength f.payload = some n → n < 2 ^ 31) :
    (∀ rbc : Source, rbc.Positive →
      rbc.data = SnappyFramed.headerBytes ++ frames.flatMap Frame.encode →
      ((∀ f ∈ frames, f.Good platform) ∧
        drain platform rbc true =
          (.ok (contents platform.codec frames).length, contents platform.codec frames)) ∨
      ∃ good bad more message, frames = good ++ bad :: more ∧ (∀ f ∈ good, f.Good platform) ∧
        ¬ bad.Good platform ∧
        drain platform rbc true =
          (.error (.ioException message), contents platform.codec good)) ∧
    ∀ rbc : Source, rbc.Positive → rbc.data.take 10 ≠ SnappyFramed.headerBytes →
      new platform rbc true = .error (if rbc.data.length < 10 then
        .eofException "encountered EOF while reading stream header"
        else .ioException "invalid stream header") := by
  refine ⟨fun rbc hp hdata => ?_, fun rbc hp hne => new_error hpool.reliable hp hne⟩
  have hlen : ∀ f ∈ frames, (f.data platform.codec).length < 2 ^ 31 :=
    fun f hf => length_data_lt (hfits f hf) fun hflag _ hok =>
      hshort f hf hflag _ (platform.codec.length_rawUncompress _ _ hok)
  have hroomy := @Capacities.roomy_of_builtIn platform frames hpool fun f hf =>
    ⟨hfits f hf, hlen f hf⟩
  rcases all_or_first (Frame.Good platform) frames with hgood | ⟨good, bad, more, rfl, hgood, hbad⟩
  · exact .inl ⟨hgood, drain_of_roomy hpool.reliable hp hdata
      (fun f hf => ⟨hfits f hf, hgood f hf, hlen f hf⟩) hroomy⟩
  · obtain ⟨hpre, hfit, -⟩ := Capacities.roomy_append.mp hroomy
    obtain ⟨e, he, ⟨-, hover⟩ | ⟨⟨m, rfl⟩, -⟩⟩ := @drain_stop platform true good rbc hpool.reliable
      hp bad more hdata
      (fun f hf => ⟨hfits f (by simp [hf]), hgood f hf, hlen f (by simp [hf])⟩) hpre
      (hfits bad (by simp)) (hshort bad (by simp)) (.inl ⟨hbad, rfl⟩)
    · omega
    · exact .inr ⟨good, bad, more, m, rfl, hgood, hbad, he⟩

theorem drain_grammar_samples :
    (∀ rbc : Source, rbc.Positive →
      rbc.data = SnappyFramed.headerBytes ++ Frame.samples.flatMap Frame.encode →
      ((∀ f ∈ Frame.samples, f.Good literalPlatform) ∧
        drain literalPlatform rbc true =
          (.ok (contents literalCodec Frame.samples).length, contents literalCodec Frame.samples)) ∨
      ∃ good bad more message, Frame.samples = good ++ bad :: more ∧
        (∀ f ∈ good, f.Good literalPlatform) ∧ ¬ bad.Good literalPlatform ∧
        drain literalPlatform rbc true =
          (.error (.ioException message), contents literalCodec good)) ∧
    ∀ rbc : Source, rbc.Positive → rbc.data.take 10 ≠ SnappyFramed.headerBytes →
      new literalPlatform rbc true = .error (if rbc.data.length < 10 then
        .eofException "encountered EOF while reading stream header"
        else .ioException "invalid stream header") := by
  refine @drain_grammar literalPlatform Frame.samples QuiescentBufferPool.builtIn
    (fun _ hf => (Frame.samples_spec hf).1) fun f hf hflag n hn => ?_
  obtain ⟨hfits, hgood, hshort⟩ := Frame.samples_spec hf
  exact Accepted.declared_lt ⟨hfits, hgood, hshort⟩ hflag hn

end

end SnappyJava.SnappyFramedInputStream
