import SnappyJava.FrameReads
import SnappyJava.FrameTruncation

/-! Whether what a `SnappyFramedInputStream` delivers before an error or the end
depends on the calls it is delivered by, on any bytes behind the identifier. -/

namespace SnappyJava.SnappyFramedInputStream

open Exec Memory Reading Words

/-! ## Any bytes as frames -/

/-- What a reader cannot get past: the end, a frame that is cut off, a frame that is
not good. -/
inductive Stuck (platform : Platform) : Bytes → Prop
  | ended : Stuck platform []
  | cut {f : Frame} {j : Nat} (hf : f.Fits) (hj : 0 < j) (hlt : j < f.encode.length) :
    Stuck platform (f.encode.take j)
  | refused {f : Frame} {more : Bytes} (hf : f.Fits) (hbad : ¬ f.Good platform) :
    Stuck platform (f.encode ++ more)

/-- The bytes in front are a frame, or a first part of one. -/
theorem exists_frame {data : Bytes} (hne : data ≠ []) :
    ∃ f : Frame, f.Fits ∧ ((∃ more, data = f.encode ++ more) ∨
      ∃ j, 0 < j ∧ j < f.encode.length ∧ data = f.encode.take j) := by
  obtain ⟨n, hn⟩ : ∃ n, 4 + 2 ^ 24 ≤ n := ⟨_, Nat.le_refl _⟩
  have hpos := List.length_pos_iff.mpr hne
  -- enough zeros behind the data make a frame of it
  obtain ⟨x, b0, b1, b2, tail, hp⟩ : ∃ x b0 b1 b2 tail,
      data ++ List.replicate n 0 = x :: b0 :: b1 :: b2 :: tail := by
    have hlen : 4 ≤ (data ++ List.replicate n (0 : UInt8)).length := by
      rw [List.length_append, List.length_replicate]
      omega
    match h : data ++ List.replicate n 0 with
    | x :: b0 :: b1 :: b2 :: tail => exact ⟨x, b0, b1, b2, tail, rfl⟩
    | [] | [_] | [_, _] | [_, _, _] =>
      rw [h] at hlen
      simp at hlen
  have hlt := ofLE24_lt b0 b1 b2
  have htail : (tail.take (ofLE24 b0 b1 b2)).length = ofLE24 b0 b1 b2 := by
    have := congrArg List.length hp
    simp only [List.length_append, List.length_replicate, List.length_cons] at this
    rw [List.length_take]
    omega
  set f : Frame := ⟨x, tail.take (ofLE24 b0 b1 b2)⟩ with hf
  have hencode : f.encode = (data ++ List.replicate n 0).take (4 + ofLE24 b0 b1 b2) := by
    rw [hp, Frame.encode, Frame.header, hf]
    simp only [htail, le24_ofLE24]
    rw [Nat.add_comm]
    rfl
  have hlen : f.encode.length = 4 + ofLE24 b0 b1 b2 := by
    rw [Frame.encode, List.length_append, Frame.length_header, hf, htail]
  refine ⟨f, by rw [Frame.Fits, hf, htail]; exact hlt, ?_⟩
  by_cases hcut : data.length < f.encode.length
  · refine .inr ⟨data.length, hpos, hcut, ?_⟩
    rw [hencode, List.take_take, Nat.min_eq_left (by omega), List.take_left]
  · refine .inl ⟨data.drop f.encode.length, ?_⟩
    have hfront : f.encode = data.take f.encode.length := by
      conv_lhs => rw [hencode]
      rw [hlen, List.take_append_of_le_length (by omega)]
    conv_lhs => rw [← List.take_append_drop f.encode.length data, ← hfront]

/-- Bytes begin with one frame only. -/
theorem encode_append_inj {f g : Frame} (hf : f.Fits) (hg : g.Fits) {a b : Bytes}
    (h : f.encode ++ a = g.encode ++ b) : f = g ∧ a = b := by
  have hsplit : f.header ++ (f.body ++ a) = g.header ++ (g.body ++ b) := by
    simpa only [Frame.encode, List.append_assoc] using h
  have hheader := List.append_inj hsplit rfl
  have hflag : f.flag = g.flag := (List.cons.inj hheader.1).1
  have hlength : f.body.length = g.body.length := by
    have hle : le24 f.body.length = le24 g.body.length := (List.cons.inj hheader.1).2
    simp only [le24, List.cons.injEq, and_true] at hle
    have hf' := ofLE24_le24 hf
    rw [hle.1, hle.2.1, hle.2.2, ofLE24_le24 hg] at hf'
    exact hf'.symm
  obtain ⟨hbody, hrest⟩ := List.append_inj hheader.2 hlength
  refine ⟨?_, hrest⟩
  cases f
  cases g
  simp only at hflag hbody
  rw [hflag, hbody]

/-- Any bytes are good frames and something that nobody gets past. -/
theorem exists_stuck (platform : Platform) (data : Bytes) :
    ∃ (frames : List Frame) (rest : Bytes), data = frames.flatMap Frame.encode ++ rest ∧
      (∀ f ∈ frames, f.Fits ∧ f.Good platform) ∧ Stuck platform rest := by
  induction hn : data.length using Nat.strong_induction_on generalizing data with
  | _ n ih =>
    by_cases hne : data = []
    · exact ⟨[], [], by simpa using hne, by simp, .ended⟩
    obtain ⟨f, hf, ⟨more, rfl⟩ | ⟨j, hj, hlt, rfl⟩⟩ := exists_frame hne
    · by_cases hgood : f.Good platform
      · have hless : more.length < n := by
          rw [← hn, Frame.encode, List.length_append, List.length_append, Frame.length_header]
          omega
        obtain ⟨frames, rest, rfl, hframes, hrest⟩ := ih _ hless more rfl
        refine ⟨f :: frames, rest, by rw [List.flatMap_cons, List.append_assoc], ?_, hrest⟩
        intro g hg
        rcases List.mem_cons.mp hg with rfl | hg
        · exact ⟨hf, hgood⟩
        · exact hframes g hg
      · exact ⟨[], _, rfl, by simp, .refused hf hgood⟩
    · exact ⟨[], _, rfl, by simp, .cut hf hj hlt⟩

/-! ## Calls that ask for a byte -/

/-- A call that has to return a byte, to report the end or to throw. -/
def Demanding : ReadCall → Prop
  | .readByte => True
  | .read output offset length =>
    (RangeOk output offset length ∧ output.length < 2 ^ 31) ∧ 0 < length
  | .readBuffer dst => 0 < dst.remaining
  | _ => False

theorem Demanding.reads {call : ReadCall} (h : Demanding call) : call.Reads := by
  cases call with
  | readByte | readBuffer => trivial
  | read => exact h.1
  | available | transferToStream | transferToChannel | close => exact h.elim

/-- -1, or an exception that a program can catch. -/
def NotFatal : Stop Throwable → Prop
  | .ended => True
  | .failed e => ¬ e.Fatal

/-- A compressed frame in front declares fewer than 2^31 bytes. -/
def DeclaredShort (codec : Codec) (data : Bytes) : Prop :=
  ∀ (f : Frame) (more : Bytes), f.Fits → data = f.encode ++ more →
    f.flag = SnappyFramed.compressedDataFlag →
    ∀ n, codec.getUncompressedLength f.payload = some n → n < 2 ^ 31

section
variable {platform : Platform} {c : Capacities} {rest data : Bytes} {s : SnappyFramedInputStream}

theorem perform_demands {call : ReadCall} (h : Demanding call) :
    wp (perform platform call) (fun a _ => a.demands = true) (fun _ _ => True) s := by
  cases call with
  | readByte =>
    simp only [perform, wp_bind, wp_pure]
    exact wp_mono (wp_true _ _) (fun _ _ _ => by split <;> rfl) (fun _ _ _ => trivial)
  | read output offset length =>
    simp only [perform, wp_bind, wp_pure]
    exact wp_mono (wp_true _ _) (fun _ _ _ => decide_eq_true h.2) (fun _ _ _ => trivial)
  | readBuffer dst =>
    simp only [perform, wp_bind, wp_pure]
    exact wp_mono (wp_true _ _) (fun _ _ _ => decide_eq_true h) (fun _ _ _ => trivial)
  | available | transferToStream | transferToChannel | close => exact h.elim

/-- What is behind the good frames is met with an exception or the end. -/
theorem Stuck.wp_ensureLoop (hpool : platform.bufferPool.Reliable) (hrest : Stuck platform rest)
    (hshort : DeclaredShort platform.codec rest) (h : Ahead platform c true [] rest s)
    (hdone : s.valid ≤ s.position) {m : Nat} (hm : s.rbc.size < m) :
    wp (loop .outOfFuel (ensureBufferRound platform) m ()) (fun ready _ => ready = false)
      (fun e _ => ¬ e.Fatal) s := by
  cases hrest with
  | ended => exact wp_ensureLoop_end h hdone (by omega) fun _ _ _ _ => rfl
  | cut hf hj hlt =>
    exact wp_ensureLoop_cut hpool hf hj hlt h hdone hm (fun _ _ _ => rfl) (fun _ _ _ => id)
      (fun _ _ _ => id)
  | refused hf hbad =>
    refine wp_ensureLoop_stop hpool hf h hdone (.inl ⟨hbad, rfl⟩) (by omega) (fun _ _ => id) ?_
      (fun _ _ _ => id)
    intro _ n hflag hn hlarge
    have := hshort _ _ hf rfl hflag n hn
    omega

/-- With nothing left in the good frames a call throws or reports the end. -/
theorem wp_perform_spent (hpool : platform.bufferPool.Reliable) (hrest : Stuck platform rest)
    (hshort : DeclaredShort platform.codec rest) (h : Holds platform true rest [] s)
    {call : ReadCall} (hd : Demanding call) :
    wp (perform platform call) (fun a _ => a.ended = true) (fun e _ => ¬ e.Fatal) s := by
  have hnothing : ∀ {Q : Bool → SnappyFramedInputStream → Prop}, (∀ t, Q false t) →
      wp (ensureBuffer platform) Q (fun e _ => ¬ e.Fatal) s := by
    intro Q hQ
    apply wp_ensureBuffer hpool h
    · intro t ht hlt
      have := ht.available_le
      rw [List.length_nil] at this
      omega
    · intro t m c _ ht hdone hm
      refine wp_mono (Stuck.wp_ensureLoop hpool hrest hshort ht (Nat.le_of_eq hdone) hm) ?_
        (fun _ _ h => h)
      rintro ready u rfl
      exact hQ u
  cases call with
  | readByte =>
    simp only [perform, readByte, wp_bind, wp_get, wp_ite, wp_pure, h.opened, Bool.false_eq_true,
      if_false]
    exact hnothing fun _ => rfl
  | read output offset length =>
    obtain ⟨⟨⟨hoff, hlen, hend, -⟩, hsize⟩, hpos⟩ := hd
    simp only [perform, read, wp_bind, wp_get, wp_ite, wp_throw, wp_pure, h.opened,
      Bool.false_eq_true, if_false]
    rw [wrap32_of_range (by omega) (by omega), if_neg (by omega), if_neg (by omega)]
    exact hnothing fun _ => rfl
  | readBuffer dst =>
    have hroom : dst.remaining ≠ 0 := Nat.pos_iff_ne_zero.mp hd
    simp only [perform, readBuffer, wp_bind, wp_get, wp_ite, wp_throw, wp_pure, h.opened,
      Bool.false_eq_true, if_false]
    rw [if_neg hroom]
    exact hnothing fun _ => rfl
  | available | transferToStream | transferToChannel | close => exact hd.elim

/-- A call hands out some of what the good frames hold, or there is nothing left. -/
theorem wp_perform_demanding (hpool : platform.bufferPool.Reliable) (hrest : Stuck platform rest)
    (hshort : DeclaredShort platform.codec rest) (h : Holds platform true rest data s)
    {call : ReadCall} (hd : Demanding call) :
    wp (perform platform call)
      (fun a t => if a.ended then data = [] ∧ NotFatal .ended
        else a.given ≠ [] ∧ a.given <+: data ∧ Holds platform true rest (data.drop a.given.length) t)
      (fun e _ => data = [] ∧ NotFatal (.failed e)) s := by
  by_cases hnil : data = []
  · subst hnil
    refine wp_mono (wp_perform_spent hpool hrest hshort h hd) (fun a t hended => ?_)
      (fun e _ he => ⟨rfl, he⟩)
    rw [if_pos hended]
    exact ⟨rfl, trivial⟩
  · refine wp_mono (wp_and (wp_perform hpool h (fun heq => absurd heq hnil) hd.reads)
      (perform_demands hd)) ?_ (fun _ _ h => h.1.elim)
    rintro a t ⟨⟨hserves, ht⟩, hdemands⟩
    rw [if_neg fun hended => hnil (hserves.ended_iff.mp hended).2]
    exact ⟨hserves.progress hdemands hnil, hserves.given_prefix, ht⟩

/-! ## Schedules -/

/-- A compressed frame declares fewer than 2^31 bytes, and does not decode to
nothing. -/
def OrdinaryBlocks (codec : Codec) (data : Bytes) : Prop :=
  ∀ (frames : List Frame) (rest : Bytes) (f : Frame),
    data = frames.flatMap Frame.encode ++ (f.encode ++ rest) → (∀ g ∈ frames, g.Fits) → f.Fits →
    f.flag = SnappyFramed.compressedDataFlag →
    (∀ n, codec.getUncompressedLength f.payload = some n → n < 2 ^ 31) ∧
      codec.rawUncompress f.payload ≠ .ok []

theorem OrdinaryBlocks.behind {codec : Codec} {frames : List Frame}
    (h : OrdinaryBlocks codec (frames.flatMap Frame.encode ++ rest))
    (hframes : ∀ f ∈ frames, f.Fits) : DeclaredShort codec rest := by
  intro f more hf hrest hflag
  exact (h frames more f (by rw [hrest]) hframes hf hflag).1

/-- Such good frames are accepted, and each data frame has something to deliver. -/
theorem OrdinaryBlocks.accepted {frames : List Frame}
    (h : OrdinaryBlocks platform.codec (frames.flatMap Frame.encode ++ rest))
    (hframes : ∀ f ∈ frames, f.Fits ∧ f.Good platform) {f : Frame} (hf : f ∈ frames) :
    Accepted platform f ∧ (IsData f → f.data platform.codec ≠ []) := by
  obtain ⟨hfits, hgood⟩ := hframes f hf
  obtain ⟨before, after, rfl⟩ := List.append_of_mem hf
  have hblock : ∀ x, f.flag = SnappyFramed.compressedDataFlag →
      platform.codec.rawUncompress f.payload = .ok x → x ≠ [] ∧ x.length < 2 ^ 31 := by
    intro x hflag hx
    obtain ⟨hlt, hne⟩ := h before (after.flatMap Frame.encode ++ rest) f
      (by rw [List.flatMap_append, List.flatMap_cons]; simp only [List.append_assoc])
      (fun g hg => (hframes g (by simp [hg])).1) hfits hflag
    refine ⟨?_, hlt _ (platform.codec.length_rawUncompress _ _ hx)⟩
    rintro rfl
    exact hne hx
  refine ⟨⟨hfits, hgood, length_data_lt hfits fun hflag x hx => (hblock x hflag hx).2⟩, ?_⟩
  rintro (hflag | hflag)
  · rw [Frame.Good, if_pos hflag] at hgood
    obtain ⟨-, ⟨x, hx⟩, -⟩ := hgood
    simp only [Frame.data, if_pos hflag, hx]
    exact (hblock x hflag hx).1
  · have hne : ¬ f.flag = SnappyFramed.compressedDataFlag := by
      rw [hflag]
      decide
    rw [Frame.Good, if_neg hne, if_pos hflag] at hgood
    rw [Frame.data, if_neg hne, if_pos hflag, Frame.payload, ← List.length_pos_iff, List.length_drop]
    omega

/-- On any bytes behind the identifier every schedule of calls that ask for a byte
tells the data of the frames before the first that is bad or cut off, and then comes
to an exception or -1. -/
theorem tell_schedules (hpool : platform.bufferPool.BuiltIn) {rbc : Source} (hp : rbc.Positive)
    (hhead : rbc.data.take 10 = SnappyFramed.headerBytes)
    (hblocks : OrdinaryBlocks platform.codec (rbc.data.drop 10)) :
    ∃ (s : SnappyFramedInputStream) (frames : List Frame) (rest : Bytes),
      new platform rbc true = .ok s ∧
      rbc.data.drop 10 = frames.flatMap Frame.encode ++ rest ∧
      (∀ f ∈ frames, f.Good platform) ∧ Stuck platform rest ∧
      Tells (perform platform) Demanding NotFatal (contents platform.codec frames) s := by
  obtain ⟨frames, rest, hdata, hframes, hrest⟩ := exists_stuck platform (rbc.data.drop 10)
  rw [hdata] at hblocks
  have hacc := fun f hf => @OrdinaryBlocks.accepted platform rest frames hblocks hframes f hf
  have hroomy := @Capacities.roomy_of_builtIn platform frames hpool fun f hf =>
    ⟨(hframes f hf).1, (hacc f hf).1.short⟩
  obtain ⟨s, hs, ha, hdone⟩ := @new_ahead platform true rbc hpool.reliable hp frames rest
    (by rw [← hdata, ← hhead, List.take_append_drop]) (fun f hf => (hacc f hf).1) hroomy
  have hholds := ha.holds hdone fun f hf => (hacc f hf).2
  have hshort := hblocks.behind fun f hf => (hframes f hf).1
  exact ⟨s, frames, rest, hs, hdata, fun f hf => (hframes f hf).2, hrest,
    tells_of_holds (Holds platform true rest)
      (fun call data s hd hs => wp_perform_demanding hpool.reliable hrest hshort hs hd) hholds⟩

theorem ordinaryBlocks_of_short {codec : Codec} {data : Bytes} (h : data.length < 4) :
    OrdinaryBlocks codec data := by
  intro frames rest f hdata
  have := congrArg List.length hdata
  simp only [List.length_append, Frame.encode, Frame.length_header] at this
  omega

theorem OrdinaryBlocks.cons {codec : Codec} {f : Frame} (hf : f.Fits)
    (hblock : f.flag = SnappyFramed.compressedDataFlag →
      (∀ n, codec.getUncompressedLength f.payload = some n → n < 2 ^ 31) ∧
        codec.rawUncompress f.payload ≠ .ok [])
    (h : OrdinaryBlocks codec rest) : OrdinaryBlocks codec (f.encode ++ rest) := by
  intro frames more g hdata hframes hg hflag
  cases frames with
  | nil =>
    obtain ⟨rfl, -⟩ := encode_append_inj hf hg hdata
    exact hblock hflag
  | cons f' frames =>
    rw [List.flatMap_cons, List.append_assoc] at hdata
    obtain ⟨-, hrest⟩ := encode_append_inj hf (hframes f' (by simp)) hdata
    exact h frames more g hrest (fun k hk => hframes k (by simp [hk])) hg hflag

end

/-- The samples and the first byte of another frame. -/
def samplesAndMore : Source := ⟨Frame.stream Frame.samples ++ [0], [1, 2]⟩

theorem tell_schedules_samples :
    ∃ (s : SnappyFramedInputStream) (frames : List Frame) (rest : Bytes),
      new literalPlatform samplesAndMore true = .ok s ∧
      samplesAndMore.data.drop 10 = frames.flatMap Frame.encode ++ rest ∧
      (∀ f ∈ frames, f.Good literalPlatform) ∧ Stuck literalPlatform rest ∧
      Tells (perform literalPlatform) Demanding NotFatal (contents literalCodec frames) s := by
  refine @tell_schedules literalPlatform QuiescentBufferPool.builtIn samplesAndMore (by decide)
    (by decide) ?_
  have hdata : samplesAndMore.data.drop 10 = Frame.samples.flatMap Frame.encode ++ [0] := rfl
  have hshort : OrdinaryBlocks literalPlatform.codec [0] := ordinaryBlocks_of_short (by decide)
  have hfits := fun f hf => (@Frame.samples_spec f hf).1
  have hcompressed := LiteralCodec.lawful.rawUncompress_compress [3, 4, 5] (by decide)
  rw [hdata]
  simp only [Frame.samples, List.flatMap_cons, List.flatMap_nil, List.append_nil, List.append_assoc]
    at hfits ⊢
  refine OrdinaryBlocks.cons (hfits _ (by simp)) (fun h => absurd h (by decide)) ?_
  refine OrdinaryBlocks.cons (hfits _ (by simp)) (fun h => absurd h (by decide)) ?_
  refine OrdinaryBlocks.cons (hfits _ (by simp)) (fun _ => ?_) hshort
  rw [Frame.payload_ofBlock]
  refine ⟨fun n hn => ?_, fun hnil => ?_⟩
  · have hlen := literalCodec.length_rawUncompress _ _ hcompressed
    rw [show literalPlatform.codec = literalCodec from rfl] at hn
    rw [hn, Option.some.injEq] at hlen
    rw [hlen]
    decide
  · rw [show literalPlatform.codec = literalCodec from rfl, hcompressed] at hnil
    cases hnil

end SnappyJava.SnappyFramedInputStream
