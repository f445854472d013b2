import SnappyJava.FramePools

/-! Reading a stream of good frames by `read()`, `read(byte[], int, int)`,
`read(ByteBuffer)` and `available()` in any order. -/

namespace SnappyJava.SnappyFramedInputStream

open Exec Memory Reading Words

/-- Any reading calls from `s` on drain `data`. -/
def ReadsAll (platform : Platform) (data : Bytes) (s : SnappyFramedInputStream) : Prop :=
  ∀ calls : List ReadCall, (∀ o ∈ calls, o.Reads) →
    wp (runAll (perform platform) calls)
      (fun answers _ => Drains data answers ∧
        ((∃ a ∈ answers, a.ended = true) → given answers = data))
      (fun _ _ => False) s

section
variable {platform : Platform} {v : Bool} {rest data : Bytes} {s t : SnappyFramedInputStream}

theorem Holds.readsAll (hpool : platform.bufferPool.Reliable) (h : Holds platform v [] data s) :
    ReadsAll platform data s := by
  intro calls hcalls
  refine wp_mono (wp_runAll_drains (Holds platform v [])
    (fun _ _ _ hr hs => wp_perform hpool hs (fun _ => rfl) hr) hcalls h) ?_ (fun _ _ h => h)
  rintro answers u ⟨hd, -⟩
  exact ⟨hd, hd.given_eq_of_ended⟩

/-- After one call the rest is drained. -/
theorem ReadsAll.step (h : ReadsAll platform data s) {call : ReadCall} (hr : call.Reads)
    {a : Answer UInt8} (hrun : (perform platform call).run s = .ok a t) :
    Serves data a ∧ ReadsAll platform (data.drop a.given.length) t := by
  have hcons : ∀ calls : List ReadCall, (∀ o ∈ calls, o.Reads) →
      wp (runAll (perform platform) calls) (fun as _ => Drains data (a :: as)) (fun _ _ => False)
        t := by
    intro calls hcalls
    have hall := h (call :: calls) (by simpa [hr] using hcalls)
    simp only [runAll, wp_bind, wp_pure] at hall
    have hrest := wp_ok hall hrun
    exact wp_mono hrest (fun _ _ h => h.1) (fun _ _ h => h)
  refine ⟨?_, fun calls hcalls => ?_⟩
  · exact (hcons [] (by simp)).1
  · exact wp_mono (hcons calls hcalls) (fun as _ h => ⟨h.2, h.2.given_eq_of_ended⟩) (fun _ _ h => h)

/-- Reading byte by byte up to what is behind the frames. -/
theorem ReadsAll.reach (hpool : platform.bufferPool.Reliable) {more : Bytes}
    (h : Holds platform v rest data s) (hall : ReadsAll platform (data ++ more) s) :
    ∃ t, Holds platform v rest [] t ∧ ReadsAll platform more t := by
  induction hn : data.length using Nat.strong_induction_on generalizing data s with
  | _ n ih =>
    by_cases hdata : data = []
    · subst hdata
      exact ⟨s, h, hall⟩
    have hr : (ReadCall.read [0] 0 1).Reads := by decide
    obtain ⟨a, t, hrun, hserves, ht⟩ := exists_of_wp
      (wp_perform hpool h (fun hnil => absurd hnil hdata) hr)
    obtain ⟨hserves', hall'⟩ := hall.step hr hrun
    -- the call has room for a byte, or it would not serve `data`
    have hdem : a.demands = true := by
      have hd : wp (perform platform (.read [0] 0 1)) (fun a _ => a.demands = true)
          (fun _ _ => True) s := by
        simp only [perform, wp_bind, wp_pure]
        exact wp_mono (wp_true _ _) (fun _ _ _ => rfl) (fun _ _ _ => trivial)
      have := wp_ok hd hrun
      exact this
    have hpos := List.length_pos_iff.mpr (hserves.progress hdem hdata)
    have hle := hserves.given_prefix.length_le
    rw [List.drop_append_of_le_length hle] at hall'
    exact ih _ (by rw [List.length_drop]; omega) ht hall' rfl

/-- A compressed frame that decodes to nothing is taken for one that has bytes,
and a block of 2^31 bytes or more leaves the memory it was given. -/
theorem not_readsAll (hpool : platform.bufferPool.Reliable) {f : Frame} (hf : f.Fits)
    {post : List Frame} (hflag : f.flag = SnappyFramed.compressedDataFlag)
    (hbad : f.data platform.codec = [] ∨ 2 ^ 31 ≤ (f.data platform.codec).length)
    (h : Holds platform v (f.encode ++ post.flatMap Frame.encode) [] s) (more : Bytes) :
    ¬ ReadsAll platform more s := by
  intro hall
  have hr : (ReadCall.read [0] 0 1).Reads := by decide
  have hcall : wp (perform platform (.read [0] 0 1))
      (fun a _ => a = ⟨true, [], false, 0⟩) (fun _ _ => True) s := by
    have hone : Words.wrap32 ((0 : Int) + 1) = 1 := by decide
    simp only [perform, read, wp_bind, wp_get, wp_ite, wp_throw, wp_pure, h.opened,
      Bool.false_eq_true, if_false, hone]
    rw [if_neg (by decide), if_neg (by decide)]
    apply wp_ensureBuffer hpool h
    · intro t ht hlt
      have := ht.available_le
      rw [List.length_nil] at this
      omega
    · intro t m c _ ht hdone hm
      obtain ⟨k, rfl⟩ : ∃ k, m = k + 1 := ⟨m - 1, by omega⟩
      have heof : t.eof = false := by
        cases heof : t.eof with
        | false => rfl
        | true =>
          have := congrArg List.length (ht.finished heof).2
          rw [List.length_append, Frame.encode, List.length_append, Frame.length_header,
            List.length_nil] at this
          omega
      have hpoised := ht.poised heof
      rw [List.flatMap_nil, List.nil_append] at hpoised
      rw [loop, wp_bind]
      apply wp_ensureBufferRound hpool hf hpoised (Nat.le_of_eq hdone)
      case hSkip => exact fun _ _ hskip => absurd (.inl hflag) hskip
      case hOver => exact fun _ _ => trivial
      case hFault => exact fun _ _ _ _ _ => trivial
      case hBad => exact fun _ _ _ => trivial
      intro u _ _ hfit hu hdec
      have hlt := hu.room.buffer_lt
      have hnil : f.data platform.codec = [] := hbad.resolve_right (by omega)
      obtain ⟨b, hb, hlen⟩ := hu.room.buffer
      have hv := hdec.valid
      rw [hnil, List.length_nil] at hv
      have hav : u.availableNow = 0 := by
        rw [availableNow_eq hu.opened, hv, hdec.position]
        rfl
      have hzero : (min (1 : Int) 0).toNat = 0 := by decide
      simp only [wp_pure, if_true, hav, hzero, takeAvailable, wp_bind, wp_get, wp_ite, wp_throw]
      rw [if_neg (by decide)]
      apply wp_access hb
      intro events
      have hmin : (min ((1 : Int).toNat : Int) 0).toNat = 0 := by decide
      simp only [hmin, slice_self_zero, deliver, advance, wp_modify, hdec.position]
      rw [if_neg (by omega)]
      rfl
  have hone := hall [.read [0] 0 1] (by simpa using hr)
  simp only [runAll, wp_bind, wp_pure] at hone
  refine not_wp_false (wp_mono (wp_and hcall hone) ?_ (fun _ _ h => h.2))
  rintro a t ⟨rfl, ⟨hserves, -⟩, -⟩
  by_cases hmore : more = []
  · exact absurd (hserves.ended_iff.mpr ⟨rfl, hmore⟩) (by decide)
  · exact hserves.progress rfl hmore rfl

/-- Over a pool of the library, a stream of complete good frames is read as the
content of the frames by any calls, exactly if every compressed frame decodes to
something, and to fewer than 2^31 bytes. -/
theorem readsAll_iff (hpool : platform.bufferPool.BuiltIn) {rbc : Source} (hp : rbc.Positive)
    {frames : List Frame}
    (hdata : rbc.data = SnappyFramed.headerBytes ++ frames.flatMap Frame.encode)
    (hfits : ∀ f ∈ frames, f.Fits) (hgood : ∀ f ∈ frames, f.Good platform) :
    (∃ s, new platform rbc v = .ok s ∧ ReadsAll platform (contents platform.codec frames) s) ↔
      ∀ f ∈ frames, f.flag = SnappyFramed.compressedDataFlag →
        f.data platform.codec ≠ [] ∧ (f.data platform.codec).length < 2 ^ 31 := by
  -- the stream is opened, and holds the frames up to one with the defect
  have hopen : ∀ {pre : List Frame} {rest : Bytes}, (∀ f ∈ pre, f ∈ frames) →
      (∀ f ∈ pre, f.flag = SnappyFramed.compressedDataFlag →
        f.data platform.codec ≠ [] ∧ (f.data platform.codec).length < 2 ^ 31) →
      rbc.data = SnappyFramed.headerBytes ++ (pre.flatMap Frame.encode ++ rest) →
      ∃ s, new platform rbc v = .ok s ∧ Holds platform v rest (contents platform.codec pre) s := by
    intro pre rest hsub hpre hrest
    have hlen : ∀ f ∈ pre, (f.data platform.codec).length < 2 ^ 31 := by
      intro f hf
      refine length_data_lt (hfits f (hsub f hf)) fun hflag data hok => ?_
      have hlt := (hpre f hf hflag).2
      rwa [Frame.data, if_pos hflag, hok] at hlt
    have hroomy := @Capacities.roomy_of_builtIn platform pre hpool fun f hf =>
      ⟨hfits f (hsub f hf), hlen f hf⟩
    obtain ⟨s, hs, ha, hdone⟩ := @new_ahead platform v rbc hpool.reliable hp pre rest hrest
      (fun f hf => ⟨hfits f (hsub f hf), hgood f (hsub f hf), hlen f hf⟩) hroomy
    refine ⟨s, hs, ha.holds hdone fun f hf hisdata => ?_⟩
    rcases hisdata with hflag | hflag
    · exact (hpre f hf hflag).1
    · have hne : SnappyFramed.uncompressedDataFlag ≠ SnappyFramed.compressedDataFlag := by decide
      have hg := hgood f (hsub f hf)
      rw [Frame.Good, hflag, if_neg hne, if_pos rfl] at hg
      rw [Frame.data, hflag, if_neg hne, if_pos rfl, Frame.payload]
      intro hnil
      have := List.drop_eq_nil_iff.mp hnil
      omega
  constructor
  · rintro ⟨s, hs, hall⟩
    rcases all_or_first (fun f : Frame => f.flag = SnappyFramed.compressedDataFlag →
      f.data platform.codec ≠ [] ∧ (f.data platform.codec).length < 2 ^ 31) frames with
      hok | ⟨pre, f, post, rfl, hpre, hbad⟩
    · exact hok
    exfalso
    simp only [not_forall, not_and_or, not_not, Nat.not_lt] at hbad
    obtain ⟨hflag, hbad⟩ := hbad
    obtain ⟨s', hs', hh⟩ := @hopen pre ((f :: post).flatMap Frame.encode)
      (fun g hg => List.mem_append_left _ hg) hpre (by rw [hdata, List.flatMap_append])
    obtain rfl : s' = s := Except.ok.inj (hs'.symm.trans hs)
    rw [contents_append] at hall
    obtain ⟨t, ht, hmore⟩ := hall.reach hpool.reliable hh
    exact not_readsAll hpool.reliable (hfits f (by simp)) hflag hbad ht _ hmore
  · intro hok
    obtain ⟨s, hs, hh⟩ := hopen (fun _ h => h) hok (by rw [hdata, List.append_nil])
    exact ⟨s, hs, hh.readsAll hpool.reliable⟩

end

theorem readsAll_iff_samples :
    (∃ s, new literalPlatform ⟨Frame.stream Frame.samples, [3, 1, 4]⟩ true = .ok s ∧
      ReadsAll literalPlatform (contents literalPlatform.codec Frame.samples) s) ↔
      ∀ f ∈ Frame.samples, f.flag = SnappyFramed.compressedDataFlag →
        f.data literalPlatform.codec ≠ [] ∧ (f.data literalPlatform.codec).length < 2 ^ 31 :=
  readsAll_iff QuiescentBufferPool.builtIn (by decide) rfl
    (fun _ hf => (Frame.samples_spec hf).1) (fun _ hf => (Frame.samples_spec hf).2.1)

/-- A single compressed frame, of the empty block: reading into one byte of room
gives neither a byte nor the end. -/
theorem empty_block_not_readsAll :
    let f := Frame.ofBlock literalPlatform true (literalCodec.compress []) []
    f.Fits ∧ f.Good literalPlatform ∧ f.data literalPlatform.codec = [] ∧
      ∃ s, new literalPlatform ⟨Frame.stream [f], []⟩ true = .ok s ∧
        ¬ ReadsAll literalPlatform [] s := by
  intro f
  have hpool := QuiescentBufferPool.builtIn.reliable
  have hdec : Frame.Decodes literalPlatform.codec true (literalCodec.compress []) [] :=
    LiteralCodec.lawful.rawUncompress_compress _ (by decide)
  have hfits : f.Fits := by
    unfold Frame.Fits
    decide
  have hdata : f.data literalPlatform.codec = [] := Frame.data_ofBlock hdec
  obtain ⟨s, hs, ha, hdone⟩ := @new_ahead literalPlatform true ⟨Frame.stream [f], []⟩ hpool (by decide)
    [] (f.encode ++ [].flatMap Frame.encode) rfl (by simp) trivial
  exact ⟨hfits, Frame.good_ofBlock hdec (by decide), hdata, s, hs,
    not_readsAll hpool hfits rfl (.inl hdata) (ha.holds hdone (by simp)) []⟩

end SnappyJava.SnappyFramedInputStream
