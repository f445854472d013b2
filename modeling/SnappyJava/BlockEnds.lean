import SnappyJava.BlockGrammar
import SnappyJava.BlockLimits

/-! Whether the end of a `SnappyInputStream`, once reported, is reported for
good, over any input and whatever has been called before. -/

namespace SnappyJava.SnappyInputStream

open Exec Memory Reading BlockFormat

/-! ## Calls with any range -/

/-- `read()`, `available()`, and `read(byte[], int, int)` and `rawRead` of at
least one byte, into whatever range. -/
def Polls : ReadCall → Prop
  | .readByte => True
  | .read _ _ len => 0 < len
  | .rawRead _ _ len => 0 < len
  | .available => True
  | .readArray _ _ _ _ => False

instance : DecidablePred Polls
  | .readByte => inferInstanceAs (Decidable True)
  | .read _ _ len => inferInstanceAs (Decidable (0 < len))
  | .rawRead _ _ len => inferInstanceAs (Decidable (0 < len))
  | .available => inferInstanceAs (Decidable True)
  | .readArray _ _ _ _ => inferInstanceAs (Decidable False)

section
variable {codec : Codec} {H : Bytes → SnappyInputStream → Prop} {Done : SnappyInputStream → Prop}
  {E E' : Throwable → SnappyInputStream → Prop} {rest : Bytes} {s : SnappyInputStream}

/-- A bulk read into any range reports the end only where nothing is left. -/
theorem wp_bulkRead_any (F : Feeds codec H Done E) (h : H rest s) {copy : ArrayCopy} {b : Bytes}
    {off len : Int} (hpos : 0 < len) {Q : Int × Bytes → SnappyInputStream → Prop}
    (hEnd : ∀ b' t, rest = [] → Done t → Q (-1, b') t)
    (hSome : ∀ (n : Nat) b' t, rest ≠ [] → (∃ r, H r t) ∨ Done t → Q (n, b') t)
    (hE : ∀ e t, E e t → E' e t) (hFault : ∀ e t, rest ≠ [] → (∃ r, H r t) → E' e t) :
    wp (bulkRead codec copy b off len) Q E' s := by
  simp only [bulkRead, wp_bind, wp_get]
  refine wp_loop
    (fun (p : Bytes × Nat) t => (p.2 = 0 ∧ H rest t) ∨ (0 < p.2 ∧ rest ≠ [] ∧ ∃ r, H r t))
    (fun p t => t.input.size + (len.toNat - p.2)) ?_ (.inl ⟨rfl, h⟩) (by dsimp only; omega)
  rintro ⟨b', w⟩ t hI
  dsimp only at hI
  simp only [readRound, wp_bind, wp_get, wp_ite, wp_pure]
  split
  · rename_i hlt
    split
    · rename_i hdone
      rcases hI with ⟨rfl, ht⟩ | ⟨hw, hne, r, ht⟩
      · refine wp_mono (F.next ht hdone) ?_ (fun e u hu => hE e u hu.2)
        rintro (_ | _) u hu
        · exact hEnd b' u hu.1 hu.2
        · simp only [if_true, Sum.elim_inl]
          exact ⟨.inl ⟨trivial, hu.1⟩, by have := hu.2; omega⟩
      · refine wp_mono (F.next ht hdone) ?_ (fun e u hu => hE e u hu.2)
        rintro (_ | _) u hu
        · simp only [Bool.false_eq_true, if_false, Sum.elim_inr]
          rw [if_neg (by omega)]
          exact hSome w b' u hne (.inr hu.2)
        · simp only [if_true, Sum.elim_inl]
          exact ⟨.inr ⟨hw, hne, r, hu.1⟩, by have := hu.2; omega⟩
    · rename_i hmore
      have hcopy : ∀ r, H r t → rest ≠ [] → wp (copyFromUncompressed copy b'
          (Words.wrap32 (off + w)) (min (t.uncompressedLimit - t.uncompressedCursor) (len - w).toNat))
          (fun c u => rest ≠ [] ∧ u.input = t.input ∧ ∃ r, H r u) E' t := by
        intro r ht hne
        simp only [copyFromUncompressed, wp_bind, wp_get]
        split
        · exact hFault _ _ hne ⟨r, ht⟩
        · simp only [wp_ite, wp_throw, wp_bind, wp_set, wp_pure]
          split
          · exact hFault _ _ hne ⟨r, ht⟩
          · split
            · exact hFault _ _ hne ⟨r, ht⟩
            · exact ⟨hne, trivial, _, F.advance ht (Nat.min_le_left _ _)⟩
      have hnonempty : ∀ r, H r t → r ≠ [] := by
        rintro r ht rfl
        have := F.le_length ht
        simp at this
        omega
      have hstep : ∃ r, H r t ∧ rest ≠ [] := by
        rcases hI with ⟨-, ht⟩ | ⟨-, hne, r, ht⟩
        · exact ⟨rest, ht, hnonempty rest ht⟩
        · exact ⟨r, ht, hne⟩
      obtain ⟨r, ht, hne⟩ := hstep
      refine wp_mono (hcopy r ht hne) ?_ (fun _ _ h => h)
      rintro c u ⟨hne, hinput, hu⟩
      simp only [Sum.elim_inl, hinput]
      exact ⟨.inr ⟨by omega, hne, hu⟩, by omega⟩
  · rename_i hge
    rcases hI with ⟨rfl, -⟩ | ⟨hw, hne, hu⟩
    · simp only [Nat.cast_zero] at hge
      exact absurd hpos hge
    · exact hSome w b' t hne (.inl hu)

end

/-! ## Ends and what lies behind them -/

/-- A reader that comes to this end reports it at every later call: the input is
short of a chunk's size, or has false codec headers with at most empty chunks
between them, and then is. -/
inductive Silent (codec : Codec) (limit : Int) : Ending → Prop
  | finished : Silent codec limit .finished
  | stop {data : Bytes} (hnil : (contents codec limit data).1.flatten = [])
      (h : Silent codec limit ((contents codec limit data).2.ending false)) :
      Silent codec limit (.stop data)

section
variable {codec : Codec} {limit : Int} {ending : Ending} {rest : Bytes} {s : SnappyInputStream}
  {c : ReadCall}

theorem silent_ending {found : Find} (fresh fresh' : Bool)
    (h : Silent codec limit (found.ending fresh)) : Silent codec limit (found.ending fresh') := by
  cases found with
  | oversized => cases h
  | _ => exact h

/-- Behind a silent end there is a silent end. -/
theorem Done.silent (h : Done limit ending s) (hs : Silent codec limit ending) :
    ∃ ending', Silent codec limit ending' ∧ Holding codec limit ending' [] s := by
  cases hs with
  | finished =>
    obtain ⟨hsound, hfin, hdone⟩ := h
    exact ⟨.finished, .finished, hsound, by rw [look, if_pos hfin, undelivered_eq_nil hdone]⟩
  | stop hnil hs =>
    have hlook := @look_of_waiting codec _ _ _ h.1
    rw [hnil] at hlook
    exact ⟨_, silent_ending _ _ hs, ⟨h.1.toShape, h.2⟩, hlook⟩

/-- Only where nothing is left is the end reported. -/
theorem wp_perform_polls (h : Holding codec limit ending rest s) (hc : Polls c) :
    wp (perform codec c)
      (fun a t => Sound limit t ∧ (a.ended = true → rest = [] ∧ Done limit ending t))
      (fun _ t => Sound limit t) s := by
  have F : Feeds codec (Holding codec limit ending) _ _ := feeds_holding
  have hbulk : ∀ (copy : ArrayCopy) (b : Bytes) (off len : Int), 0 < len →
      wp (bulkAnswer off len <$> bulkRead codec copy b off len)
        (fun a t => Sound limit t ∧ (a.ended = true → rest = [] ∧ Done limit ending t))
        (fun _ t => Sound limit t) s := by
    intro copy b off len hpos
    rw [wp_map]
    apply wp_bulkRead_any F h hpos
    · exact fun b' t hnil ht => ⟨ht.sound, fun _ => ⟨hnil, ht⟩⟩
    · intro n b' t _ ht
      have hne : (n : Int) ≠ -1 := by omega
      refine ⟨?_, by simp [bulkAnswer, hne]⟩
      rcases ht with ⟨r, ht⟩ | ht
      · exact ht.1
      · exact ht.sound
    · exact fun _ _ h => h.2
    · intro _ _ _ ht
      obtain ⟨r, ht⟩ := ht
      exact ht.1
  cases c with
  | readByte =>
    simp only [perform, wp_bind, wp_pure]
    apply wp_readByte F h
    · exact fun t hnil ht => ⟨ht.sound, fun _ => ⟨hnil, ht⟩⟩
    · intro t x xs _ ht
      have hne : (x.toNat : Int) ≠ -1 := by omega
      rw [if_neg hne]
      exact ⟨ht.1, by simp⟩
    · exact fun _ _ _ h => h.2
  | read b off len => exact hbulk _ _ _ _ hc
  | rawRead a off len => exact hbulk _ _ _ _ hc
  | readArray t d off len => exact hc.elim
  | available =>
    simp only [perform, wp_bind, wp_pure]
    apply wp_available F h
    · exact fun t n _ ht => ⟨ht.1, by simp⟩
    · exact fun t _ ht => ⟨ht.sound, by simp⟩
    · exact fun _ _ _ h => h.2

/-- In front of a silent end every call answers that nothing is left. -/
theorem wp_perform_silent (h : Holding codec limit ending [] s) (hs : Silent codec limit ending)
    (hc : Polls c) :
    wp (perform codec c)
      (fun a t => Serves [] a ∧ ∃ e, Silent codec limit e ∧ Holding codec limit e [] t)
      (fun _ _ => False) s := by
  have F : Feeds codec (Holding codec limit ending) _ _ := feeds_holding
  have hthrow : ∀ (e : Throwable) (t : SnappyInputStream),
      ending = .fails e ∧ Sound limit t → False := by
    rintro e t ⟨rfl, -⟩
    cases hs
  have hbulk : ∀ (copy : ArrayCopy) (b : Bytes) (off len : Int), 0 < len →
      wp (bulkAnswer off len <$> bulkRead codec copy b off len)
        (fun a t => Serves [] a ∧ ∃ e, Silent codec limit e ∧ Holding codec limit e [] t)
        (fun _ _ => False) s := by
    intro copy b off len hpos
    rw [wp_map]
    apply wp_bulkRead_any F h hpos
    · intro b' t _ ht
      refine ⟨?_, ht.silent hs⟩
      simp only [bulkAnswer, if_true]
      exact ⟨List.nil_prefix, by simp [hpos], fun _ h => absurd rfl h, by simp, by simp⟩
    · exact fun _ _ _ hne _ => absurd rfl hne
    · exact hthrow
    · exact fun _ _ hne _ => absurd rfl hne
  cases c with
  | readByte =>
    simp only [perform, wp_bind, wp_pure]
    apply wp_readByte F h
    · intro t _ ht
      refine ⟨?_, ht.silent hs⟩
      simp only [if_true]
      exact ⟨List.nil_prefix, by simp, fun _ h => absurd rfl h, by simp, by simp⟩
    · exact fun t x xs hnil _ => absurd hnil (by simp)
    · exact fun e t _ => hthrow e t
  | read b off len => exact hbulk _ _ _ _ hc
  | rawRead a off len => exact hbulk _ _ _ _ hc
  | readArray t d off len => exact hc.elim
  | available =>
    simp only [perform, wp_bind, wp_pure]
    apply wp_available F h
    · intro t n hn ht
      obtain rfl : n = 0 := by simpa using hn
      exact ⟨⟨List.nil_prefix, by simp, by simp, by simp, by simp⟩, ending, hs, ht⟩
    · intro t _ ht
      exact ⟨⟨List.nil_prefix, by simp, by simp, by simp, by simp⟩, ht.silent hs⟩
    · exact fun e t _ => hthrow e t

/-- All later calls answer that nothing is left, and none throws. -/
def Final (codec : Codec) (t : SnappyInputStream) : Prop :=
  ∀ calls : List ReadCall, (∀ c ∈ calls, Polls c) →
    wp (runAll (perform codec) calls) (fun answers _ => Drains [] answers) (fun _ _ => False) t

theorem final_of_silent (h : Holding codec limit ending [] s) (hs : Silent codec limit ending) :
    Final codec s := by
  intro calls hcalls
  refine wp_mono (@wp_runAll_drains _ _ _ _ (perform codec) Polls
    (fun data t => data = [] ∧ ∃ e, Silent codec limit e ∧ Holding codec limit e [] t)
    (fun _ _ => False) ?_ calls hcalls [] s ⟨rfl, ending, hs, h⟩) (fun _ _ h => h.1) (fun _ _ h => h)
  rintro c data t hc ⟨rfl, e, he, ht⟩
  refine wp_mono (wp_perform_silent ht he hc) ?_ (fun _ _ h => h)
  rintro a u ⟨ha, hu⟩
  exact ⟨ha, by simp, hu⟩

theorem Final.step (hf : Final codec s) (hc : Polls c) :
    wp (perform codec c) (fun a t => Serves [] a ∧ Final codec t) (fun _ _ => False) s := by
  have hone := hf [c] (by simpa using hc)
  simp only [runAll, wp_bind, wp_pure] at hone
  cases hrun : (perform codec c).run s with
  | error e t => exact (wp_error hone hrun).elim
  | ok a t =>
    obtain ⟨ha, -⟩ := wp_ok hone hrun
    have ht : Final codec t := by
      intro calls hcalls
      have hall := hf (c :: calls) (by
        intro x hx
        rcases List.mem_cons.mp hx with rfl | hx
        · exact hc
        · exact hcalls x hx)
      simp only [runAll, wp_bind, wp_pure] at hall
      have hrest := wp_ok hall hrun
      refine wp_mono hrest ?_ (fun _ _ h => h)
      rintro as u ⟨-, has⟩
      rwa [List.drop_nil] at has
    unfold wp
    rw [hrun]
    exact ⟨ha, ht⟩

/-- A bound for the input behind a false header. -/
def Ending.size : Ending → Nat
  | .stop data => data.length + 1
  | _ => 0

/-- A reader that answers for good that nothing is left has nothing left. -/
theorem silent_of_final (h : Holding codec limit ending rest s) (hf : Final codec s) :
    rest = [] ∧ Silent codec limit ending := by
  induction hn : ending.size using Nat.strong_induction_on generalizing ending rest s with
  | _ n ih =>
    subst hn
    -- the next `read()` reports the end
    have hc : Polls .readByte := trivial
    obtain ⟨a, t, hrun, ha, ht⟩ := exists_of_wp (hf.step hc)
    have hread := wp_ok (wp_perform_polls h hc) hrun
    have hdemands : a.demands = true := by
      have hw : wp (perform codec .readByte) (fun a _ => a.demands = true) (fun _ _ => True) s := by
        simp only [perform, wp_bind, wp_pure]
        refine wp_mono (wp_true _ _) (fun v _ _ => ?_) (fun _ _ h => h)
        split <;> rfl
      have := wp_ok hw hrun
      exact this
    obtain ⟨hnil, hdone⟩ := hread.2 (ha.ended_iff.mpr ⟨hdemands, rfl⟩)
    refine ⟨hnil, ?_⟩
    cases ending with
    | finished => exact .finished
    | fails e => exact hdone.elim
    | stop data =>
      obtain ⟨hw, hm⟩ := hdone
      have hbehind : Holding codec limit _ (contents codec limit data).1.flatten t :=
        ⟨⟨hw.toShape, hm⟩, look_of_waiting hw⟩
      have hsmaller : ∀ fresh,
          ((contents codec limit data).2.ending fresh).size < (Ending.stop data).size := by
        intro fresh
        cases hfound : (contents codec limit data).2 with
        | stop r =>
          have := contents_stop_lt hfound
          simp only [Find.ending, Ending.size]
          omega
        | _ => simp [Find.ending, Ending.size]
      obtain ⟨hflat, hs⟩ := ih _ (hsmaller _) hbehind ht rfl
      exact .stop hflat (silent_ending _ _ hs)

/-- Behind a state in which a call reports the end, the end is final just in case
what the call came upon is silent. -/
theorem final_iff_silent (h : Sound limit s) (hc : Polls c) {a : Answer UInt8}
    {t : SnappyInputStream} (hcall : (perform codec c).run s = .ok a t) (hended : a.ended = true) :
    Final codec t ↔ Silent codec limit (look codec s).2 := by
  have hlook : Holding codec limit (look codec s).2 (look codec s).1 s := ⟨h, rfl⟩
  obtain ⟨-, hdone⟩ := (wp_ok (wp_perform_polls hlook hc) hcall).2 hended
  constructor
  · intro hf
    cases he : (look codec s).2 with
    | finished => exact .finished
    | fails e => rw [he] at hdone; exact hdone.elim
    | stop data =>
      rw [he] at hdone
      have hbehind : Holding codec limit _ (contents codec limit data).1.flatten t :=
        ⟨⟨hdone.1.toShape, hdone.2⟩, look_of_waiting hdone.1⟩
      obtain ⟨hflat, hs⟩ := silent_of_final hbehind hf
      exact .stop hflat (silent_ending _ _ hs)
  · intro hs
    obtain ⟨e, he, ht⟩ := hdone.silent hs
    exact final_of_silent ht he

/-- Every call keeps the state good, over exceptions too. -/
theorem sound_runOn {before : List ReadCall} (hbefore : ∀ c ∈ before, Polls c) (h : Sound limit s)
    {rs : List (Except Throwable (Answer UInt8))} {t : SnappyInputStream}
    (hrun : (runOn Throwable.Fatal (perform codec) before).run s = .ok rs t) : Sound limit t := by
  have hw := @wp_runOn _ _ _ _ Throwable.Fatal _ (perform codec) Polls (Sound limit)
    (fun _ => True) (fun _ _ => True) ?_ before hbefore s h
  · exact (wp_ok hw hrun).2
  · intro c s hc hs
    have hlook : Holding codec limit (look codec s).2 (look codec s).1 s := ⟨hs, rfl⟩
    refine wp_mono (wp_perform_polls hlook hc) (fun _ _ h => ⟨trivial, h.1⟩) (fun e t ht => ?_)
    split
    · trivial
    · exact ⟨trivial, ht⟩

/-- In every run over any input, the end that a call reports is final just in
case what the call came upon is silent: the input is over, or a false codec header
stands there that nothing but further such headers, empty chunks and the end follow. -/
theorem end_final_iff {input : Source} {before : List ReadCall}
    {rs : List (Except Throwable (Answer UInt8))} {a : Answer UInt8} {s₀ t : SnappyInputStream}
    (hnew : new codec input limit = .ok s₀) (hbefore : ∀ c ∈ before, Polls c)
    (hrun : (runOn Throwable.Fatal (perform codec) before).run s₀ = .ok rs s) (hc : Polls c)
    (hcall : (perform codec c).run s = .ok a t) (hended : a.ended = true) :
    Final codec t ↔ Silent codec limit (look codec s).2 :=
  final_iff_silent (sound_runOn hbefore (sound_new hnew) hrun) hc hcall hended

end

/-- Four bytes of the magic and twelve others, and then a chunk of three bytes. -/
def falseHeader : Bytes :=
  SnappyCodec.magicHeader.take 4 ++ newArray 12 ++ (intBytes 5 ++ literalCodec.compress [7, 8, 9])

def falseHeaderInput : Source :=
  ⟨SnappyCodec.headerArray SnappyCodec.currentHeader ++ falseHeader, []⟩

/-- The reader in front of it. -/
def falseHeaderReader : SnappyInputStream :=
  { initial falseHeaderInput defaultMaxChunkSize with
    input := ⟨falseHeader, []⟩, header := SnappyCodec.headerArray SnappyCodec.currentHeader }

/-- The reader behind the twelve bytes. -/
def falseHeaderPassed : SnappyInputStream :=
  { falseHeaderReader with input := ⟨intBytes 5 ++ literalCodec.compress [7, 8, 9], []⟩
                           header := SnappyCodec.magicHeader.take 4 ++ newArray 12 }

theorem falseHeader_new :
    new literalCodec falseHeaderInput defaultMaxChunkSize = .ok falseHeaderReader := by rfl

theorem falseHeader_ended : (perform literalCodec .readByte).run falseHeaderReader =
    .ok ⟨true, [], true, 0⟩ falseHeaderPassed := by rfl

theorem end_final_iff_falseHeader : Final literalCodec falseHeaderPassed ↔
    Silent literalCodec defaultMaxChunkSize (look literalCodec falseHeaderReader).2 :=
  @end_final_iff _ _ falseHeaderReader .readByte falseHeaderInput [] [] _ falseHeaderReader
    falseHeaderPassed falseHeader_new (by simp) rfl trivial falseHeader_ended rfl

/-- The end is reported at a false header, and the next call hands out the first
byte behind it. -/
theorem falseHeader_goes_on :
    new literalCodec falseHeaderInput defaultMaxChunkSize = .ok falseHeaderReader ∧
      (perform literalCodec .readByte).run falseHeaderReader =
        .ok ⟨true, [], true, 0⟩ falseHeaderPassed ∧
      wp (perform literalCodec .readByte) (fun a _ => a.ended = false ∧ a.given = [7])
        (fun _ _ => False) falseHeaderPassed ∧
      ¬ Final literalCodec falseHeaderPassed := by
  have hgiven : wp (perform literalCodec .readByte) (fun a _ => a.ended = false ∧ a.given = [7])
      (fun _ _ => False) falseHeaderPassed := by decide
  refine ⟨falseHeader_new, falseHeader_ended, hgiven, fun hf => ?_⟩
  have hc : Polls .readByte := trivial
  obtain ⟨a, t, hrun, ha, -⟩ := exists_of_wp (hf.step hc)
  obtain ⟨-, hg⟩ := wp_ok hgiven hrun
  have := ha.given_prefix
  rw [hg] at this
  exact absurd this (by decide)

end SnappyJava.SnappyInputStream
