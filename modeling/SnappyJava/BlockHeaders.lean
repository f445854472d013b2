import SnappyJava.BlockSchedules
import SnappyJava.BlockTruncation

/-! Whether a codec header is judged alike at the start of a stream and behind
what a `SnappyOutputStream` has written. -/

namespace SnappyJava.SnappyInputStream

open Exec Memory Reading BlockFormat

/-! ## What is read -/

/-- Read to the end by calls of the kind `ok`, a stream yields `rest` and comes to
that end. -/
def Yields (codec : Codec) (ok : ReadCall → Prop) (s : SnappyInputStream) (rest : Bytes)
    (stop : Stop Throwable) : Prop :=
  Tells (perform codec) ok (· = stop) rest s

/-- `read()` only. -/
def ByteWise (call : ReadCall) : Prop := call = .readByte

/-- It is reported as the end. -/
def Find.Reported : Find → Prop
  | .finished | .stop _ => True
  | _ => False

/-- The end throws nothing, and behind it comes neither a byte nor an exception. -/
def Ending.Quiet (codec : Codec) (limit : Int) : Ending → Prop
  | .finished => True
  | .stop rest => goodBytes codec limit rest = [] ∧ (contents codec limit rest).2.Reported
  | .fails _ => False

section
variable {codec : Codec} {limit : Int} {s : SnappyInputStream} {ending : Ending} {rest : Bytes}
  {stop : Stop Throwable}

theorem scheduled_of_byteWise {call : ReadCall} (h : ByteWise call) : Scheduled call := by
  obtain rfl : call = .readByte := h
  trivial

theorem Find.Reported.result_ending {found : Find} (h : found.Reported) (fresh : Bool) :
    (found.ending fresh).result = .ended := by
  cases found with
  | finished | stop => rfl
  | chunk | bad | oversized => exact h.elim

/-- A stream is read in one way. -/
theorem Yields.unique {ok ok' : ReadCall → Prop} {rest' : Bytes} {stop' : Stop Throwable}
    (h : Yields codec ok s rest stop) (h' : Yields codec ok' s rest' stop')
    (hok : ∀ call, ByteWise call → ok call ∧ ok' call) : rest = rest' ∧ stop = stop' := by
  obtain ⟨hrest, e, he, he'⟩ := Tells.unique (h.mono fun c hc => (hok c hc).1)
    (h'.mono fun c hc => (hok c hc).2) (show ByteWise .readByte from rfl)
  exact ⟨hrest, he.symm.trans he'⟩

/-- Byte by byte all of it is read, whatever the end. -/
theorem Holding.yields (h : Holding codec limit ending rest s) :
    Yields codec ByteWise s rest ending.result := by
  refine tells_of_holds (fun rest s => Holding codec limit ending rest s) ?_ h
  rintro call rest s rfl h
  refine wp_mono (wp_readByte_holding h) ?_ ?_
  · intro a t ha
    by_cases hended : a.ended = true
    · rw [if_pos hended] at ha ⊢
      exact ⟨ha.1, ha.2.symm⟩
    · rw [if_neg hended] at ha ⊢
      obtain ⟨x, xs, rfl, hgiven, ht⟩ := ha
      rw [hgiven]
      exact ⟨by simp, ⟨xs, rfl⟩, ht⟩
  · rintro e t ⟨hnil, rfl⟩
    exact ⟨hnil, rfl⟩

/-- Asked again after a quiet end, a reader reports the end. -/
theorem Done.holding_of_quiet (h : Done limit ending s) (hq : ending.Quiet codec limit) :
    ∃ ending', Holding codec limit ending' [] s ∧ ending'.result = .ended := by
  cases ending with
  | finished =>
    obtain ⟨ending', hnext⟩ := @Done.holding codec _ _ _ h
    refine ⟨.finished, ⟨hnext.1, ?_⟩, rfl⟩
    obtain ⟨-, hfin, hdone⟩ := h
    rw [look, if_pos hfin, undelivered_eq_nil hdone]
  | stop data =>
    obtain ⟨hnil, hreported⟩ := hq
    have hlook := @look_of_waiting codec _ _ _ h.1
    rw [goodBytes] at hnil
    rw [hnil] at hlook
    exact ⟨_, ⟨h.sound, hlook⟩, hreported.result_ending _⟩
  | fails e => exact hq.elim

/-- By any calls all of it is read, if there is nothing or the end is quiet. -/
theorem Holding.yields_of_quiet (h : Holding codec limit ending rest s)
    (hq : rest = [] ∨ ending.Quiet codec limit) : Yields codec Scheduled s rest ending.result := by
  refine tells_of_holds (fun rest s => ∃ ending', Holding codec limit ending' rest s ∧
    ending'.result = ending.result ∧ (rest = [] ∨ ending'.Quiet codec limit)) ?_ ⟨ending, h, rfl, hq⟩
  rintro call rest s hcall ⟨ending', h, hresult, hq⟩
  rw [← hresult]
  refine wp_mono (wp_perform_holding h hcall) ?_ ?_
  · rintro a t (⟨hended, hne, ⟨more, rfl⟩, ht⟩ | ⟨hended, hne, hgiven, ht⟩ | ⟨hended, hnil, hend⟩)
    · rw [List.drop_left] at ht
      rw [if_neg (by simp [hended]), List.drop_left]
      exact ⟨hne, ⟨more, rfl⟩, ending', ht, rfl,
        hq.imp (fun h => (List.append_eq_nil_iff.mp h).2) id⟩
    · rw [if_neg (by simp [hended]), hgiven, List.drop_length]
      obtain ⟨ending'', hnext, hend⟩ := ht.holding_of_quiet (hq.resolve_left hne)
      exact ⟨hne, List.prefix_refl _, ending'', hnext, hend.trans ht.result_eq.symm, .inl rfl⟩
    · rw [if_pos hended]
      exact ⟨hnil, hend.symm⟩
  · rintro e t rfl
    exact ⟨hq.resolve_right id, rfl⟩

/-- If by any calls the same is read, there is nothing or the end is quiet. -/
theorem Holding.quiet_of_yields (h : Holding codec limit ending rest s) {rest' : Bytes}
    (hall : Yields codec Scheduled s rest' stop) : rest = [] ∨ ending.Quiet codec limit := by
  obtain ⟨rfl, rfl⟩ := h.yields.unique hall fun c hc => ⟨hc, scheduled_of_byteWise hc⟩
  obtain ⟨hfront, hstop, -⟩ := hall (beyond rest) scheduled_beyond
  by_contra hno
  obtain ⟨hne, hloud⟩ := not_or.mp hno
  by_cases hclean : ending.Clean codec limit
  · -- an exception behind a false header: two bytes asked for where one is left go past it
    obtain ⟨first, x, t, rfl, ht, htell⟩ := tell_beyond h hne
    obtain ⟨data, rfl⟩ : ∃ data, ending = .stop data := by
      cases ending with
      | finished => exact absurd trivial hloud
      | stop data => exact ⟨data, rfl⟩
      | fails e => exact hclean.elim
    have hw := wp_perform_beyond ht
    cases hrun : (perform codec (.read (newArray 2) 0 2)).run t with
    | error e u => cases wp_error hw hrun
    | ok a u =>
      obtain ⟨hended, hgiven, hu⟩ := wp_ok hw hrun
      have hnext : Holding codec limit _ (goodBytes codec limit data) u :=
        ⟨hu.sound, look_of_waiting hu.1⟩
      rw [show goodBytes codec limit data = [] from hclean] at hnext
      obtain ⟨e, he, hlast⟩ := Tells.exists_stop hnext.yields (show ByteWise .readByte from rfl)
        (show ([] : Bytes).length < 1 by simp)
      rw [htell, tell_of_ok hrun hended] at hstop
      have heq := (hstop e (congrArg Prod.snd hlast)).2
      rw [he] at heq
      refine hloud ⟨hclean, ?_⟩
      cases hfound : (contents codec limit data).2 with
      | finished | stop => trivial
      | chunk y r => exact absurd hfound (contents_snd_ne_chunk y r)
      | bad | oversized =>
        rw [hfound] at heq
        cases heq
  · exact not_clean_of_beyond h hne hclean
      ⟨hfront, fun h => (hstop _ (Option.some_get (Option.isSome_iff_ne_none.mpr h)).symm).1⟩

end

/-! ## Chunks and headers in front -/

theorem magic_of_hasMagicHeaderPrefix {header : Bytes}
    (h16 : header.length = SnappyCodec.headerSize)
    (hmagic : SnappyCodec.hasMagicHeaderPrefix header = true) :
    header.take SnappyCodec.magicLen = SnappyCodec.magicHeader := by
  have hlimit : min SnappyCodec.magicLen header.length = SnappyCodec.magicLen := by
    rw [h16]
    decide
  simp only [SnappyCodec.hasMagicHeaderPrefix, hlimit, decide_eq_true_eq] at hmagic
  exact hmagic

section
variable {codec : Codec} {limit : Int} {header behind : Bytes}

theorem isValidHeader_eq (h16 : header.length = SnappyCodec.headerSize)
    (hmagic : SnappyCodec.hasMagicHeaderPrefix header = true) :
    isValidHeader header =
      if (SnappyCodec.readHeader header).version < SnappyCodec.minimumCompatibleVersion then
        .error (.snappyIOException .incompatibleVersion
          ("Compressed with an incompatible codec version " ++
            toString (SnappyCodec.readHeader header).version ++ ". At least version " ++
            toString SnappyCodec.minimumCompatibleVersion ++ " is required"))
      else .ok true := by
  have hvalid : (SnappyCodec.readHeader header).isValidMagicHeader = true := by
    have := magic_of_hasMagicHeaderPrefix h16 hmagic
    exact decide_eq_true this.symm
  simp only [isValidHeader, hvalid, if_true]

/-- A codec header between two chunks. -/
theorem judge_header (h16 : header.length = SnappyCodec.headerSize)
    (hmagic : SnappyCodec.hasMagicHeaderPrefix header = true) :
    judge codec limit (header ++ behind) =
      match isValidHeader header with
      | .ok true => .inl behind
      | .ok false => .inr (.stop behind)
      | .error e => .inr (.bad e) := by
  have hlen : (header ++ behind).length = 16 + behind.length := by
    rw [List.length_append, h16]
    rfl
  have hsize : readInt (header ++ behind) 0 = SnappyCodec.magicHeaderHead := by
    rw [← List.take_append_drop SnappyCodec.magicLen header,
      magic_of_hasMagicHeaderPrefix h16 hmagic]
    rfl
  rw [judge, if_neg (by omega)]
  simp only [hsize, if_true]
  rw [if_neg (by rw [hlen]; exact Nat.not_lt.mpr (Nat.le_add_right _ _)), ← h16]
  cases hv : isValidHeader header with
  | error e => simp only [List.take_left, hv]
  | ok valid => cases valid <;> simp only [List.take_left, List.drop_left, hv]

/-- A chunk that a `SnappyOutputStream` has written. -/
theorem judge_block (hc : codec.Lawful) {x : Bytes} (hx : x.length ≤ SnappyOutputStream.maxBlockSize) :
    judge codec limit ((Item.chunk x).encode codec ++ behind) =
      if (codec.compress x).length ≤ limit then .inr (.chunk x behind)
      else .inr (.bad (.snappyError .failedToUncompress ("Received chunkSize " ++
        formatGrouped ((codec.compress x).length : Int) ++
        " is greater than max configured chunk size " ++ formatGrouped limit))) := by
  have hM : SnappyOutputStream.maxBlockSize = 536870912 := rfl
  have hcl := hc.length_compress_le x (by omega)
  have hx' := hc.rawUncompress_compress x (by omega)
  have hlen := codec.length_rawUncompress _ _ hx'
  have hsize : readInt (intBytes (codec.compress x).length ++ (codec.compress x ++ behind)) 0 =
      (codec.compress x).length := readInt_intBytes (by omega) (by omega) _
  rw [Item.encode_chunk, List.append_assoc, judge,
    if_neg (by rw [List.length_append, length_intBytes]; omega)]
  simp only [hsize]
  rw [if_neg (by have : SnappyCodec.magicHeaderHead < 0 := SnappyCodec.magicHeaderHead_neg; omega),
    if_neg (by omega)]
  by_cases hfit : (codec.compress x).length ≤ limit
  · have hdrop : (intBytes (codec.compress x).length ++ (codec.compress x ++ behind)).drop 4 =
        codec.compress x ++ behind := rfl
    rw [if_neg (by omega), if_pos hfit, hdrop, Int.toNat_natCast, judgeChunk, if_neg (by simp),
      List.take_left, List.drop_left, hlen]
    simp only [hx', if_pos (show x.length < 2 ^ 31 by omega)]
  · rw [if_pos (by omega), if_neg hfit]

/-- The chunks of a `SnappyOutputStream` in front of anything. -/
theorem contents_blocks (hc : codec.Lawful) {bs : List Bytes}
    (hbs : ∀ y ∈ bs, y.length ≤ SnappyOutputStream.maxBlockSize)
    (hfit : ∀ y ∈ bs, (codec.compress y).length ≤ limit) :
    contents codec limit ((bs.map Item.chunk).flatMap (Item.encode codec) ++ behind) =
      (bs ++ (contents codec limit behind).1, (contents codec limit behind).2) := by
  induction bs with
  | nil => rfl
  | cons y ys ih =>
    have hnext := next_of_inr ((@judge_block codec limit
      ((ys.map Item.chunk).flatMap (Item.encode codec) ++ behind) hc y (hbs y (by simp))).trans
        (if_pos (hfit y (by simp))))
    rw [List.map_cons, List.flatMap_cons, List.append_assoc, contents_of_chunk hnext,
      ih (fun z hz => hbs z (by simp [hz])) (fun z hz => hfit z (by simp [hz]))]
    rfl

end

/-! ## The header at the start and in the middle -/

/-- Of two inputs with the same header, the second with a stream of `data` in
front of it, both read by calls of the kind `ok`: if the version is too low, the first
is rejected when it is opened and the second behind `data`; else both are opened, and
the second is read as `data` and then as the first is. -/
def JudgedAlike (codec : Codec) (limit : Int) (ok : ReadCall → Prop) (header data : Bytes)
    (first second : Source) : Prop :=
  if (SnappyCodec.readHeader header).version < SnappyCodec.minimumCompatibleVersion then
    (∃ m, new codec first limit = .error (.snappyIOException .incompatibleVersion m)) ∧
      ∃ s m, new codec second limit = .ok s ∧
        Yields codec ok s data (.failed (.snappyIOException .incompatibleVersion m))
  else
    ∃ s s' rest stop, new codec first limit = .ok s ∧ new codec second limit = .ok s' ∧
      Yields codec ok s rest stop ∧ Yields codec ok s' (data ++ rest) stop

/-- The version is high enough, the reader takes every chunk in front of the
header, and the header is not followed by a block that has lost its sign while
chunks came before it. -/
def Comparable (codec : Codec) (limit : Int) (header behind : Bytes) (bs : List Bytes) : Prop :=
  SnappyCodec.minimumCompatibleVersion ≤ (SnappyCodec.readHeader header).version ∧
    (∀ y ∈ bs, (codec.compress y).length ≤ limit) ∧
    (bs ≠ [] → contents codec limit behind ≠ ([], .oversized))

/-- Neither in front of the header nor behind it is there a byte to be had; or what
comes behind the good chunks is too short for a chunk's size, or a false codec header
with neither a byte nor an exception behind it. -/
def Unbroken (codec : Codec) (limit : Int) (behind : Bytes) (bs : List Bytes) : Prop :=
  (bs = [] ∧ goodBytes codec limit behind = []) ∨
    match (contents codec limit behind).2 with
    | .finished => True
    | .stop rest => goodBytes codec limit rest = [] ∧ (contents codec limit rest).2.Reported
    | _ => False

section
variable {codec : Codec} {limit : Int} {header behind : Bytes} {input : Source}

theorem JudgedAlike.mono {ok ok' : ReadCall → Prop} {data : Bytes} {first second : Source}
    (h : JudgedAlike codec limit ok header data first second) (hok : ∀ call, ok' call → ok call) :
    JudgedAlike codec limit ok' header data first second := by
  unfold JudgedAlike at h ⊢
  split at h
  · rename_i hv
    obtain ⟨hfirst, s, m, hs, hy⟩ := h
    rw [if_pos hv]
    exact ⟨hfirst, s, m, hs, hy.mono hok⟩
  · rename_i hv
    obtain ⟨s, s', rest, stop, hs, hs', hy, hy'⟩ := h
    rw [if_neg hv]
    exact ⟨s, s', rest, stop, hs, hs', hy.mono hok, hy'.mono hok⟩

theorem unbroken_iff_quiet (fresh : Bool) {bs : List Bytes} : Unbroken codec limit behind bs ↔
    (bs = [] ∧ goodBytes codec limit behind = []) ∨
      ((contents codec limit behind).2.ending fresh).Quiet codec limit := by
  refine or_congr Iff.rfl ?_
  cases h : (contents codec limit behind).2 with
  | chunk x rest => exact absurd h (contents_snd_ne_chunk x rest)
  | finished => exact (iff_true_intro trivial).symm
  | stop rest => exact Iff.rfl
  | bad e => exact Iff.rfl
  | oversized => exact Iff.rfl

/-- An input that begins with a codec header holds what follows it. -/
theorem exists_holding (h16 : header.length = SnappyCodec.headerSize)
    (hmagic : SnappyCodec.hasMagicHeaderPrefix header = true) (hdata : input.data = header ++ behind) :
    ∃ s, new codec input limit = .ok s ∧
      Holding codec limit ((contents codec limit behind).2.ending
        (decide ((contents codec limit behind).1 = []))) (goodBytes codec limit behind) s := by
  obtain ⟨i, hi, -, hnew⟩ := @new_header codec _ _ input limit h16 hmagic hdata
  refine ⟨_, hnew, sound_new hnew, ?_⟩
  have hw : Waiting limit behind { initial input limit with input := i, header := header } :=
    ⟨⟨rfl, h16, Nat.le_refl _, Nat.zero_le _⟩, rfl, Nat.le_refl _, hi⟩
  rw [look_of_waiting hw]
  simp [initial, goodBytes]

theorem contents_header (h16 : header.length = SnappyCodec.headerSize)
    (hmagic : SnappyCodec.hasMagicHeaderPrefix header = true)
    (hv : SnappyCodec.minimumCompatibleVersion ≤ (SnappyCodec.readHeader header).version) :
    contents codec limit (header ++ behind) = contents codec limit behind := by
  have hj := @judge_header codec limit header behind h16 hmagic
  rw [isValidHeader_eq h16 hmagic, if_neg (by omega)] at hj
  have hn := next_of_inl hj
  by_cases hc : ∃ x rest, next codec limit behind = .chunk x rest
  · obtain ⟨x, rest, hc⟩ := hc
    rw [contents_of_chunk (hn.trans hc), contents_of_chunk hc]
  · have hc' : ∀ x rest, next codec limit behind ≠ .chunk x rest := fun x rest h => hc ⟨x, rest, h⟩
    rw [contents_of_ne_chunk (by rw [hn]; exact hc'), contents_of_ne_chunk hc', hn]

theorem ending_result_eq {found : Find} {fresh fresh' : Bool} :
    (found.ending fresh).result = (found.ending fresh').result ↔
      found ≠ .oversized ∨ fresh = fresh' := by
  cases found <;> cases fresh <;> cases fresh' <;> simp [Find.ending, Ending.result]

/-- Behind chunks of which one is too large not all of their bytes are read. -/
theorem exists_yields_tooLarge (hc : codec.Lawful) {bs : List Bytes}
    (hbs : ∀ y ∈ bs, y ≠ [] ∧ y.length ≤ SnappyOutputStream.maxBlockSize)
    (hlarge : ¬ ∀ y ∈ bs, (codec.compress y).length ≤ limit)
    (hdata : input.data = stream codec bs ++ behind) :
    ∃ s rest stop, new codec input limit = .ok s ∧ Yields codec ByteWise s rest stop ∧
      rest.length < bs.flatten.length := by
  obtain ⟨pre, y, post, rfl, hfit, hy⟩ := exists_tooLarge hlarge
  have hnext := next_of_inr ((@judge_block codec limit
    ((post.map Item.chunk).flatMap (Item.encode codec) ++ behind) hc y (hbs y (by simp)).2).trans
      (if_neg (by omega)))
  have hcontents := @contents_blocks codec limit ((Item.chunk y).encode codec ++
    ((post.map Item.chunk).flatMap (Item.encode codec) ++ behind)) hc pre
    (fun z hz => (hbs z (by simp [hz])).2) hfit
  rw [contents_of_bad hnext, List.append_nil] at hcontents
  obtain ⟨s, hs, hholds⟩ := @exists_holding codec limit SnappyCodec.currentHeader.headerArray
    ((pre.map Item.chunk).flatMap (Item.encode codec) ++ ((Item.chunk y).encode codec ++
      ((post.map Item.chunk).flatMap (Item.encode codec) ++ behind))) input
    SnappyCodec.length_headerArray_currentHeader SnappyCodec.hasMagicHeaderPrefix_headerArray
    (by rw [hdata, stream]; simp only [List.map_append, List.map_cons, List.flatMap_append,
          List.flatMap_cons, List.append_assoc])
  rw [goodBytes, hcontents] at hholds
  refine ⟨s, _, _, hs, hholds.yields, ?_⟩
  have hpos := List.length_pos_iff.mpr (hbs y (by simp)).1
  show pre.flatten.length < _
  rw [List.flatten_append, List.flatten_cons, List.length_append, List.length_append]
  omega

/-- The stream of a `SnappyOutputStream` and a header in front of it: what is held. -/
theorem exists_holding_blocks (hc : codec.Lawful) {bs : List Bytes}
    (hbs : ∀ y ∈ bs, y ≠ [] ∧ y.length ≤ SnappyOutputStream.maxBlockSize)
    (hfit : ∀ y ∈ bs, (codec.compress y).length ≤ limit)
    (h16 : header.length = SnappyCodec.headerSize)
    (hmagic : SnappyCodec.hasMagicHeaderPrefix header = true)
    (hv : SnappyCodec.minimumCompatibleVersion ≤ (SnappyCodec.readHeader header).version)
    (hdata : input.data = stream codec bs ++ (header ++ behind)) :
    ∃ s, new codec input limit = .ok s ∧
      Holding codec limit ((contents codec limit behind).2.ending
        (decide (bs ++ (contents codec limit behind).1 = [])))
        (bs.flatten ++ goodBytes codec limit behind) s := by
  have hcontents := @contents_blocks codec limit (header ++ behind) hc bs
    (fun y hy => (hbs y hy).2) hfit
  rw [contents_header h16 hmagic hv] at hcontents
  obtain ⟨s, hs, hholds⟩ := @exists_holding codec limit SnappyCodec.currentHeader.headerArray
    ((bs.map Item.chunk).flatMap (Item.encode codec) ++ (header ++ behind)) input
    SnappyCodec.length_headerArray_currentHeader SnappyCodec.hasMagicHeaderPrefix_headerArray
    (by rw [hdata, stream, List.append_assoc])
  rw [goodBytes, hcontents, List.flatten_append] at hholds
  exact ⟨s, hs, hholds⟩

/-- Read byte by byte, of the stream of a `SnappyOutputStream` in front of it a header
makes no difference just in case the two are comparable. -/
theorem judgedAlike_byteWise_iff (hc : codec.Lawful) {bs : List Bytes}
    (hbs : ∀ y ∈ bs, y ≠ [] ∧ y.length ≤ SnappyOutputStream.maxBlockSize) {first second : Source}
    (h16 : header.length = SnappyCodec.headerSize)
    (hmagic : SnappyCodec.hasMagicHeaderPrefix header = true)
    (hfirst : first.data = header ++ behind)
    (hsecond : second.data = stream codec bs ++ (header ++ behind)) :
    JudgedAlike codec limit ByteWise header bs.flatten first second ↔
      Comparable codec limit header behind bs := by
  obtain ⟨s, hs, hholds⟩ := @exists_holding codec limit _ _ first h16 hmagic hfirst
  have hyields := hholds.yields
  by_cases hv : (SnappyCodec.readHeader header).version < SnappyCodec.minimumCompatibleVersion
  · -- opening asks for the magic only
    rw [JudgedAlike, if_pos hv]
    refine iff_of_false ?_ (fun h => absurd h.1 (by omega))
    rintro ⟨⟨m, hm⟩, -⟩
    rw [hs] at hm
    cases hm
  rw [JudgedAlike, if_neg hv]
  by_cases hfit : ∀ y ∈ bs, (codec.compress y).length ≤ limit
  · obtain ⟨s', hs', hholds'⟩ := exists_holding_blocks hc hbs hfit h16 hmagic (by omega) hsecond
    have hyields' := hholds'.yields
    have hends : (∃ s s' rest e, new codec first limit = .ok s ∧ new codec second limit = .ok s' ∧
        Yields codec ByteWise s rest e ∧ Yields codec ByteWise s' (bs.flatten ++ rest) e) ↔
        ((contents codec limit behind).2.ending
            (decide ((contents codec limit behind).1 = []))).result =
          ((contents codec limit behind).2.ending
            (decide (bs ++ (contents codec limit behind).1 = []))).result := by
      constructor
      · rintro ⟨t, t', rest, e, ht, ht', hr, hr'⟩
        obtain rfl := Except.ok.inj (hs.symm.trans ht)
        obtain rfl := Except.ok.inj (hs'.symm.trans ht')
        rw [(hyields.unique hr fun _ h => ⟨h, h⟩).2, (hyields'.unique hr' fun _ h => ⟨h, h⟩).2]
      · intro he
        rw [← he] at hyields'
        exact ⟨s, s', _, _, hs, hs', hyields, hyields'⟩
    rw [hends, ending_result_eq, Comparable]
    simp only [List.append_eq_nil_iff, decide_eq_decide, ne_eq, Prod.ext_iff]
    constructor
    · intro h
      refine ⟨by omega, hfit, fun hne hover => ?_⟩
      rcases h with h | h
      · exact h hover.2
      · exact hne (h.mp hover.1).1
    · rintro ⟨-, -, h⟩
      by_cases hover : (contents codec limit behind).2 = .oversized
      · right
        refine ⟨fun hnil => ⟨?_, hnil⟩, fun hnil => hnil.2⟩
        by_contra hne
        exact h hne ⟨hnil, hover⟩
      · exact .inl hover
  · refine iff_of_false ?_ (fun h => hfit h.2.1)
    rintro ⟨t, t', rest, e, ht, ht', -, hr'⟩
    obtain ⟨s', rest', e', hs', hyields', hlt⟩ := exists_yields_tooLarge hc hbs hfit hsecond
    obtain rfl := Except.ok.inj (hs'.symm.trans ht')
    have := congrArg List.length (hyields'.unique hr' fun _ h => ⟨h, h⟩).1
    rw [List.length_append] at this
    omega

/-- Read by any calls, it makes none just in case no call loses what it has copied,
too. -/
theorem judgedAlike_scheduled_iff (hc : codec.Lawful) {bs : List Bytes}
    (hbs : ∀ y ∈ bs, y ≠ [] ∧ y.length ≤ SnappyOutputStream.maxBlockSize) {first second : Source}
    (h16 : header.length = SnappyCodec.headerSize)
    (hmagic : SnappyCodec.hasMagicHeaderPrefix header = true)
    (hfirst : first.data = header ++ behind)
    (hsecond : second.data = stream codec bs ++ (header ++ behind)) :
    JudgedAlike codec limit Scheduled header bs.flatten first second ↔
      Comparable codec limit header behind bs ∧ Unbroken codec limit behind bs := by
  have hnil : bs.flatten = [] ↔ bs = [] := by
    refine ⟨fun h => ?_, fun h => by rw [h, List.flatten_nil]⟩
    cases bs with
    | nil => rfl
    | cons y ys => exact absurd (List.append_eq_nil_iff.mp h).1 (hbs y (by simp)).1
  have hbyteWise := @judgedAlike_byteWise_iff codec limit header behind hc bs hbs first second h16
    hmagic hfirst hsecond
  rw [← hbyteWise]
  constructor
  · intro h
    have hb := h.mono fun _ => scheduled_of_byteWise
    obtain ⟨hv, hfit, -⟩ := hbyteWise.mp hb
    obtain ⟨s', hs', hholds'⟩ := exists_holding_blocks hc hbs hfit h16 hmagic hv hsecond
    rw [JudgedAlike, if_neg (by omega)] at h
    obtain ⟨t, t', rest, stop, ht, ht', -, hr'⟩ := h
    obtain rfl := Except.ok.inj (hs'.symm.trans ht')
    have hquiet := hholds'.quiet_of_yields hr'
    rw [List.append_eq_nil_iff, hnil] at hquiet
    exact ⟨hb, (unbroken_iff_quiet _).mpr hquiet⟩
  · rintro ⟨hb, hunbroken⟩
    obtain ⟨hv, hfit, -⟩ := hbyteWise.mp hb
    obtain ⟨s, hs, hholds⟩ := @exists_holding codec limit _ _ first h16 hmagic hfirst
    obtain ⟨s', hs', hholds'⟩ := exists_holding_blocks hc hbs hfit h16 hmagic hv hsecond
    rw [JudgedAlike, if_neg (by omega)] at hb ⊢
    obtain ⟨t, t', rest, stop, ht, ht', hr, hr'⟩ := hb
    obtain rfl := Except.ok.inj (hs.symm.trans ht)
    obtain rfl := Except.ok.inj (hs'.symm.trans ht')
    have hstop := (hholds.yields.unique hr fun _ h => ⟨h, h⟩).2
    have hstop' := (hholds'.yields.unique hr' fun _ h => ⟨h, h⟩).2
    have hy := hholds.yields_of_quiet (((unbroken_iff_quiet _).mp hunbroken).imp And.right id)
    have hy' := hholds'.yields_of_quiet (((unbroken_iff_quiet _).mp hunbroken).imp
      (fun h => by rw [hnil.mpr h.1, h.2, List.append_nil]) id)
    rw [hstop] at hy
    rw [hstop'] at hy'
    exact ⟨s, s', _, stop, hs, hs', hy, hy'⟩

/-- The output of any `SnappyOutputStream` in front of a header makes no difference to
it: read byte by byte just in case the two are comparable, and read by any calls just
in case, too, no call meets something bad behind bytes it has copied already. -/
theorem judgedAlike_iff_comparable (hc : codec.Lawful) {allocate : Nat → Bytes}
    (ha : SnappyOutputStream.ExactAllocator allocate) {x : BlockFormat.Session} (hmin : 1024 ≤ x.blockSize)
    (hmax : x.blockSize ≤ SnappyOutputStream.maxBlockSize) (hr : ∀ c ∈ x.calls, c.InRange)
    {out : Bytes} (hout : x.output codec allocate = .ok out) {first second : Source}
    (h16 : header.length = SnappyCodec.headerSize)
    (hmagic : SnappyCodec.hasMagicHeaderPrefix header = true)
    (hfirst : first.data = header ++ behind) (hsecond : second.data = out ++ (header ++ behind)) :
    (JudgedAlike codec limit ByteWise header x.data first second ↔
      Comparable codec limit header behind x.written) ∧
    (JudgedAlike codec limit Scheduled header x.data first second ↔
      Comparable codec limit header behind x.written ∧ Unbroken codec limit behind x.written) := by
  have hok : x.Ok (Snappy.maxCompressedLength x.blockSize) := ⟨hmin, hmax, Int.le_refl _, hr⟩
  have hbs : ∀ y ∈ x.written, y ≠ [] ∧ y.length ≤ SnappyOutputStream.maxBlockSize := by
    intro y hy
    have := BlockFormat.Session.items_ok hc.toBounded hok (.chunk y)
      (List.mem_cons_of_mem _ (List.mem_map_of_mem hy))
    exact ⟨this.1, this.2.1⟩
  have hdata : x.written.flatten = x.data := by
    rw [← BlockFormat.Session.flatMap_data_items hok]
    simp only [BlockFormat.Session.items, List.flatMap_cons, List.flatMap_map, Item.data, List.nil_append,
      List.flatMap_id']
  rw [BlockFormat.Session.output_eq hc.toBounded ha hok] at hout
  obtain rfl := Except.ok.inj hout
  rw [← hdata]
  exact ⟨judgedAlike_byteWise_iff hc hbs h16 hmagic hfirst hsecond,
    judgedAlike_scheduled_iff hc hbs h16 hmagic hfirst hsecond⟩

end

/-- A header of version 0. -/
def oldHeader : Bytes := SnappyCodec.magicHeader ++ intBytes 0 ++ intBytes 0

def oldHeaderFirst : Source := ⟨oldHeader, []⟩

def oldHeaderSecond : Source := ⟨stream literalCodec [[7, 8, 9]] ++ oldHeader, []⟩

theorem judgedAlike_iff_comparable_oldHeader :
    (JudgedAlike literalCodec defaultMaxChunkSize ByteWise oldHeader threeBytes.data oldHeaderFirst
        oldHeaderSecond ↔
      Comparable literalCodec defaultMaxChunkSize oldHeader [] threeBytes.written) ∧
    (JudgedAlike literalCodec defaultMaxChunkSize Scheduled oldHeader threeBytes.data oldHeaderFirst
        oldHeaderSecond ↔
      Comparable literalCodec defaultMaxChunkSize oldHeader [] threeBytes.written ∧
        Unbroken literalCodec defaultMaxChunkSize [] threeBytes.written) :=
  judgedAlike_iff_comparable LiteralCodec.lawful SnappyOutputStream.exactAllocator_newArray
    (by decide) (by decide) (by decide) threeBytes_output (by decide) (by decide) rfl rfl

/-- The reader behind the first header of the second input. -/
def oldHeaderReader : SnappyInputStream :=
  { initial oldHeaderSecond defaultMaxChunkSize with
    input := ⟨([[7, 8, 9]].map Item.chunk).flatMap (Item.encode literalCodec) ++ oldHeader, []⟩
    header := SnappyCodec.currentHeader.headerArray }

/-- A header of version 0 is let in at the start, and rejected behind a block. -/
theorem oldHeader_let_in :
    (∃ s, new literalCodec oldHeaderFirst defaultMaxChunkSize = .ok s ∧
      tell (perform literalCodec) [.readByte] s = ([], some .ended)) ∧
    new literalCodec oldHeaderSecond defaultMaxChunkSize = .ok oldHeaderReader ∧
    tell (perform literalCodec) (List.replicate 4 .readByte) oldHeaderReader =
      ([7, 8, 9], some (.failed (.snappyIOException .incompatibleVersion
        "Compressed with an incompatible codec version 0. At least version 1 is required"))) ∧
    ¬ JudgedAlike literalCodec defaultMaxChunkSize ByteWise oldHeader threeBytes.data oldHeaderFirst
      oldHeaderSecond := by
  have hfirst : ∃ s, new literalCodec oldHeaderFirst defaultMaxChunkSize = .ok s ∧
      tell (perform literalCodec) [.readByte] s = ([], some .ended) := ⟨_, rfl, by rfl⟩
  refine ⟨hfirst, by rfl, by decide +kernel, ?_⟩
  obtain ⟨s, hs, -⟩ := hfirst
  rw [JudgedAlike, if_pos (by decide)]
  rintro ⟨⟨m, hm⟩, -⟩
  rw [hs] at hm
  cases hm

end SnappyJava.SnappyInputStream
