import SnappyJava.FramesAhead

/-! What a `SnappyFramedInputStream` does with the buffers of its pool, where any
allocation may fail. The fields are released first and assigned anew after the
allocations, so a failure in between leaves fields that have been given back. -/

namespace SnappyJava.SnappyFramedInputStream

open Exec Memory Words Leases

def idOf (l : Option Lease) : List Nat := l.toList.map Lease.id

/-- The numbers of the buffers behind the three fields. -/
def fieldIds (s : SnappyFramedInputStream) : List Nat :=
  idOf s.input ++ (idOf s.uncompressedDirect ++ idOf s.buffer)

/-- The buffers behind the fields are the stream's, and all it has done with
buffers so far is in order. -/
def Standing (s : SnappyFramedInputStream) : Prop := Holding s.poolEvents (fieldIds s) s.allocations

/-- No field refers to a buffer that has been given back. -/
def NoneReleased (s : SnappyFramedInputStream) : Prop :=
  ∀ id ∈ fieldIds s, Event.release id ∉ s.poolEvents

instance (s : SnappyFramedInputStream) : Decidable (NoneReleased s) :=
  inferInstanceAs (Decidable (∀ id ∈ fieldIds s, Event.release id ∉ s.poolEvents))

/-- What a call leaves that throws. -/
def Left (s : SnappyFramedInputStream) : Prop :=
  Disciplined s.poolEvents ∧ (NoneReleased s → Standing s)

/-- In the middle of a reallocation: `held` are the stream's, and every field
refers to one of these or to a buffer that has been given back. -/
structure Lent (held : List Nat) (s : SnappyFramedInputStream) : Prop where
  holding : Holding s.poolEvents held s.allocations
  nodup : (fieldIds s).Nodup
  lt : ∀ id ∈ fieldIds s, id < s.allocations
  known : ∀ id ∈ fieldIds s, id ∈ held ∨ Event.release id ∈ s.poolEvents

section
variable {platform : Platform} {s t : SnappyFramedInputStream} {held : List Nat}

theorem Standing.lent (h : Standing s) : Lent (fieldIds s) s :=
  ⟨h, h.nodup, h.held_lt, fun _ => .inl⟩

theorem Lent.standing (h : Lent held s) (hall : ∀ id ∈ fieldIds s, id ∈ held) : Standing s :=
  h.holding.subset h.nodup hall

theorem Lent.left (h : Lent held s) : Left s :=
  ⟨h.holding.disciplined, fun hnone =>
    h.standing fun id hid => (h.known id hid).resolve_right (hnone id hid)⟩

theorem Standing.left (h : Standing s) : Left s := h.lent.left

/-- Fields may be cleared. -/
theorem Lent.clear (h : Lent held s) (hevents : t.poolEvents = s.poolEvents)
    (hallocations : t.allocations = s.allocations) (hsub : (fieldIds t).Sublist (fieldIds s)) :
    Lent held t where
  holding := by rw [hevents, hallocations]; exact h.holding
  nodup := h.nodup.sublist hsub
  lt := by rw [hallocations]; exact fun id hid => h.lt id (hsub.subset hid)
  known := by rw [hevents]; exact fun id hid => h.known id (hsub.subset hid)

theorem Lent.perm (h : Lent held s) {held' : List Nat} (hp : held.Perm held') : Lent held' s where
  holding := h.holding.subset (hp.nodup_iff.mp h.holding.nodup) fun _ hid => hp.mem_iff.mpr hid
  nodup := h.nodup
  lt := h.lt
  known id hid := (h.known id hid).imp_left hp.mem_iff.mp

@[simp] theorem input_gaveBack (l : Option Lease) : (s.gaveBack l).input = s.input := by
  cases l <;> rfl

@[simp] theorem uncompressedDirect_gaveBack (l : Option Lease) :
    (s.gaveBack l).uncompressedDirect = s.uncompressedDirect := by
  cases l <;> rfl

@[simp] theorem buffer_gaveBack (l : Option Lease) : (s.gaveBack l).buffer = s.buffer := by
  cases l <;> rfl

theorem Lent.gaveBack {l : Option Lease} (h : Lent (idOf l ++ held) s) : Lent held (s.gaveBack l) := by
  cases l with
  | none => exact h
  | some l =>
    have hrelease := h.holding.release (List.mem_cons_self : l.id ∈ idOf (some l) ++ held)
    rw [idOf, Option.toList_some, List.map_singleton, List.singleton_append,
      List.erase_cons_head] at hrelease
    refine ⟨hrelease, h.nodup, h.lt, fun id hid => ?_⟩
    rcases h.known id hid with hin | hin
    · rcases List.mem_cons.mp hin with rfl | hin
      · exact .inr (List.mem_append_right _ List.mem_cons_self)
      · exact .inl hin
    · exact .inr (List.mem_append_left _ hin)

/-- An allocation that failed. -/
theorem Lent.skip (h : Lent held s) : Lent held { s with allocations := s.allocations + 1 } :=
  ⟨h.holding.skip, h.nodup, fun id hid => Nat.lt_succ_of_lt (h.lt id hid), h.known⟩

/-- An allocation that succeeded, whose buffer goes into a field; the other
fields are `kept`. -/
theorem Lent.place (h : Lent held s) (kept : List Nat)
    (hevents : t.poolEvents = s.poolEvents ++ [.acquire s.allocations])
    (hallocations : t.allocations = s.allocations + 1)
    (hperm : (fieldIds t).Perm (s.allocations :: kept)) (hsub : kept.Sublist (fieldIds s)) :
    Lent (s.allocations :: held) t where
  holding := by rw [hevents, hallocations]; exact h.holding.acquire
  nodup := by
    rw [hperm.nodup_iff, List.nodup_cons]
    exact ⟨fun hin => lt_irrefl _ (h.lt _ (hsub.subset hin)), h.nodup.sublist hsub⟩
  lt id hid := by
    rw [hallocations]
    rcases List.mem_cons.mp (hperm.mem_iff.mp hid) with rfl | hin
    · exact Nat.lt_succ_self _
    · exact Nat.lt_succ_of_lt (h.lt id (hsub.subset hin))
  known id hid := by
    rw [hevents]
    rcases List.mem_cons.mp (hperm.mem_iff.mp hid) with rfl | hin
    · exact .inl List.mem_cons_self
    · exact (h.known id (hsub.subset hin)).imp (List.mem_cons_of_mem _) (List.mem_append_left _)

/-! ## The operations on the buffers -/

theorem wp_releaseField_lent {field : SnappyFramedInputStream → Option Lease} (held : List Nat)
    (h : Lent (idOf (field s) ++ held) s) {Q : Unit → SnappyFramedInputStream → Prop}
    {E : Throwable → SnappyFramedInputStream → Prop}
    (hQ : Lent held (s.gaveBack (field s)) → Q () (s.gaveBack (field s))) :
    wp (releaseField field) Q E s := wp_releaseField_gaveBack (hQ h.gaveBack)

theorem wp_allocate_lent {answer : Nat → Nat → Except Throwable Bytes} {size : Nat}
    {Q : Lease → SnappyFramedInputStream → Prop} (h : Lent held s)
    (hQ : ∀ b, Q ⟨s.allocations, b⟩ { s with
      allocations := s.allocations + 1
      poolEvents := s.poolEvents ++ [.acquire s.allocations] }) :
    wp (allocate answer size) Q (fun _ => Left) s :=
  wp_allocate_cases (fun b _ => hQ b) fun _ => h.skip.left

/-- The constructor may start with no buffers at all. -/
theorem upholds_basedOnSize (size : Nat) :
    Upholds Standing Left (allocateBuffersBasedOnSize platform size) := by
  intro s hs
  simp only [allocateBuffersBasedOnSize, wp_bind, wp_modify]
  refine wp_releaseField_lent _ hs.lent fun h₁ => ?_
  refine wp_releaseField_lent _ (by rwa [uncompressedDirect_gaveBack]) fun h₂ => ?_
  refine wp_releaseField_lent [] ?_ fun h₃ => ?_
  · rwa [buffer_gaveBack, buffer_gaveBack, List.append_nil]
  generalize ((s.gaveBack s.input).gaveBack _).gaveBack _ = t at h₃ ⊢
  refine wp_allocate_lent h₃ fun i => ?_
  have h₄ : Lent [t.allocations] { t with
      input := some ⟨t.allocations, i⟩
      allocations := t.allocations + 1, poolEvents := t.poolEvents ++ [.acquire t.allocations] } :=
    h₃.place _ rfl rfl (List.Perm.refl _) (List.sublist_append_right _ _)
  refine wp_allocate_lent h₄ fun d => ?_
  have h₅ : Lent [t.allocations + 1, t.allocations] { t with
      input := some ⟨t.allocations, i⟩
      uncompressedDirect := some ⟨t.allocations + 1, d⟩
      allocations := t.allocations + 1 + 1
      poolEvents := t.poolEvents ++ [.acquire t.allocations] ++ [.acquire (t.allocations + 1)] } :=
    h₄.place (t.allocations :: idOf t.buffer) rfl rfl (List.Perm.swap _ _ _)
      ((List.sublist_append_right _ _).cons_cons _)
  refine wp_allocate_lent h₅ fun b => ?_
  have h₆ : Lent [t.allocations + 1 + 1, t.allocations + 1, t.allocations] { t with
      input := some ⟨t.allocations, i⟩
      uncompressedDirect := some ⟨t.allocations + 1, d⟩
      buffer := some ⟨t.allocations + 1 + 1, b⟩
      allocations := t.allocations + 1 + 1 + 1
      poolEvents := t.poolEvents ++ [.acquire t.allocations] ++ [.acquire (t.allocations + 1)] ++
        [.acquire (t.allocations + 1 + 1)] } :=
    h₅.place [t.allocations, t.allocations + 1] rfl rfl
      (@List.perm_append_comm _ [t.allocations, t.allocations + 1] _) (List.sublist_append_left _ _)
  refine h₆.standing fun id hid => ?_
  have hid' : id ∈ [t.allocations, t.allocations + 1, t.allocations + 1 + 1] := hid
  simp only [List.mem_cons, List.not_mem_nil, or_false] at hid' ⊢
  omega

/-- `input` stays. -/
theorem upholds_reallocateForBlock (uncompressedLength : Nat) :
    Upholds Standing Left (reallocateForBlock platform uncompressedLength) := by
  intro s hs
  simp only [reallocateForBlock, wp_bind, wp_modify]
  have h₀ : Lent (idOf s.uncompressedDirect ++ (idOf s.buffer ++ idOf s.input)) s :=
    hs.lent.perm (List.perm_append_comm.trans (by rw [List.append_assoc]))
  refine wp_releaseField_lent _ h₀ fun h₁ => ?_
  refine wp_releaseField_lent (idOf s.input) (by rwa [buffer_gaveBack]) fun h₂ => ?_
  have hinput : ((s.gaveBack s.uncompressedDirect).gaveBack
      (s.gaveBack s.uncompressedDirect).buffer).input = s.input := by
    rw [input_gaveBack, input_gaveBack]
  generalize (s.gaveBack s.uncompressedDirect).gaveBack _ = t at h₂ hinput ⊢
  rw [← hinput] at h₂
  refine wp_allocate_lent h₂ fun d => ?_
  have h₃ : Lent (t.allocations :: idOf t.input) { t with
      uncompressedDirect := some ⟨t.allocations, d⟩
      allocations := t.allocations + 1, poolEvents := t.poolEvents ++ [.acquire t.allocations] } :=
    h₂.place (idOf t.input ++ idOf t.buffer) rfl rfl List.perm_middle
      ((List.sublist_append_right _ _).append_left _)
  refine wp_allocate_lent h₃ fun b => ?_
  have hperm : (idOf t.input ++ ([t.allocations] ++ [t.allocations + 1])).Perm
      ((t.allocations + 1) :: (idOf t.input ++ [t.allocations])) := by
    rw [← List.append_assoc]
    exact List.perm_append_singleton _ _
  have h₄ : Lent ((t.allocations + 1) :: t.allocations :: idOf t.input) { t with
      uncompressedDirect := some ⟨t.allocations, d⟩
      buffer := some ⟨t.allocations + 1, b⟩
      allocations := t.allocations + 1 + 1
      poolEvents := t.poolEvents ++ [.acquire t.allocations] ++ [.acquire (t.allocations + 1)] } :=
    h₃.place (idOf t.input ++ [t.allocations]) rfl rfl hperm
      ((List.sublist_append_left _ _).append_left _)
  refine h₄.standing fun id hid => ?_
  have hid' : id ∈ idOf t.input ++ [t.allocations, t.allocations + 1] := hid
  simp only [List.mem_append, List.mem_cons, List.not_mem_nil, or_false] at hid' ⊢
  tauto

theorem idOf_eq (l : Option Lease) : idOf l = (l.map Lease.id).toList := by
  cases l <;> rfl

/-- It speaks of the numbers only. -/
theorem Standing.frame (h : Standing s) (hids : fieldIds t = fieldIds s)
    (hevents : t.poolEvents = s.poolEvents) (hallocations : t.allocations = s.allocations) :
    Standing t := by
  rw [Standing, hids, hevents, hallocations]
  exact h

theorem SameLeases.fieldIds_eq (h : SameLeases s t) : fieldIds t = fieldIds s := by
  have hdest := congrArg (Option.map Prod.fst) h.uncompressedDirect
  simp only [Option.map_map, Function.comp_def] at hdest
  simp only [fieldIds, idOf_eq]
  rw [h.input, h.buffer, hdest]

theorem Has.mem_fieldIds {l : Lease} (h : Has s l) : l.id ∈ fieldIds s := by
  simp only [fieldIds, List.mem_append]
  rcases h with h | h | h
  · exact .inl (by rw [h]; exact List.mem_cons_self)
  · exact .inr (.inl (by rw [h]; exact List.mem_cons_self))
  · exact .inr (.inr (by rw [h]; exact List.mem_cons_self))

theorem Standing.used {l : Lease} (h : Standing s) (hl : Has s l) : Standing (used s l.id) :=
  Holding.use h hl.mem_fieldIds

theorem handling_standing : Handling Standing Left where
  leaves _ h := h.left
  same h hst := h.frame hst.fieldIds_eq hst.poolEvents hst.allocations
  use hl h := h.used hl

theorem upholds_uncompress (payload : Bytes) :
    Upholds Standing Left (uncompress platform.codec payload) := by
  intro s h
  simp only [uncompress, wp_bind, wp_modify]
  refine wp_access_has (fun i hi => ?_) (fun _ => h.left)
  have hinput := h.used (.inl hi)
  refine wp_access_has (fun l hl => ?_) (fun _ => hinput.left)
  have hdest : s.uncompressedDirect = some l := hl
  have hcalled : ∀ (xs : Bytes) (calls : List UncompressCall),
      Standing { (s.used i.id).used l.id with
        uncompressedDirect := some ⟨l.id, xs⟩, uncompressCalls := calls } := fun xs calls =>
    (hinput.used (.inr (.inl hl))).frame (by simp only [fieldIds, used, hdest]; rfl) rfl rfl
  cases (Snappy.uncompress platform.codec payload l.contents).1 with
  | error e => exact (hcalled _ _).left
  | ok n => exact hcalled _ _

theorem upholds_uncompressFrame (payload : Bytes) :
    Upholds Standing Left (uncompressFrame platform payload) := by
  have h := handling_standing
  refine Upholds.bind (h.accessInput) fun _ => ?_
  refine Upholds.bind (Upholds.fromExcept h.leaves _) fun _ => Upholds.bind Upholds.get fun _ => ?_
  refine Upholds.bind (Upholds.when (upholds_reallocateForBlock _)) fun _ => ?_
  refine Upholds.bind (upholds_uncompress payload) fun _ => ?_
  refine Upholds.bind (Upholds.update fun _ ht => ht.frame rfl rfl rfl) fun _ => ?_
  refine Upholds.bind (h.access fun _ _ hl => .inr (.inl hl)) fun _ => ?_
  exact Upholds.bind (h.copyToBuffer _) fun _ => Upholds.update fun _ ht => ht.frame rfl rfl rfl

/-- A field is cleared after its buffer has gone back. -/
theorem wp_releaseField_clear {field : SnappyFramedInputStream → Option Lease}
    {f : SnappyFramedInputStream → SnappyFramedInputStream} {E : Throwable → SnappyFramedInputStream → Prop}
    {Q : Unit → SnappyFramedInputStream → Prop} (h : Standing s)
    (hperm : (fieldIds s).Perm (idOf (field s) ++ fieldIds (f s)))
    (hids : ∀ l, fieldIds (f (s.gaveBack l)) = fieldIds (f s))
    (hf : ∀ t, (f t).poolEvents = t.poolEvents ∧ (f t).allocations = t.allocations)
    (hQ : ∀ t, Standing (f t) → Q () t) : wp (releaseField field) Q E s := by
  refine wp_releaseField_lent (fieldIds (f s)) (h.lent.perm hperm) fun hlent => hQ _ ?_
  rw [Standing, hids, (hf _).1, (hf _).2]
  exact hlent.holding

theorem upholds_close (sourceFails : Bool) : Upholds Standing Left (close sourceFails) := by
  have hfinally : ∀ s, Standing s → wp (do
      let s ← get
      when (s.closed = false) do
        modify fun s => { s with closed := true }
        releaseField SnappyFramedInputStream.input
        modify fun s => { s with input := none }
        releaseField SnappyFramedInputStream.uncompressedDirect
        modify fun s => { s with uncompressedDirect := none }
        releaseField SnappyFramedInputStream.buffer
        modify fun s => { s with buffer := none } : Method Unit)
      (fun _ => Standing) (fun _ _ => False) s := by
    intro s h
    simp only [wp_bind, wp_get, wp_when, wp_modify]
    split
    · have h₀ : Standing { s with closed := true } := h.frame rfl rfl rfl
      refine wp_releaseField_clear (f := fun s => { s with input := none }) h₀ (List.Perm.refl _)
        (fun l => by cases l <;> rfl) (fun _ => ⟨rfl, rfl⟩) fun t ht => ?_
      refine wp_releaseField_clear (f := fun s => { s with uncompressedDirect := none }) ht
        (List.Perm.refl _) (fun l => by cases l <;> rfl) (fun _ => ⟨rfl, rfl⟩) fun u hu => ?_
      refine wp_releaseField_clear (f := fun s => { s with buffer := none }) hu
        ?_ (fun l => by cases l <;> rfl) (fun _ => ⟨rfl, rfl⟩) fun v hv => ?_
      · show (idOf u.input ++ ([] ++ idOf u.buffer)).Perm (idOf u.buffer ++ (idOf u.input ++ ([] ++ [])))
        rw [List.nil_append, List.append_nil, List.append_nil]
        exact List.perm_append_comm
      · exact hv
    · exact h
  intro s h
  simp only [close, wp_ensuring, wp_ite, wp_throw, wp_pure]
  split
  · exact wp_mono (hfinally s h) (fun _ t ht => ht.left) (fun _ _ hf => hf.elim)
  · exact wp_mono (hfinally s h) (fun _ t ht => ht) (fun _ _ hf => hf.elim)

theorem upkeep_standing : Upkeep platform Standing Left :=
  { handling_standing with
    basedOnSize := upholds_basedOnSize
    uncompressFrame := upholds_uncompressFrame
    close := upholds_close }

/-! ## Calls that come to no buffer -/

theorem SameLeases.refl (s : SnappyFramedInputStream) : SameLeases s s :=
  ⟨rfl, rfl, rfl, rfl, rfl, rfl, rfl⟩

/-- There is nothing in the buffer, and what is next in the channel is no header
of a frame: the stream ends, or stops within the header, or the header is refused. -/
def Untouched (s : SnappyFramedInputStream) : Prop :=
  s.availableNow ≤ 0 ∧ (s.eof = true ∨ s.rbc.data.length < 4 ∨
    ∃ e, getFrameMetaData (s.rbc.data.take 4) = .error e)

/-- The call returns or throws before it comes to a buffer. -/
def ComesToNoBuffer (c : ReadCall) (s : SnappyFramedInputStream) : Prop :=
  match c with
  | .readByte => s.closed = true ∨ Untouched s
  | .read output offset length =>
    (offset < 0 ∨ length < 0 ∨ wrap32 (offset + length) > output.length) ∨ s.closed = true ∨
      length = 0 ∨ Untouched s
  | .readBuffer dst => s.closed = true ∨ dst.remaining = 0 ∨ Untouched s
  | .transferToStream _ => s.closed = true ∨ Untouched s
  | .transferToChannel _ => s.closed = true ∨ Untouched s
  | .available => True
  | .close _ => s.closed = true

theorem wp_ensureBuffer_untouched (h : Untouched s) :
    wp (ensureBuffer platform) (fun ready t => ready = false ∧ SameLeases s t)
      (fun _ => SameLeases s) s := by
  have hround : wp (ensureBufferRound platform ())
      (fun r t => r = .inr false ∧ SameLeases s t) (fun _ => SameLeases s) s := by
    simp only [ensureBufferRound, wp_bind, wp_get, wp_ite, wp_pure]
    rw [if_neg (by have := h.1; omega)]
    split
    · exact ⟨trivial, SameLeases.refl s⟩
    · rename_i heof
      have hheader : wp readBlockHeader (fun _ => SameLeases s) (fun _ => SameLeases s) s := by
        simp only [readBlockHeader, onRbc, wp_bind, wp_modify, wp_zoom, wp_ite, wp_pure, wp_throw]
        refine wp_mono (wp_true _ _) (fun p r _ => ?_) fun _ r _ => ⟨rfl, rfl, rfl, rfl, rfl, rfl, rfl⟩
        split
        · exact ⟨rfl, rfl, rfl, rfl, rfl, rfl, rfl⟩
        · split <;> exact ⟨rfl, rfl, rfl, rfl, rfl, rfl, rfl⟩
      refine wp_mono (wp_and wp_readBlockHeader_front hheader) ?_ (fun _ _ ht => ht.2)
      rintro header t ⟨hfront, ht⟩
      cases header with
      | none =>
        exact ⟨rfl, ht.input, ht.uncompressedDirect, ht.buffer, ht.closed, ht.allocations,
          ht.poolEvents, ht.uncompressCalls⟩
      | some frameHeader =>
        obtain ⟨h4, rfl, -⟩ := hfront frameHeader rfl
        obtain ⟨e, he⟩ := (h.2.resolve_left heof).resolve_left (Nat.not_lt.mpr h4)
        show wp (fromExcept (getFrameMetaData (s.rbc.data.take 4)) >>= _) _ _ t
        rw [wp_bind, he]
        exact ht
  simp only [ensureBuffer, wp_bind, wp_get, loop]
  refine wp_mono hround ?_ (fun _ _ ht => ht)
  rintro r t ⟨rfl, ht⟩
  exact ⟨rfl, ht⟩

/-- Such a call leaves the buffers as they were. -/
theorem wp_perform_noBuffer {c : ReadCall} (h : ComesToNoBuffer c s) :
    wp (perform platform c) (fun _ => SameLeases s) (fun _ => SameLeases s) s := by
  have hrefl := SameLeases.refl s
  cases c with
  | readByte =>
    simp only [perform, readByte, wp_bind, wp_get, wp_ite, wp_pure]
    split
    · exact hrefl
    · rename_i hclosed
      refine wp_mono (wp_ensureBuffer_untouched (h.resolve_left hclosed)) ?_ (fun _ _ ht => ht)
      rintro ready t ⟨rfl, ht⟩
      exact ht
  | read output offset length =>
    simp only [perform, read, wp_bind, wp_get, wp_ite, wp_throw, wp_pure]
    split
    · exact hrefl
    · rename_i hargs
      split
      · exact hrefl
      · rename_i hclosed
        split
        · exact hrefl
        · rename_i hlength
          have huntouched := ((h.resolve_left hargs).resolve_left hclosed).resolve_left hlength
          refine wp_mono (wp_ensureBuffer_untouched huntouched) ?_ (fun _ _ ht => ht)
          rintro ready t ⟨rfl, ht⟩
          exact ht
  | readBuffer dst =>
    simp only [perform, readBuffer, wp_bind, wp_get, wp_ite, wp_throw, wp_pure]
    split
    · exact hrefl
    · rename_i hclosed
      split
      · exact hrefl
      · rename_i hroom
        have huntouched := (h.resolve_left hclosed).resolve_left hroom
        refine wp_mono (wp_ensureBuffer_untouched huntouched) ?_ (fun _ _ ht => ht)
        rintro ready t ⟨rfl, ht⟩
        exact ht
  | transferToStream os =>
    simp only [perform, transferToStream, onStream, wp_bind, wp_withLocal, wp_zoom, wp_get, wp_ite,
      wp_throw]
    split
    · exact hrefl
    · rename_i hclosed
      simp only [loop, transferToStreamRound, onStream, wp_bind, wp_zoom]
      refine wp_mono (wp_ensureBuffer_untouched (h.resolve_left hclosed)) ?_ (fun _ _ ht => ht)
      rintro ready t ⟨rfl, ht⟩
      exact ht
  | transferToChannel wbc =>
    simp only [perform, transferToChannel, wp_bind, wp_withLocal, wp_get, wp_ite, wp_throw]
    split
    · exact hrefl
    · rename_i hclosed
      cases s.buffer with
      | none => exact hrefl
      | some l =>
        simp only [loop, transferToChannelRound, onStream, wp_bind, wp_zoom]
        refine wp_mono (wp_ensureBuffer_untouched (h.resolve_left hclosed)) ?_ (fun _ _ ht => ht)
        rintro ready t ⟨rfl, ht⟩
        exact ht
  | available => exact hrefl
  | close sourceFails =>
    have hclosed : ¬ s.closed = false := by
      rw [show s.closed = true from h]
      exact Bool.noConfusion
    simp only [perform, close, wp_bind, wp_ensuring, wp_ite, wp_throw, wp_pure, wp_get, wp_when]
    rw [if_neg hclosed]
    split <;> exact hrefl

/-! ## Runs -/

/-- The call does not meet a field left behind by a failed allocation, and the view of
a transfer to a channel does not go stale. -/
def InOrder (platform : Platform) (c : ReadCall) (s : SnappyFramedInputStream) : Prop :=
  (NoneReleased s ∨ ComesToNoBuffer c s) ∧
    ∀ wbc, c = .transferToChannel wbc → KeepsArray platform wbc s

theorem Left.same (h : Left s) (hst : SameLeases s t) : Left t := by
  refine ⟨hst.poolEvents ▸ h.1, fun hnone => ?_⟩
  refine (h.2 ?_).frame hst.fieldIds_eq hst.poolEvents hst.allocations
  rw [NoneReleased, hst.fieldIds_eq, hst.poolEvents] at hnone
  exact hnone

/-- A view that shows the buffer uses the buffer. -/
theorem wp_transferToChannel_standing (hpool : platform.bufferPool.Contract) {wbc : WritableByteChannel}
    (h : Standing s) (hm : Measured s) (hkeeps : KeepsArray platform wbc s) :
    wp (transferToChannel platform) (fun _ p => Standing p.1) (fun _ p => Left p.1) (s, wbc) := by
  simp only [transferToChannel, wp_bind, wp_get, wp_ite, wp_throw]
  split
  · exact h.left
  rename_i hopen
  cases hb : s.buffer with
  | none => exact h.left
  | some l =>
    have hstart := hkeeps.follows (by simpa using hopen) hm.direct_lt hb
    have hleaves : ∀ p : SnappyFramedInputStream × WritableByteChannel, Standing p.1 → Left p.1 :=
      fun _ hp => hp.left
    refine wp_loop_rounds hleaves (fun total p hp hstanding => ?_) h _
    refine upkeep_standing.wp_transferToChannelRound hstanding ?_
    refine wp_mono ((hstart.of_rounds hpool hp).wp_ensureBuffer hpool) ?_ (fun _ _ ht => ht)
    intro ready t ht hready hs
    obtain ⟨b, hb, hobject⟩ := (ht hready).buffer
    rw [viewed_of_buffer hb hobject]
    exact hs.used (.inr (.inr hb))

/-- What a call that meets nothing stale leaves. -/
theorem wp_perform_left (hpool : platform.bufferPool.Contract) {c : ReadCall}
    (hc : InOrder platform c s) (h : Left s) (hm : Measured s) :
    wp (perform platform c) (fun _ => Left) (fun _ => Left) s := by
  rcases hc.1 with hnone | huntouched
  · have hs := h.2 hnone
    by_cases hchannel : ∃ wbc, c = .transferToChannel wbc
    · obtain ⟨wbc, rfl⟩ := hchannel
      simp only [perform, wp_bind, wp_withLocal, wp_pure]
      refine wp_mono (wp_transferToChannel_standing hpool hs hm (hc.2 wbc rfl)) (fun _ p hp => ?_)
        (fun _ p hp => hp)
      exact hp.left
    · refine wp_mono (upkeep_standing.perform (fun wbc heq => hchannel ⟨wbc, heq⟩) s hs)
        (fun _ t ht => ht.left) (fun _ t ht => ht)
  · exact wp_mono (wp_perform_noBuffer huntouched) (fun _ t ht => h.same ht) (fun _ t ht => h.same ht)

/-- The constructor is in order on any input, with a pool that fails in any way. -/
theorem wp_init_standing (rbc : Source) (verifyChecksums : Bool) :
    wp (init platform) (fun _ => Standing) (fun _ => Left) (initial rbc verifyChecksums) := by
  have hstart : Standing (initial rbc verifyChecksums) := Holding.nil
  refine Upholds.bind (upholds_basedOnSize _) (fun _ => ?_) _ hstart
  refine Upholds.bind (handling_standing.onRbc _) fun p => Upholds.ite ?_ ?_
  · exact Upholds.throw (fun _ ht => ht.left) _
  · exact Upholds.ite (Upholds.throw (fun _ ht => ht.left) _) (Upholds.pure _)

/-- No buffer is touched or given back again once it has been given back, in
every run whose calls all find the stream in order, over any input and a pool any
allocation of which may fail. -/
theorem openRun_disciplined (hpool : platform.bufferPool.Contract) (rbc : Source)
    (verifyChecksums : Bool) (calls : List ReadCall) :
    wp (init platform)
      (fun _ s => Meets Throwable.Fatal (perform platform) (InOrder platform) calls s →
        wp (runOn Throwable.Fatal (perform platform) calls)
          (fun _ t => Disciplined t.poolEvents) (fun _ t => Disciplined t.poolEvents) s)
      (fun _ s => Disciplined s.poolEvents) (initial rbc verifyChecksums) := by
  have hmeasured := keeps_init_measured hpool _ (measured_initial rbc verifyChecksums)
  refine wp_mono (wp_and (wp_init_standing rbc verifyChecksums) hmeasured) ?_ (fun _ _ hs => hs.1.1)
  rintro - s ⟨hs, hm⟩ hcalls
  have hstep : ∀ c t, InOrder platform c t → Left t ∧ Measured t →
      wp (perform platform c) (fun _ t => Left t ∧ Measured t) (fun _ t => Left t ∧ Measured t) t :=
    fun c t hc ht => wp_and (wp_perform_left hpool hc ht.1 ht.2) (keeps_perform hpool c t ht.2)
  refine wp_mono (wp_runOn_meets hstep hcalls ⟨hs.left, hm⟩) ?_ ?_
  · exact fun _ _ ht => ht.1.1
  · exact fun _ _ ht => ht.1.1

end

/-- A pool that has no memory left after the buffers of the constructor. -/
def exhaustedPool : BufferPool where
  allocateDirect k size :=
    if k < 3 then QuiescentBufferPool.allocateDirect k size else .error .outOfMemoryError
  allocateArray k size :=
    if k < 3 then QuiescentBufferPool.allocateArray k size else .error .outOfMemoryError
  object k := k

def exhausted : Platform := { literalPlatform with bufferPool := exhaustedPool }

theorem exhaustedPool_contract : exhaustedPool.Contract where
  direct k size b h := by
    simp only [exhaustedPool] at h
    split at h
    · exact QuiescentBufferPool.builtIn.reliable.direct k size b h
    · cases h
  array k size b h := by
    simp only [exhaustedPool] at h
    split at h
    · exact QuiescentBufferPool.builtIn.reliable.array k size b h
    · cases h

/-- The header of a raw frame of 100000 bytes. -/
def oversizedHeader : Bytes := [0x01, 0xA0, 0x86, 0x01]

/-- Small frames, and behind them the header of a large one. -/
@[irreducible] def samplesAndOversized : Source := ⟨Frame.stream Frame.samples ++ oversizedHeader, [3, 1]⟩

/-- The transfer shows the channel the small frames and then meets the failing
allocation; the second call touches nothing. -/
theorem openRun_disciplined_samples :
    wp (init exhausted)
      (fun _ s => wp (runOn Throwable.Fatal (perform exhausted)
          [.transferToChannel ⟨[], [(1, false), (2, false)], false, 0⟩, .available])
        (fun _ t => Disciplined t.poolEvents) (fun _ t => Disciplined t.poolEvents) s)
      (fun _ s => Disciplined s.poolEvents) (initial samplesAndOversized true) := by
  have hpool : exhausted.bufferPool.Contract := exhaustedPool_contract
  have hkeeps : wp (init exhausted) (fun _ t => ∀ wbc, KeepsArray exhausted wbc t) (fun _ _ => True)
      (initial samplesAndOversized true) := by
    refine wp_init_samples hpool ?_ (rfl : framesOf oversizedHeader = []) rfl (length_newArray _)
      (length_newArray _)
    rw [samplesAndOversized]
    rfl
  refine wp_mono (wp_and (wp_and (openRun_disciplined hpool samplesAndOversized true
    [.transferToChannel ⟨[], [(1, false), (2, false)], false, 0⟩, .available])
    (wp_init_standing samplesAndOversized true)) hkeeps) ?_ (fun _ _ h => h.1.1)
  rintro - s ⟨⟨hrun, hs⟩, hkeeps⟩
  have hlast : ∀ t, Meets Throwable.Fatal (perform exhausted) (InOrder exhausted) [.available] t :=
    fun t => ⟨⟨.inr trivial, fun _ h => by cases h⟩, wp_mono (wp_true _ _) (fun _ _ _ => trivial)
      fun _ _ _ _ => trivial⟩
  exact hrun ⟨⟨.inl hs.not_released, fun wbc _ => hkeeps wbc⟩,
    wp_mono (wp_true _ _) (fun _ t _ => hlast t) (fun _ t _ _ => hlast t)⟩

/-- The header of a frame that is too large, and nothing behind it. -/
@[irreducible] def oversized : Source := ⟨SnappyFramed.headerBytes ++ oversizedHeader, []⟩

/-- The buffers have come from allocations 0, 1 and 2. -/
def BehindFields (events : List Event) (s : SnappyFramedInputStream) : Prop :=
  s.closed = false ∧ s.poolEvents = events ∧ s.input.map Lease.id = some 0 ∧
    s.uncompressedDirect.map Lease.id = some 1 ∧ s.buffer.map Lease.id = some 2

theorem wp_init_exhausted {s : SnappyFramedInputStream} (hs : s = initial oversized true) :
    wp (init exhausted)
      (fun _ t => BehindFields [.acquire 0, .acquire 1, .acquire 2] t ∧ t.allocations = 3 ∧
        capacity t.input = 65541 ∧ t.availableNow = 0 ∧ t.eof = false ∧
        t.rbc = ⟨[0x01, 0xA0, 0x86, 0x01], []⟩) (fun _ _ => False) s := by
  have hread : wp (SnappyFramed.readBytes (.wrap (newArray SnappyFramed.headerBytes.length)))
      (fun p r => ¬ p.1 < SnappyFramed.headerBytes.length ∧ SnappyFramed.headerBytes = p.2.array ∧
        r = ⟨[0x01, 0xA0, 0x86, 0x01], []⟩) (fun _ _ => False) s.rbc := by
    rw [hs]
    decide +kernel
  have hinput : s.input = none := by rw [hs]; rfl
  have hdirect : s.uncompressedDirect = none := by rw [hs]; rfl
  have hbuffer : s.buffer = none := by rw [hs]; rfl
  have hcount : s.allocations = 0 := by rw [hs]; rfl
  have hgave : ∀ t : SnappyFramedInputStream, t.gaveBack none = t := fun _ => rfl
  have hdirectOk : ∀ k size, k < 3 → size < 2 ^ 31 →
      exhausted.bufferPool.allocateDirect k size = .ok (newArray size) :=
    fun _ _ hk hsize => (if_pos hk).trans (if_pos hsize)
  have harrayOk : ∀ k size, k < 3 → size < 2 ^ 31 →
      exhausted.bufferPool.allocateArray k size = .ok (newArray size) :=
    fun _ _ hk hsize => (if_pos hk).trans (if_pos hsize)
  simp only [init, allocateBuffersBasedOnSize, onRbc, wp_bind, wp_modify, wp_zoom, wp_ite, wp_throw,
    wp_pure]
  refine wp_releaseField_gaveBack <| wp_releaseField_gaveBack <| wp_releaseField_gaveBack ?_
  rw [hinput, hgave, hdirect, hgave, hbuffer, hgave]
  simp (disch := decide) only [allocate, record, wp_bind, wp_get, wp_set, wp_modify, wp_pure, hcount,
    hdirectOk, harrayOk, wp_fromExcept_ok]
  refine wp_mono hread ?_ (fun _ _ h => h)
  rintro p r ⟨hall, harray, rfl⟩
  rw [if_neg hall, if_neg (not_not_intro harray)]
  refine ⟨⟨?_, ?_, rfl, rfl, rfl⟩, trivial, ?_, ?_, ?_, rfl⟩
  · rw [hs]; rfl
  · rw [hs]; rfl
  · simp only [capacity, Option.map_some, Option.getD_some, length_newArray]
    rfl
  · rw [hs]; rfl
  · rw [hs]; rfl

theorem wp_readByte_exhausted {s : SnappyFramedInputStream}
    (h : BehindFields [.acquire 0, .acquire 1, .acquire 2] s) (hcount : s.allocations = 3)
    (hcapacity : capacity s.input = 65541) (hdone : s.availableNow = 0) (heof : s.eof = false)
    (hrbc : s.rbc = ⟨[0x01, 0xA0, 0x86, 0x01], []⟩) :
    wp (readByte exhausted) (fun _ _ => False)
      (fun e t => e = .outOfMemoryError ∧ BehindFields
        [.acquire 0, .acquire 1, .acquire 2, .release 0, .release 1, .release 2] t) s := by
  have hread : wp (SnappyFramed.readBytes (.wrap (newArray 4)))
      (fun p _ => p.1 ≠ -1 ∧ ¬ p.1 < p.2.capacity ∧ p.2.array = [0x01, 0xA0, 0x86, 0x01])
      (fun _ _ => False) s.rbc := by
    rw [hrbc]
    decide +kernel
  have hmeta : getFrameMetaData [0x01, 0xA0, 0x86, 0x01] = .ok ⟨.raw, 100000⟩ := by decide +kernel
  have hfail : ∀ size, exhausted.bufferPool.allocateDirect 3 size = .error .outOfMemoryError :=
    fun _ => rfl
  obtain ⟨hopen, hevents, hinput, hdirect, hbuffer⟩ := h
  obtain ⟨i, hi, hi'⟩ := Option.map_eq_some_iff.mp hinput
  obtain ⟨d, hd, hd'⟩ := Option.map_eq_some_iff.mp hdirect
  obtain ⟨b, hb, hb'⟩ := Option.map_eq_some_iff.mp hbuffer
  simp only [readByte, ensureBuffer, loop, ensureBufferRound, readBlockHeader, onRbc, wp_bind,
    wp_get, wp_ite, wp_pure, wp_modify, wp_zoom, wp_throw, hopen]
  rw [if_neg Bool.false_ne_true, if_neg (by rw [hdone]; decide), if_neg (by rw [heof]; decide)]
  refine wp_mono hread ?_ (fun _ _ h => h.elim)
  rintro p r ⟨hmore, hall, harray⟩
  rw [if_neg hmore, if_neg hall, harray]
  simp only [wp_bind, hmeta, wp_fromExcept_ok, loadFrame, readFrame, wp_ite]
  rw [if_neg (by decide)]
  simp only [wp_get, wp_when, hcapacity]
  rw [if_pos (by decide)]
  simp only [allocateBuffersBasedOnSize, wp_bind, wp_modify]
  refine wp_releaseField_gaveBack <| wp_releaseField_gaveBack <| wp_releaseField_gaveBack ?_
  simp only [hi, hd, hb, gaveBack, allocate, wp_bind, wp_get, wp_set, hcount, hfail, wp_fromExcept_error]
  refine ⟨trivial, rfl, ?_, congrArg some hi', congrArg some hd', congrArg some hb'⟩
  simp only [hevents, hi', hd', hb']
  rfl

theorem wp_close_exhausted {s : SnappyFramedInputStream} {events : List Event}
    (h : BehindFields events s) :
    wp (close false) (fun _ t => t.poolEvents = events ++ [.release 0, .release 1, .release 2])
      (fun _ _ => False) s := by
  obtain ⟨hopen, hevents, hinput, hdirect, hbuffer⟩ := h
  obtain ⟨i, hi, hi'⟩ := Option.map_eq_some_iff.mp hinput
  obtain ⟨d, hd, hd'⟩ := Option.map_eq_some_iff.mp hdirect
  obtain ⟨b, hb, hb'⟩ := Option.map_eq_some_iff.mp hbuffer
  simp only [close, wp_ensuring, wp_pure, wp_bind, wp_get, wp_when, wp_modify, hopen,
    Bool.false_eq_true, if_false, if_true]
  refine wp_releaseField_gaveBack <| wp_releaseField_gaveBack <| wp_releaseField_gaveBack ?_
  simp only [hi, hd, hb, gaveBack, hevents, hi', hd', hb', List.append_assoc, List.cons_append,
    List.nil_append]

private theorem released_twice {s₀ : SnappyFramedInputStream} (hs₀ : s₀ = initial oversized true) :
    wp (openRun exhausted [.readByte, .close false]) (fun _ t => ¬ Disciplined t.poolEvents)
      (fun _ _ => False) s₀ := by
  rw [openRun, wp_bind]
  refine wp_mono (wp_init_exhausted hs₀) ?_ (fun _ _ h => h)
  rintro - s ⟨hs, hcount, hcapacity, hdone, heof, hrbc⟩
  simp only [runOn, perform, wp_bind, wp_attempt, wp_ite, wp_throw, wp_pure]
  refine wp_mono (wp_readByte_exhausted hs hcount hcapacity hdone heof hrbc) (fun _ _ h => h.elim) ?_
  rintro e t ⟨rfl, ht⟩
  rw [if_neg (by decide)]
  refine wp_mono (wp_close_exhausted ht) (fun _ u hu => ?_) (fun _ _ h => h.elim)
  intro hdisciplined
  have hreleased := hdisciplined 0 [.acquire 0, .acquire 1, .acquire 2]
    [.release 1, .release 2, .release 0, .release 1, .release 2] hu
  exact hreleased.2 (by decide)

/-- Where the allocation for a larger frame fails, `close` gives all three
buffers back a second time. -/
theorem exhausted_released_twice :
    wp (openRun exhausted [.readByte, .close false]) (fun _ t => ¬ Disciplined t.poolEvents)
      (fun _ _ => False) (initial oversized true) := released_twice rfl

end SnappyJava.SnappyFramedInputStream
