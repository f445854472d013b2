import SnappyJava.SnappyFramedInputStream

/-! What every method of a `SnappyFramedInputStream` keeps that the operations on
its buffers keep, over any input, any pool and any arguments. -/

namespace SnappyJava.SnappyFramedInputStream

open Exec Memory Words

/-- `t` is `s` but for what the buffers hold and for the place in the data. -/
structure SameLeases (s t : SnappyFramedInputStream) : Prop where
  input : t.input.map Lease.id = s.input.map Lease.id
  uncompressedDirect : t.uncompressedDirect.map (fun l => (l.id, l.contents.length)) =
    s.uncompressedDirect.map fun l => (l.id, l.contents.length)
  buffer : t.buffer.map Lease.id = s.buffer.map Lease.id
  closed : t.closed = s.closed
  allocations : t.allocations = s.allocations
  poolEvents : t.poolEvents = s.poolEvents
  uncompressCalls : t.uncompressCalls = s.uncompressCalls

/-- The stream has the buffer `l`. -/
def Has (s : SnappyFramedInputStream) (l : Lease) : Prop :=
  s.input = some l ∨ s.uncompressedDirect = some l ∨ s.buffer = some l

/-- The buffer with the number `id` has been read or written. -/
def used (s : SnappyFramedInputStream) (id : Nat) : SnappyFramedInputStream :=
  { s with poolEvents := s.poolEvents ++ [.use id] }

/-- `I` is about the buffers only, and reading and writing them keeps it; `J`
is what is left of it where a method throws. -/
structure Handling (I J : SnappyFramedInputStream → Prop) : Prop where
  leaves : ∀ s, I s → J s
  same : ∀ {s t}, I s → SameLeases s t → I t
  use : ∀ {s l}, Has s l → I s → I (used s l.id)

/-- So do the operations that replace buffers. -/
structure Refilling (platform : Platform) (I J : SnappyFramedInputStream → Prop) : Prop
    extends Handling I J where
  basedOnSize : ∀ size, Upholds I J (allocateBuffersBasedOnSize platform size)
  uncompressFrame : ∀ payload, Upholds I J (uncompressFrame platform payload)

/-- And so does closing. -/
structure Upkeep (platform : Platform) (I J : SnappyFramedInputStream → Prop) : Prop
    extends Refilling platform I J where
  close : ∀ sourceFails, Upholds I J (close sourceFails)

section
variable {platform : Platform} {I J : SnappyFramedInputStream → Prop} {s : SnappyFramedInputStream}

/-- What an access finds. -/
theorem wp_access_has {field : SnappyFramedInputStream → Option Lease}
    {Q : Lease → SnappyFramedInputStream → Prop} {E : Throwable → SnappyFramedInputStream → Prop}
    (hQ : ∀ l, field s = some l → Q l (used s l.id)) (hE : field s = none → E .nullPointerException s) :
    wp (access field) Q E s := by
  simp only [access, record, wp_bind, wp_get]
  cases hf : field s with
  | none => exact hE hf
  | some l => exact hQ l hf

theorem wp_allocate_cases {answer : Nat → Nat → Except Throwable Bytes} {size : Nat}
    {Q : Lease → SnappyFramedInputStream → Prop} {E : Throwable → SnappyFramedInputStream → Prop}
    (hQ : ∀ b, answer s.allocations size = .ok b → Q ⟨s.allocations, b⟩ { s with
      allocations := s.allocations + 1
      poolEvents := s.poolEvents ++ [.acquire s.allocations] })
    (hE : ∀ e, E e { s with allocations := s.allocations + 1 }) :
    wp (allocate answer size) Q E s := by
  simp only [allocate, record, wp_bind, wp_get, wp_set]
  cases hb : answer s.allocations size with
  | ok b => exact hQ b hb
  | error e => exact hE e

/-- A buffer is given back if there is one. -/
def gaveBack (s : SnappyFramedInputStream) : Option Lease → SnappyFramedInputStream
  | none => s
  | some l => { s with poolEvents := s.poolEvents ++ [.release l.id], returned := s.returned ++ [l] }

theorem wp_releaseField_gaveBack {field : SnappyFramedInputStream → Option Lease}
    {Q : Unit → SnappyFramedInputStream → Prop} {E : Throwable → SnappyFramedInputStream → Prop}
    (hQ : Q () (gaveBack s (field s))) : wp (releaseField field) Q E s := by
  simp only [releaseField, wp_bind, wp_get]
  cases hf : field s with
  | none =>
    rw [hf] at hQ
    exact hQ
  | some l =>
    rw [hf] at hQ
    exact hQ

/-- A view of the buffer itself, or of an array that is the buffer again. -/
theorem viewed_of_buffer {pool : BufferPool} {b : Lease} {id : Nat} (hb : s.buffer = some b)
    (hobject : pool.object b.id = pool.object id) : s.viewed pool id = b := by
  rw [viewed, hb, Option.toList_some, List.cons_append, List.find?_cons_of_pos (by simpa using hobject)]
  rfl

/-- What a round of a transfer shows the channel: the data in the buffer, in the array
of allocation `id`. -/
def viewFor (platform : Platform) (id : Nat) (t : SnappyFramedInputStream) :
    Except Throwable ByteBuffer := do
  let positioned ← (ByteBuffer.wrap (t.viewed platform.bufferPool id).contents).setPosition t.position
  positioned.setLimit (t.position + t.availableNow)

/-- The stream when the channel has taken `written` bytes of `bb`, with the position
that it had before. -/
def shownTo (platform : Platform) (id : Nat) (bb : ByteBuffer) (written : Nat)
    (t : SnappyFramedInputStream) : SnappyFramedInputStream :=
  { used t (t.viewed platform.bufferPool id).id with
    deliveries := t.deliveries ++
      [⟨slice bb.array t.position written, t.position, t.frames.getLast?⟩] }

theorem transferToChannelRound_eq (platform : Platform) (id totTransfered : Nat) :
    transferToChannelRound platform id totTransfered = (do
      let ready ← onStream (ensureBuffer platform)
      if ready then
        let s ← onStream get
        let bb ← fromExcept (viewFor platform id s)
        onStream (record (.use (s.viewed platform.bufferPool id).id))
        let (outcome, rest) ← withLocal bb
          (zoom (fun u => (u.1.2, u.2)) (fun v u => ((u.1.1, v.1), v.2)) WritableByteChannel.write)
        let written := rest.position - s.position
        onStream (deliver s.position (slice bb.array s.position written))
        let _ ← fromExcept outcome
        onStream (advance written)
        pure (.inl (totTransfered + written))
      else
        pure (.inr totTransfered)) := by
  unfold transferToChannelRound
  refine congrArg (onStream (ensureBuffer platform) >>= ·) (funext fun ready => ?_)
  cases ready with
  | false => rfl
  | true =>
    refine congrArg (onStream get >>= ·) (funext fun s => ?_)
    simp only [viewFor]
    cases (ByteBuffer.wrap (s.viewed platform.bufferPool id).contents).setPosition s.position <;> rfl

/-- A round of a transfer to a channel: the data is found, shown, and written in one
call of the channel. -/
theorem wp_channelRound {id total : Nat} {w : WritableByteChannel}
    {Q : Nat ⊕ Nat → SnappyFramedInputStream × WritableByteChannel → Prop}
    {E : Throwable → SnappyFramedInputStream × WritableByteChannel → Prop}
    (h : wp (ensureBuffer platform)
      (fun ready t => if ready = true then
          (∀ e, viewFor platform id t = .error e → E e (t, w)) ∧
          ∀ bb, viewFor platform id t = .ok bb → wp WritableByteChannel.write
            (fun _ v => Q (.inl (total + (v.2.position - t.position)))
              ({ shownTo platform id bb (v.2.position - t.position) t with
                position := t.position + (v.2.position - t.position) }, v.1))
            (fun e v => E e (shownTo platform id bb (v.2.position - t.position) t, v.1)) (w, bb)
        else Q (.inr total) (t, w))
      (fun e t => E e (t, w)) s) :
    wp (transferToChannelRound platform id total) Q E (s, w) := by
  simp only [transferToChannelRound_eq, onStream, wp_bind, wp_zoom, wp_ite, wp_get, wp_pure, record,
    deliver, advance, wp_modify, wp_withLocal]
  refine wp_mono h ?_ fun _ _ he => he
  intro ready t ht
  split
  · rename_i hready
    rw [if_pos hready] at ht
    cases hview : viewFor platform id t with
    | error e => exact ht.1 e hview
    | ok bb =>
      simp only [wp_fromExcept_ok]
      exact wp_mono (ht.2 bb hview) (fun _ _ hq => hq) fun _ _ he => he
  · rename_i hready
    rwa [if_neg hready] at ht

theorem upholds_onStream {τ α : Type} {m : Method α} (hm : Upholds I J m) :
    Upholds (fun p : SnappyFramedInputStream × τ => I p.1) (fun p => J p.1) (onStream m) := by
  intro p hp
  rw [onStream, wp_zoom]
  exact hm p.1 hp

namespace Handling

variable (h : Handling I J)
include h

theorem access {field : SnappyFramedInputStream → Option Lease}
    (hfield : ∀ s l, field s = some l → Has s l) :
    Upholds I J (SnappyFramedInputStream.access field) := fun s hs =>
  wp_access_has (fun _ hl => h.use (hfield s _ hl) hs) fun _ => h.leaves s hs

theorem accessInput : Upholds I J (SnappyFramedInputStream.access SnappyFramedInputStream.input) :=
  h.access fun _ _ => .inl

theorem accessBuffer : Upholds I J (SnappyFramedInputStream.access SnappyFramedInputStream.buffer) :=
  h.access fun _ _ hl => .inr (.inr hl)

/-- A step that keeps to the place in the data. -/
theorem update {f : SnappyFramedInputStream → SnappyFramedInputStream}
    (hf : ∀ s, SameLeases s (f s)) : Upholds I J (modify f : Method PUnit) :=
  Upholds.update fun s hs => h.same hs (hf s)

theorem onRbc {α : Type} (m : EStateM Throwable Source α) :
    Upholds I J (SnappyFramedInputStream.onRbc m) :=
  Upholds.zoom h.leaves m fun _ _ hs => h.same hs ⟨rfl, rfl, rfl, rfl, rfl, rfl, rfl⟩

/-! ## `ensureBuffer` -/

theorem readBlockHeader : Upholds I J readBlockHeader := by
  refine Upholds.bind (h.update fun _ => ⟨rfl, rfl, rfl, rfl, rfl, rfl, rfl⟩) fun _ => ?_
  refine Upholds.bind (h.onRbc _) fun p => Upholds.ite (Upholds.pure _) ?_
  exact Upholds.ite (Upholds.throw h.leaves _) (Upholds.pure _)

theorem skipFrame (length : Nat) : Upholds I J (skipFrame length) := by
  intro s hs
  simp only [SnappyFramedInputStream.skipFrame, SnappyFramedInputStream.onRbc, wp_bind, wp_zoom,
    wp_modify]
  refine wp_access_has (fun l hl => ?_) (fun _ => h.leaves s hs)
  have hused := h.use (.inr (.inr hl)) hs
  have hbuffer : ∀ (r : Source) (xs : Bytes),
      I { used s l.id with rbc := r, buffer := some ⟨l.id, xs⟩ } := fun r xs =>
    h.same hused ⟨rfl, rfl, by rw [used, hl]; rfl, rfl, rfl, rfl, rfl⟩
  refine wp_mono (wp_true _ _) (fun p r _ => hbuffer r _) fun _ r _ => ?_
  exact h.leaves _ (h.same hused ⟨rfl, rfl, rfl, rfl, rfl, rfl, rfl⟩)

theorem copyToBuffer (data : Bytes) : Upholds I J (copyToBuffer data) := by
  intro s hs
  simp only [SnappyFramedInputStream.copyToBuffer, wp_bind, wp_ite, wp_throw, wp_modify]
  refine wp_access_has (fun l hl => ?_) (fun _ => h.leaves s hs)
  have hused := h.use (.inr (.inr hl)) hs
  split
  · exact h.leaves _ hused
  · exact h.same hused ⟨rfl, rfl, by rw [used, hl]; rfl, rfl, rfl, rfl, rfl⟩

theorem copyFrame (payload : Bytes) : Upholds I J (copyFrame payload) :=
  Upholds.bind (h.update fun _ => ⟨rfl, rfl, rfl, rfl, rfl, rfl, rfl⟩) fun _ =>
    Upholds.bind h.accessInput fun _ => h.copyToBuffer payload

theorem verifyFrame (checkSum : BitVec 32) : Upholds I J (verifyFrame platform checkSum) := by
  refine Upholds.bind Upholds.get fun _ => Upholds.bind ?_ fun _ =>
    h.update fun _ => ⟨rfl, rfl, rfl, rfl, rfl, rfl, rfl⟩
  refine Upholds.when (Upholds.bind h.accessBuffer fun _ => ?_)
  exact Upholds.when (Upholds.throw h.leaves _)

end Handling

namespace Refilling

variable (h : Refilling platform I J)
include h

theorem readFrame (length : Nat) : Upholds I J (readFrame platform length) := by
  refine Upholds.bind Upholds.get fun s₀ => Upholds.bind (Upholds.when (h.basedOnSize length)) fun _ => ?_
  intro s hs
  simp only [SnappyFramedInputStream.onRbc, wp_bind, wp_zoom, wp_modify, wp_ite, wp_throw, wp_pure]
  refine wp_access_has (fun l hl => ?_) (fun _ => h.leaves s hs)
  have hused := h.use (.inl hl) hs
  cases (ByteBuffer.wrap l.contents).setLimit length with
  | error e => exact h.leaves _ hused
  | ok limited =>
    have hinput : ∀ (r : Source) (xs : Bytes),
        I { used s l.id with rbc := r, input := some ⟨l.id, xs⟩ } := fun r xs =>
      h.same hused ⟨by rw [used, hl]; rfl, rfl, rfl, rfl, rfl, rfl, rfl⟩
    simp only [wp_fromExcept_ok]
    refine wp_mono (wp_true _ _) (fun p r _ => ?_) fun _ r _ => ?_
    · split
      · exact h.leaves _ (hinput r _)
      · exact h.accessInput _ (hinput r _)
    · exact h.leaves _ (h.same hused ⟨rfl, rfl, rfl, rfl, rfl, rfl, rfl⟩)

theorem loadFrame (flag : UInt8) (compressed : Bool) (length : Nat) :
    Upholds I J (loadFrame platform flag compressed length) := by
  refine Upholds.bind (h.readFrame length) fun body => ?_
  refine Upholds.bind (h.update fun _ => ⟨rfl, rfl, rfl, rfl, rfl, rfl, rfl⟩) fun _ => ?_
  dsimp only
  split
  · exact Upholds.bind (h.uncompressFrame _) fun _ => h.verifyFrame _
  · exact Upholds.bind (h.copyFrame _) fun _ => h.verifyFrame _

theorem ensureBufferRound (u : Unit) : Upholds I J (ensureBufferRound platform u) := by
  refine Upholds.bind Upholds.get fun _ => Upholds.ite (Upholds.pure _) ?_
  refine Upholds.ite (Upholds.pure _) (Upholds.bind h.readBlockHeader fun header => ?_)
  cases header with
  | none =>
    exact Upholds.bind (h.update fun _ => ⟨rfl, rfl, rfl, rfl, rfl, rfl, rfl⟩) fun _ =>
      Upholds.pure _
  | some frameHeader =>
    refine Upholds.bind (Upholds.fromExcept h.leaves _) fun m => Upholds.ite ?_ ?_
    · exact Upholds.bind (h.skipFrame _) fun _ => Upholds.pure _
    · exact Upholds.bind (h.loadFrame _ _ _) fun _ => Upholds.pure _

theorem ensureBuffer : Upholds I J (ensureBuffer platform) :=
  Upholds.bind Upholds.get fun _ => Upholds.loop h.leaves h.ensureBufferRound _ _

/-! ## The public methods -/

theorem deliver (position : Nat) (bytes : Bytes) : Upholds I J (deliver position bytes) :=
  h.update fun _ => ⟨rfl, rfl, rfl, rfl, rfl, rfl, rfl⟩

theorem advance (n : Nat) : Upholds I J (advance n) :=
  h.update fun _ => ⟨rfl, rfl, rfl, rfl, rfl, rfl, rfl⟩

theorem readByte : Upholds I J (readByte platform) := by
  refine Upholds.bind Upholds.get fun _ => Upholds.ite (Upholds.pure _) ?_
  refine Upholds.bind h.ensureBuffer fun _ => Upholds.ite ?_ (Upholds.pure _)
  refine Upholds.bind h.accessBuffer fun l => Upholds.bind Upholds.get fun t =>
    Upholds.bind (h.advance 1) fun _ => ?_
  cases l.contents[t.position]? with
  | none => exact Upholds.throw h.leaves _
  | some x => exact Upholds.bind (h.deliver _ _) fun _ => Upholds.pure _

theorem takeAvailable (room : Nat) : Upholds I J (takeAvailable room) := by
  refine Upholds.bind Upholds.get fun _ => Upholds.bind h.accessBuffer fun _ => ?_
  refine Upholds.ite (Upholds.throw h.leaves _) (Upholds.bind (h.deliver _ _) fun _ => ?_)
  exact Upholds.bind (h.advance _) fun _ => Upholds.pure _

theorem read (output : Bytes) (offset length : Int) :
    Upholds I J (read platform output offset length) := by
  refine Upholds.bind Upholds.get fun _ => Upholds.ite (Upholds.throw h.leaves _) ?_
  refine Upholds.ite (Upholds.throw h.leaves _) (Upholds.ite (Upholds.pure _) ?_)
  refine Upholds.bind h.ensureBuffer fun _ => Upholds.ite ?_ (Upholds.pure _)
  refine Upholds.bind Upholds.get fun _ => Upholds.ite (Upholds.throw h.leaves _) ?_
  exact Upholds.bind (h.takeAvailable _) fun _ => Upholds.pure _

theorem readBuffer (dst : ByteBuffer) : Upholds I J (readBuffer platform dst) := by
  refine Upholds.bind Upholds.get fun _ => Upholds.ite (Upholds.throw h.leaves _) ?_
  refine Upholds.ite (Upholds.pure _) (Upholds.bind h.ensureBuffer fun _ => Upholds.ite ?_ (Upholds.pure _))
  refine Upholds.bind (h.takeAvailable _) fun _ => ?_
  exact Upholds.bind (Upholds.fromExcept h.leaves _) fun _ => Upholds.pure _

theorem transferToStream :
    Upholds (fun p : SnappyFramedInputStream × OutputStream => I p.1) (fun p => J p.1)
      (transferToStream platform) := by
  have hleaves : ∀ p : SnappyFramedInputStream × OutputStream, I p.1 → J p.1 :=
    fun p => h.leaves p.1
  refine Upholds.bind (upholds_onStream Upholds.get) fun _ => Upholds.ite (Upholds.throw hleaves _) ?_
  refine Upholds.loop hleaves (fun total => ?_) _ _
  refine Upholds.bind (upholds_onStream h.ensureBuffer) fun _ => Upholds.ite ?_ (Upholds.pure _)
  refine Upholds.bind (upholds_onStream Upholds.get) fun _ =>
    Upholds.bind (upholds_onStream h.accessBuffer) fun _ => Upholds.ite (Upholds.throw hleaves _) ?_
  refine Upholds.bind (Upholds.zoom hleaves _ fun _ _ hp => hp) fun _ => ?_
  refine Upholds.bind (upholds_onStream (h.deliver _ _)) fun _ => ?_
  exact Upholds.bind (upholds_onStream (h.advance _)) fun _ => Upholds.pure _

/-- A round of a transfer to a channel, which uses the array of allocation `id`,
whether or not it is still the buffer of the stream. -/
theorem wp_transferToChannelRound {id total : Nat} {p : SnappyFramedInputStream × WritableByteChannel}
    (hp : I p.1) (huse : wp (SnappyFramedInputStream.ensureBuffer platform)
      (fun ready t => ready = true → I t → I (used t (t.viewed platform.bufferPool id).id))
      (fun _ _ => True) p.1) :
    wp (transferToChannelRound platform id total) (fun _ q => I q.1) (fun _ q => J q.1) p := by
  obtain ⟨s, w⟩ := p
  refine wp_channelRound (wp_mono (wp_and (h.ensureBuffer s hp) huse) ?_ fun _ _ ht => ht.1)
  rintro ready t ⟨ht, hid⟩
  split
  · rename_i hready
    have hshown : ∀ (bb : ByteBuffer) (n k : Nat), I { shownTo platform id bb n t with position := k } :=
      fun _ _ _ => h.same (hid hready ht) ⟨rfl, rfl, rfl, rfl, rfl, rfl, rfl⟩
    refine ⟨fun _ _ => h.leaves t ht, fun bb _ => ?_⟩
    -- the channel changes nothing of the stream
    exact wp_mono (wp_true _ _) (fun _ _ _ => hshown _ _ _) fun _ _ _ => h.leaves _ (hshown bb _ t.position)
  · exact ht

/-- Every call that neither transfers to a channel nor closes. -/
theorem perform {c : ReadCall} (hc : ∀ wbc, c ≠ .transferToChannel wbc) (hclose : ∀ f, c ≠ .close f) :
    Upholds I J (perform platform c) := by
  cases c with
  | readByte => exact Upholds.bind h.readByte fun _ => Upholds.pure _
  | read output offset length => exact Upholds.bind (h.read _ _ _) fun _ => Upholds.pure _
  | readBuffer dst => exact Upholds.bind (h.readBuffer _) fun _ => Upholds.pure _
  | transferToStream os =>
    intro s hs
    simp only [SnappyFramedInputStream.perform, wp_bind, wp_withLocal, wp_pure]
    exact wp_mono (h.transferToStream (s, os) hs) (fun _ _ hp => hp) (fun _ _ hp => hp)
  | transferToChannel wbc => exact absurd rfl (hc wbc)
  | available => exact Upholds.bind Upholds.get fun _ => Upholds.pure _
  | close sourceFails => exact absurd rfl (hclose sourceFails)

end Refilling

/-- Every call but a transfer to a channel. -/
theorem Upkeep.perform (h : Upkeep platform I J) {c : ReadCall}
    (hc : ∀ wbc, c ≠ .transferToChannel wbc) : Upholds I J (perform platform c) := by
  by_cases hclose : ∃ f, c = .close f
  · obtain ⟨f, rfl⟩ := hclose
    exact Upholds.bind (h.close f) fun _ => Upholds.pure _
  · exact h.toRefilling.perform hc fun f hf => hclose ⟨f, hf⟩

end

/-! ## What leaves the place in the data alone -/

/-- `t` is as far in the data as `s`, and has the same records of it. -/
structure SameProgress (s t : SnappyFramedInputStream) : Prop where
  verifyChecksums : t.verifyChecksums = s.verifyChecksums
  closed : t.closed = s.closed
  valid : t.valid = s.valid
  position : t.position = s.position
  frames : t.frames = s.frames
  verified : t.verified = s.verified
  deliveries : t.deliveries = s.deliveries

/-- `I` speaks of the place in the data and its records only. -/
def OfProgress (I : SnappyFramedInputStream → Prop) : Prop := ∀ s t, SameProgress s t → I s → I t

namespace OfProgress

variable {platform : Platform} {I : SnappyFramedInputStream → Prop} (h : OfProgress I)
include h

theorem update {f : SnappyFramedInputStream → SnappyFramedInputStream}
    (hf : ∀ s, SameProgress s (f s)) : Keeps I (modify f : Method PUnit) :=
  Keeps.update fun s hs => h s (f s) (hf s) hs

theorem onRbc {α : Type} (m : EStateM Throwable Source α) :
    Keeps I (SnappyFramedInputStream.onRbc m) :=
  Keeps.zoom m fun s _ hs => h s _ ⟨rfl, rfl, rfl, rfl, rfl, rfl, rfl⟩ hs

theorem access (field : SnappyFramedInputStream → Option Lease) :
    Keeps I (SnappyFramedInputStream.access field) := fun s hs =>
  wp_access_has (fun _ _ => h s _ ⟨rfl, rfl, rfl, rfl, rfl, rfl, rfl⟩ hs) fun _ => hs

theorem releaseField (field : SnappyFramedInputStream → Option Lease) :
    Keeps I (SnappyFramedInputStream.releaseField field) := fun s hs =>
  wp_releaseField_gaveBack <| by
    cases field s with
    | none => exact hs
    | some l => exact h s _ ⟨rfl, rfl, rfl, rfl, rfl, rfl, rfl⟩ hs

theorem allocate (answer : Nat → Nat → Except Throwable Bytes) (size : Nat) :
    Keeps I (SnappyFramedInputStream.allocate answer size) := fun s hs =>
  wp_allocate_cases (fun _ _ => h s _ ⟨rfl, rfl, rfl, rfl, rfl, rfl, rfl⟩ hs)
    fun _ => h s _ ⟨rfl, rfl, rfl, rfl, rfl, rfl, rfl⟩ hs

theorem allocateBuffersBasedOnSize (size : Nat) :
    Keeps I (SnappyFramedInputStream.allocateBuffersBasedOnSize platform size) := by
  refine Keeps.bind (h.releaseField _) fun _ => Keeps.bind (h.releaseField _) fun _ =>
    Keeps.bind (h.releaseField _) fun _ => ?_
  refine Keeps.bind (h.allocate _ _) fun _ =>
    Keeps.bind (h.update fun _ => ⟨rfl, rfl, rfl, rfl, rfl, rfl, rfl⟩) fun _ => ?_
  refine Keeps.bind (h.allocate _ _) fun _ =>
    Keeps.bind (h.update fun _ => ⟨rfl, rfl, rfl, rfl, rfl, rfl, rfl⟩) fun _ => ?_
  exact Keeps.bind (h.allocate _ _) fun _ => h.update fun _ => ⟨rfl, rfl, rfl, rfl, rfl, rfl, rfl⟩

theorem reallocateForBlock (uncompressedLength : Nat) :
    Keeps I (SnappyFramedInputStream.reallocateForBlock platform uncompressedLength) := by
  refine Keeps.bind (h.releaseField _) fun _ => Keeps.bind (h.releaseField _) fun _ => ?_
  refine Keeps.bind (h.allocate _ _) fun _ =>
    Keeps.bind (h.update fun _ => ⟨rfl, rfl, rfl, rfl, rfl, rfl, rfl⟩) fun _ => ?_
  exact Keeps.bind (h.allocate _ _) fun _ => h.update fun _ => ⟨rfl, rfl, rfl, rfl, rfl, rfl, rfl⟩

theorem readBlockHeader : Keeps I readBlockHeader := by
  refine Keeps.bind (h.update fun _ => ⟨rfl, rfl, rfl, rfl, rfl, rfl, rfl⟩) fun _ => ?_
  refine Keeps.bind (h.onRbc _) fun p => Keeps.ite (Keeps.pure _) ?_
  exact Keeps.ite (Keeps.throw _) (Keeps.pure _)

theorem skipFrame (length : Nat) : Keeps I (skipFrame length) := by
  refine Keeps.bind (h.access _) fun _ => Keeps.bind (h.onRbc _) fun p => ?_
  exact h.update fun _ => ⟨rfl, rfl, rfl, rfl, rfl, rfl, rfl⟩

theorem readFrame (length : Nat) : Keeps I (readFrame platform length) := by
  refine Keeps.bind Keeps.get fun _ => Keeps.bind (Keeps.when (h.allocateBuffersBasedOnSize _)) fun _ => ?_
  refine Keeps.bind (h.access _) fun _ => Keeps.bind (Keeps.fromExcept _) fun _ =>
    Keeps.bind (h.onRbc _) fun p => ?_
  refine Keeps.bind (h.update fun _ => ⟨rfl, rfl, rfl, rfl, rfl, rfl, rfl⟩) fun _ => ?_
  exact Keeps.ite (Keeps.throw _) (Keeps.bind (h.access _) fun _ => Keeps.pure _)

theorem uncompress (codec : Codec) (payload : Bytes) : Keeps I (uncompress codec payload) := by
  refine Keeps.bind (h.access _) fun _ => Keeps.bind (h.access _) fun _ => ?_
  refine Keeps.bind (h.update fun _ => ⟨rfl, rfl, rfl, rfl, rfl, rfl, rfl⟩) fun _ => ?_
  exact Keeps.bind (Keeps.fromExcept _) fun _ => Keeps.pure _

theorem copyToBuffer (data : Bytes) : Keeps I (copyToBuffer data) := by
  refine Keeps.bind (h.access _) fun _ => Keeps.ite (Keeps.throw _) ?_
  exact h.update fun _ => ⟨rfl, rfl, rfl, rfl, rfl, rfl, rfl⟩

/-- If it does not speak of the place itself, decoding a frame keeps it too. -/
theorem uncompressFrame (hplace : ∀ s n k, I s → I { s with valid := n, position := k })
    (payload : Bytes) : Keeps I (uncompressFrame platform payload) := by
  refine Keeps.bind (h.access _) fun _ => Keeps.bind (Keeps.fromExcept _) fun _ =>
    Keeps.bind Keeps.get fun _ => Keeps.bind (Keeps.when (h.reallocateForBlock _)) fun _ => ?_
  refine Keeps.bind (h.uncompress _ _) fun _ =>
    Keeps.bind (Keeps.update fun s hs => hplace s _ s.position hs) fun _ => ?_
  refine Keeps.bind (h.access _) fun _ => Keeps.bind (h.copyToBuffer _) fun _ => ?_
  exact Keeps.update fun s hs => hplace s s.valid _ hs

theorem copyFrame (hplace : ∀ s n k, I s → I { s with valid := n, position := k })
    (payload : Bytes) : Keeps I (copyFrame payload) := by
  refine Keeps.bind (Keeps.update fun s hs => hplace s _ _ hs) fun _ => ?_
  exact Keeps.bind (h.access _) fun _ => h.copyToBuffer _

theorem close (hclosed : ∀ s, I s → I { s with closed := true }) (sourceFails : Bool) :
    Keeps I (close sourceFails) := by
  refine Keeps.ensuring (Keeps.ite (Keeps.throw _) (Keeps.pure _)) ?_
  refine Keeps.bind Keeps.get fun _ => Keeps.when ?_
  refine Keeps.bind (Keeps.update hclosed) fun _ => ?_
  refine Keeps.bind (h.releaseField _) fun _ =>
    Keeps.bind (h.update fun _ => ⟨rfl, rfl, rfl, rfl, rfl, rfl, rfl⟩) fun _ => ?_
  refine Keeps.bind (h.releaseField _) fun _ =>
    Keeps.bind (h.update fun _ => ⟨rfl, rfl, rfl, rfl, rfl, rfl, rfl⟩) fun _ => ?_
  exact Keeps.bind (h.releaseField _) fun _ => h.update fun _ => ⟨rfl, rfl, rfl, rfl, rfl, rfl, rfl⟩

end OfProgress

end SnappyJava.SnappyFramedInputStream
