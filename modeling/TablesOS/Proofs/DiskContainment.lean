import TablesOS.Kernel.UsbDisk
import TablesOS.Proofs.SectorTransfers

/-!
# The booted disk is contained and fails closed

Two things are followed through a call: which command blocks it sends, and
what the identity check made of the boot sector before the first WRITE(10).
Both are facts about what the call adds to the log, so the bus may be in any
state when the call begins, and the run lemma is an induction over calls that
each find another one.
-/

namespace TablesOS

namespace Usb

variable {w₀ w : Wire} {S : Nat → List Byte → Prop}

/-! ## What a command sends -/

/-- From `w₀` to `w` nothing was sent but what `S` allows. -/
def Sent (S : Nat → List Byte → Prop) (w₀ w : Wire) : Prop :=
  w.devices = w₀.devices ∧
    ∃ xs, w.log = w₀.log ++ xs ∧ ∀ i bytes f, Xfer.out i bytes f ∈ xs → S i bytes

theorem Sent.refl (S : Nat → List Byte → Prop) (w : Wire) : Sent S w w :=
  ⟨rfl, [], (List.append_nil _).symm, fun _ _ _ h => absurd h List.not_mem_nil⟩

theorem Sent.push {x : Xfer} {n : Nat} (h : Sent S w₀ w)
    (hx : ∀ i bytes f, x = .out i bytes f → S i bytes) :
    Sent S w₀ { w with next := n, log := w.log ++ [x] } := by
  obtain ⟨hdev, xs, hlog, hxs⟩ := h
  refine ⟨hdev, xs ++ [x], by rw [← List.append_assoc, ← hlog], ?_⟩
  intro i bytes f hmem
  rcases List.mem_append.mp hmem with hmem | hmem
  · exact hxs i bytes f hmem
  · exact hx i bytes f (List.mem_singleton.mp hmem).symm

/-- `m` sends nothing but what `S` allows. -/
def Sends {α : Type} (S : Nat → List Byte → Prop) (m : MscM α) : Prop :=
  ∀ w₀, Fallible.Triple (Sent S w₀) m (fun _ => Sent S w₀) (Sent S w₀)

namespace Sends

variable {α β : Type} {m m' : MscM α} {pipe : Pipe}

theorem pure (a : α) : Sends S (Pure.pure a : MscM α) :=
  fun _ => .pure fun _ h => h

theorem throw (e : String) : Sends S (Fallible.throw e : MscM α) :=
  fun _ => .throw fun _ h => h

theorem bind {f : α → MscM β} (hm : Sends S m) (hf : ∀ a, Sends S (f a)) : Sends S (m >>= f) :=
  fun w₀ => .bind (hm w₀) fun a => hf a w₀

theorem ite {c : Prop} [Decidable c] (h : Sends S m) (h' : Sends S m') :
    Sends S (if c then m else m') :=
  fun w₀ => .ite (fun _ => h w₀) fun _ => h' w₀

theorem transfer {x : Fate → Xfer} (hx : ∀ fate i bytes f, x fate = .out i bytes f → S i bytes) :
    Sends S (Usb.transfer x) := by
  intro w₀ w h
  have hpush : Sent S w₀ (w.step x) := h.push (hx (w.fate w.next))
  cases hf : w.fate w.next with
  | timeout =>
      rw [transfer_timeout hf]
      exact hpush
  | event cc moved =>
      rw [transfer_event hf]
      exact hpush

theorem bulkOut {bytes : List Byte} (h : S pipe.slotIdx bytes) :
    Sends S (Usb.bulkOut pipe bytes) := by
  refine .bind (.transfer fun fate i bytes' f heq => ?_) fun _ => .pure _
  injection heq with hi hbytes
  rw [← hi, ← hbytes]
  exact h

theorem bulkIn (pipe : Pipe) (buf : List Byte) : Sends S (Usb.bulkIn pipe buf) :=
  .bind (.transfer fun _ _ _ _ heq => by cases heq) fun _ => .pure _

theorem reset (pipe : Pipe) (dirIn : Bool) : Sends S (resetBulkEndpoint pipe dirIn) := by
  intro w₀ w h
  rw [reset_run]
  exact h.push fun _ _ _ heq => by cases heq

theorem dataStage {data : DataStage} (h : ∀ bytes, data = .write bytes → S pipe.slotIdx bytes) :
    Sends S (Usb.dataStage pipe data) := by
  cases data with
  | none => exact .pure _
  | read length =>
      exact .bind (.bulkIn _ _) fun _ => .ite (.bind (.reset _ _) fun _ => .pure _) (.pure _)
  | write bytes =>
      exact .bind (.bulkOut (h bytes rfl)) fun _ =>
        .ite (.bind (.reset _ _) fun _ => .pure _) (.pure _)

theorem statusStage (pipe : Pipe) : Sends S (Usb.statusStage pipe) :=
  .bind (.bulkIn _ _) fun _ => .ite (.pure _) <| .bind (.reset _ _) fun _ =>
    .bind (.bulkIn _ _) fun _ => .ite (.pure _) <| .bind (.reset _ _) fun _ => .throw _

theorem lift (r : Except String α) : Sends S (liftExcept r) := by
  cases r with
  | ok a => exact .pure a
  | error e => exact .throw e

theorem mscCommand {lun : Byte} {cb : List Byte} {data : DataStage} {tag : Nat}
    (hc : S pipe.slotIdx (cbw tag data lun cb))
    (hd : ∀ bytes, data = .write bytes → S pipe.slotIdx bytes) :
    Sends S (Usb.mscCommand pipe lun cb data tag) :=
  .ite (.throw _) <| .bind (.bulkOut hc) fun _ => .ite
    (.bind (.reset _ _) fun _ => .throw _) <|
    .bind (.dataStage hd) fun _ => .bind (.statusStage _) fun _ =>
      .bind (.lift _) fun _ => .pure _

theorem run (h : Sends S m) (w : Wire) : Sent S w (m w).2 := by
  have := h w w (.refl S w)
  rcases hm : m w with ⟨_ | a, w'⟩ <;> rw [hm] at this <;> exact this

end Sends

/-! ## What the calls on sectors send -/

/-- On the slot the call resolves to. -/
def OnSlot (w : Wire) (slotId : Byte) (i : Nat) : Prop :=
  ∃ pipe, Resolves w slotId pipe ∧ i = pipe.slotIdx

theorem mscReadSector_sent (slotId : Byte) (lba len tag : Nat) (w : Wire) :
    Sent (fun i c => OnSlot w slotId i ∧ c = cbw tag (.read (1 * sector)) 0 (rw10 0x28 lba 1)) w
      (mscReadSector slotId lba len tag w).2 := by
  rcases resolves_or w slotId with ⟨pipe, hp⟩ | ⟨e, he⟩
  · have : mscReadSector slotId lba len tag w = _ := Fallible.run_bind_ok (resolve_ok hp)
    rw [this]
    refine Sends.run (.bind (.bind (.mscCommand ⟨⟨pipe, hp, rfl⟩, rfl⟩ fun _ h => by cases h)
      fun _ => .pure _) fun _ => .ite (.throw _) (.ite (.throw _) (.pure _))) w
  · have : mscReadSector slotId lba len tag w = _ := Fallible.run_bind_error (resolve_error he)
    rw [this]
    exact .refl _ w

theorem mscSyncCache_sent (slotId : Byte) (tag : Nat) (w : Wire) :
    Sent (fun i c => OnSlot w slotId i ∧ c = cbw tag .none 0 [0x35, 0, 0, 0, 0, 0, 0, 0, 0, 0]) w
      (mscSyncCache slotId tag w).2 := by
  rcases resolves_or w slotId with ⟨pipe, hp⟩ | ⟨e, he⟩
  · have : mscSyncCache slotId tag w = _ := Fallible.run_bind_ok (resolve_ok hp)
    rw [this]
    exact Sends.run (.bind (.mscCommand ⟨⟨pipe, hp, rfl⟩, rfl⟩ fun _ h => by cases h)
      fun _ => .ite (.throw _) (.pure _)) w
  · have : mscSyncCache slotId tag w = _ := Fallible.run_bind_error (resolve_error he)
    rw [this]
    exact .refl _ w

theorem Sends.writeAttempt (pipe : Pipe) {lba tag : Nat} {data : List Byte}
    (hc : S pipe.slotIdx (cbw tag (.write (data.take (1 * sector))) 0 (rw10 0x2A lba 1)))
    (hd : S pipe.slotIdx (data.take (1 * sector))) :
    Sends S (Usb.writeAttempt pipe lba data tag) := by
  have hw : Sends S (scsiWrite10 pipe 0 lba 1 sector data tag) :=
    .ite (.throw _) (.bind (.mscCommand hc fun bytes h => by injection h with h; rwa [← h])
      fun _ => .pure _)
  intro w₀ w h
  have := hw w₀ w h
  unfold Usb.writeAttempt
  rcases hm : scsiWrite10 pipe 0 lba 1 sector data tag w with ⟨_ | a, w'⟩ <;>
    rw [hm] at this <;> exact this

theorem mscWriteSector_sent (slotId : Byte) (lba : Nat) (data : List Byte) (tag : Nat) (w : Wire) :
    Sent (fun i c => OnSlot w slotId i ∧
      (c = cbw tag (.write (data.take (1 * sector))) 0 (rw10 0x2A lba 1) ∨
        c = data.take (1 * sector))) w (mscWriteSector slotId lba data tag w).2 := by
  rcases resolves_or w slotId with ⟨pipe, hp⟩ | ⟨e, he⟩
  · have : mscWriteSector slotId lba data tag w = _ := Fallible.run_bind_ok (resolve_ok hp)
    rw [this]
    have hatt := Sends.writeAttempt (S := fun i c => OnSlot w slotId i ∧
      (c = cbw tag (.write (data.take (1 * sector))) 0 (rw10 0x2A lba 1) ∨
        c = data.take (1 * sector))) pipe
      ⟨⟨pipe, hp, rfl⟩, Or.inl rfl⟩ ⟨⟨pipe, hp, rfl⟩, Or.inr rfl⟩
    refine Sends.run (.bind hatt fun r => ?_) w
    cases r with
    | ok _ => exact .pure _
    | error _ => exact .bind hatt fun _ => .lift _
  · have : mscWriteSector slotId lba data tag w = _ := Fallible.run_bind_error (resolve_error he)
    rw [this]
    exact .refl _ w

/-! ## Contained calls -/

/-- A ten-byte SCSI command. -/
def IsCommand (opcode : Byte) (c : List Byte) : Prop := c.length = cbwLen ∧ opcodeOf c = opcode

/-- The identity check has found the boot GUID: the log holds a READ(10) of
LBA 0, and the block it left in its buffer carries it. -/
def Checked (guid : List Byte) (i : Nat) (xs : List Xfer) : Prop :=
  ∃ before c sent cc moved rest,
    xs = before ++ .out i c (.event 1 sent) :: .inn i sector (.event cc moved) :: rest ∧
    IsCommand 0x28 c ∧ lbaOf c = 0 ∧ guidOf (fill (List.replicate sector 0) moved) = guid

/-- Every WRITE(10) stays in the range and comes after an identity check on
the same device. -/
def Contained (lo hi : Nat) (guid : List Byte) (xs : List Xfer) : Prop :=
  ∀ before i c f rest, xs = before ++ .out i c f :: rest → IsCommand 0x2A c →
    (lo ≤ lbaOf c ∧ lbaOf c < hi) ∧ Checked guid i before

theorem length_cbw (tag : Nat) (data : DataStage) (lun opcode : Byte) (lba blocks : Nat) :
    (cbw tag data lun (rw10 opcode lba blocks)).length = cbwLen := rfl

variable {lo hi : Nat} {guid : List Byte} {slotId : Byte}

theorem contained_of_no_write {xs : List Xfer}
    (h : ∀ i c f, Xfer.out i c f ∈ xs → ¬ IsCommand 0x2A c) : Contained lo hi guid xs := by
  intro before i c f rest hxs hc
  refine absurd hc (h i c f ?_)
  rw [hxs]
  exact List.mem_append_right _ List.mem_cons_self

/-- After a check, writes of one sector in the range. -/
theorem contained_of_checked {xs ys : List Xfer} {i : Nat} (hx : Checked guid i xs)
    (hno : ∀ j c f, Xfer.out j c f ∈ xs → ¬ IsCommand 0x2A c)
    (hys : ∀ j c f, Xfer.out j c f ∈ ys → IsCommand 0x2A c → j = i ∧ lo ≤ lbaOf c ∧ lbaOf c < hi) :
    Contained lo hi guid (xs ++ ys) := by
  intro before j c f rest hsplit hc
  rcases List.append_eq_append_iff.mp hsplit with ⟨zs, hbefore, hys'⟩ | ⟨zs, hxs', hrest⟩
  · have hmem : Xfer.out j c f ∈ ys := by
      rw [hys']
      exact List.mem_append_right _ List.mem_cons_self
    obtain ⟨rfl, hrange⟩ := hys j c f hmem hc
    refine ⟨hrange, ?_⟩
    obtain ⟨b, c', sent, cc, moved, r, hb, hrest⟩ := hx
    refine ⟨b, c', sent, cc, moved, r ++ zs, ?_, hrest⟩
    rw [hbefore, hb]
    simp
  · cases zs with
    | nil =>
        rw [List.nil_append] at hrest
        rw [List.append_nil] at hxs'
        have hmem : Xfer.out j c f ∈ ys := by
          rw [← hrest]
          exact List.mem_cons_self
        obtain ⟨rfl, hrange⟩ := hys j c f hmem hc
        rw [hxs'] at hx
        exact ⟨hrange, hx⟩
    | cons z zs =>
        injection hrest with hz _
        refine absurd hc (hno j c f ?_)
        rw [hxs', hz]
        exact List.mem_append_right _ List.mem_cons_self

/-! ## The device -/

theorem not_write_of_read {tag lba j : Nat} {c : List Byte}
    (h : OnSlot w slotId j ∧ c = cbw tag (.read (1 * sector)) 0 (rw10 0x28 lba 1)) :
    ¬ IsCommand 0x2A c := by
  rintro ⟨-, hop⟩
  rw [h.2, opcodeOf_cbw] at hop
  exact absurd hop (by decide)

/-- The READ(10) of an identity check that passes. -/
theorem checked_of_read {slotId : Byte} {tag : Nat} {mbr : List Byte} {w' : Wire}
    (h : mscReadSector slotId 0 sector tag w = (.ok mbr, w')) (hguid : guidOf mbr = guid) :
    ∃ pipe xs, Resolves w slotId pipe ∧ w'.devices = w.devices ∧ w'.log = w.log ++ xs ∧
      Checked guid pipe.slotIdx xs ∧ ∀ j c f, Xfer.out j c f ∈ xs → ¬ IsCommand 0x2A c := by
  obtain ⟨hdev, xs, hlog, hxs⟩ := mscReadSector_sent slotId 0 sector tag w
  rw [h] at hdev hlog
  rcases resolves_or w slotId with ⟨pipe, hp⟩ | ⟨e, he⟩
  · obtain ⟨r, w'', hrun, hr⟩ := mscReadSector_run hp 0 tag
    rw [h] at hrun
    obtain ⟨rfl, rfl⟩ := Prod.mk.inj hrun
    rcases hr with ⟨moved, m, outcome, -, -, hr, sent, cc, mid, cc', hmade, -, -⟩ | ⟨-, e, hr⟩
    · refine ⟨pipe, xs, hp, hdev, hlog, ?_, fun j c f hmem => not_write_of_read (hxs j c f hmem)⟩
      rw [made_of_log hlog] at hmade
      rw [Except.ok.inj hr] at hguid
      exact ⟨[], _, sent, cc, moved, mid, hmade, ⟨length_cbw .., opcodeOf_cbw ..⟩,
        lbaOf_cbw _ _ _ _ (by decide) _, hguid⟩
    · cases hr
  · have hrun : mscReadSector slotId 0 sector tag w = _ :=
      Fallible.run_bind_error (resolve_error he)
    rw [h] at hrun
    cases hrun

/-- What no call changes of the device, and the latch. -/
structure Follows (d d' : UsbMscDevice) : Prop where
  slotId : d'.slotId = d.slotId
  sectors : d'.sectors = d.sectors
  identityGate : d'.identityGate = d.identityGate
  poisoned : d.poisoned = true → d'.poisoned = true

theorem Follows.refl (d : UsbMscDevice) : Follows d d := ⟨rfl, rfl, rfl, id⟩

theorem Follows.trans {d d' d'' : UsbMscDevice} (h : Follows d d') (h' : Follows d' d'') :
    Follows d d'' :=
  ⟨h'.slotId.trans h.slotId, h'.sectors.trans h.sectors, h'.identityGate.trans h.identityGate,
    fun hp => h'.poisoned (h.poisoned hp)⟩

theorem follows_bumpTag (d : UsbMscDevice) : Follows d d.bumpTag := ⟨rfl, rfl, rfl, id⟩

theorem follows_poison (d : UsbMscDevice) : Follows d d.poison := ⟨rfl, rfl, rfl, fun _ => rfl⟩

/-- A call on the device keeps to the range, whatever it comes to. -/
def Safe {α : Type} (lo : Nat) (guid : List Byte) (d : UsbMscDevice) (w : Wire)
    (p : Except StoreError α × UsbMscDevice × Wire) : Prop :=
  Follows d p.2.1 ∧ ∃ xs, p.2.2.log = w.log ++ xs ∧ Contained lo d.sectors guid xs

theorem safe_of_silent {α : Type} {d d' : UsbMscDevice} (h : Follows d d') (w : Wire)
    (r : Except StoreError α) : Safe lo guid d w (r, d', w) :=
  ⟨h, [], (List.append_nil _).symm, contained_of_no_write fun _ _ _ hmem =>
    absurd hmem List.not_mem_nil⟩

theorem readSector_safe (lba len : Nat) (d : UsbMscDevice) (w : Wire) :
    Safe lo guid d w (UsbMscDevice.readSector lba len (d, w)) := by
  unfold UsbMscDevice.readSector UsbMscDevice.onBus
  dsimp only
  by_cases h : d.poisoned ∨ len ≠ sector ∨ d.sectors ≤ lba
  · rw [if_pos h]
    exact safe_of_silent (.refl d) w _
  · rw [if_neg h]
    by_cases h' : 2 ^ 32 ≤ lba
    · rw [if_pos h']
      exact safe_of_silent (.refl d) w _
    · rw [if_neg h']
      obtain ⟨-, xs, hlog, hxs⟩ :=
        mscReadSector_sent d.bumpTag.slotId lba len d.bumpTag.nextTag w
      have hno : Contained lo d.sectors guid xs :=
        contained_of_no_write fun j c f hmem => not_write_of_read (hxs j c f hmem)
      rcases hr : mscReadSector d.bumpTag.slotId lba len d.bumpTag.nextTag w with ⟨_ | _, w'⟩ <;>
        rw [hr] at hlog <;> exact ⟨follows_bumpTag d, xs, hlog, hno⟩

theorem flush_safe (lo : Nat) (guid : List Byte) (d : UsbMscDevice) (w : Wire) :
    Safe lo guid d w (UsbMscDevice.flush (d, w)) := by
  unfold UsbMscDevice.flush
  dsimp only
  by_cases h : d.poisoned
  · rw [if_pos h]
    exact safe_of_silent (.refl d) w _
  · rw [if_neg h]
    obtain ⟨-, xs, hlog, hxs⟩ := mscSyncCache_sent d.slotId d.bumpTag.nextTag w
    refine ⟨follows_bumpTag d, xs, hlog, contained_of_no_write fun j c f hmem => ?_⟩
    rintro ⟨-, hop⟩
    rw [(hxs j c f hmem).2, show opcodeOf (cbw d.bumpTag.nextTag .none 0
      [0x35, 0, 0, 0, 0, 0, 0, 0, 0, 0]) = 0x35 from rfl] at hop
    exact absurd hop (by decide)

/-- What the identity check of a device that is not latched comes to. -/
theorem verifyIdentity_cases {d : UsbMscDevice} (hg : d.identityGate = some guid)
    (hp : d.poisoned = false) (w : Wire) :
    (∃ e d' w' xs, UsbMscDevice.verifyIdentity (d, w) = (.error e, d', w') ∧ Follows d d' ∧
      d'.poisoned = true ∧ w'.log = w.log ++ xs ∧
      ∀ j c f, Xfer.out j c f ∈ xs → ¬ IsCommand 0x2A c) ∨
    ∃ w' pipe xs, UsbMscDevice.verifyIdentity (d, w) = (.ok (), d.bumpTag, w') ∧
      Resolves w' d.slotId pipe ∧ w'.log = w.log ++ xs ∧ Checked guid pipe.slotIdx xs ∧
      ∀ j c f, Xfer.out j c f ∈ xs → ¬ IsCommand 0x2A c := by
  unfold UsbMscDevice.verifyIdentity
  dsimp only
  rw [hg]
  dsimp only
  rw [hp, if_neg Bool.false_ne_true]
  obtain ⟨-, xs, hlog, hxs⟩ := mscReadSector_sent d.bumpTag.slotId 0 sector d.bumpTag.nextTag w
  have hno := fun j c f hmem => not_write_of_read (hxs j c f hmem)
  rcases hr : mscReadSector d.bumpTag.slotId 0 sector d.bumpTag.nextTag w with ⟨e | mbr, w'⟩ <;>
    rw [hr] at hlog <;> dsimp only
  · exact Or.inl ⟨_, _, _, xs, rfl, (follows_bumpTag d).trans (follows_poison _), rfl, hlog, hno⟩
  · by_cases hguid : guidOf mbr = guid
    · rw [if_pos hguid]
      obtain ⟨pipe, ys, hpipe, hdev, hlog', hchecked, hno'⟩ := checked_of_read hr hguid
      refine Or.inr ⟨w', pipe, ys, rfl, ?_, hlog', hchecked, hno'⟩
      rw [Resolves, hdev]
      exact hpipe
    · rw [if_neg hguid]
      exact Or.inl ⟨_, _, _, xs, rfl, (follows_bumpTag d).trans (follows_poison _), rfl, hlog, hno⟩

theorem writeSector_safe {d : UsbMscDevice} (hg : d.identityGate = some guid) {lba : Nat}
    (hlo : lo ≤ lba) (buf : List Byte) (w : Wire) :
    Safe lo guid d w (UsbMscDevice.writeSector lba buf (d, w)) := by
  unfold UsbMscDevice.writeSector UsbMscDevice.onBus
  dsimp only
  by_cases h : d.poisoned ∨ buf.length ≠ sector ∨ d.sectors ≤ lba
  · rw [if_pos h]
    exact safe_of_silent (.refl d) w _
  · rw [if_neg h]
    rw [not_or, not_or, not_not, Nat.not_le, Bool.not_eq_true] at h
    obtain ⟨hpoison, hlen, hhi⟩ := h
    by_cases h' : 2 ^ 32 ≤ lba
    · rw [if_pos h']
      exact safe_of_silent (.refl d) w _
    · rw [if_neg h']
      rcases verifyIdentity_cases hg hpoison w with
        ⟨e, d', w', xs, hv, hfol, -, hlog, hno⟩ | ⟨w', pipe, xs, hv, hpipe, hlog, hchecked, hno⟩
      · rw [hv]
        exact ⟨hfol, xs, hlog, contained_of_no_write hno⟩
      · rw [hv]
        dsimp only
        obtain ⟨-, ys, hlog', hys⟩ := mscWriteSector_sent d.bumpTag.bumpTag.slotId lba buf
          d.bumpTag.bumpTag.nextTag w'
        have hall : Contained lo d.sectors guid (xs ++ ys) := by
          refine contained_of_checked hchecked hno fun j c f hmem hc => ?_
          obtain ⟨⟨pipe', hpipe', hj⟩, hc' | hc'⟩ := hys j c f hmem
          · refine ⟨by rw [hj, hpipe.unique hpipe'], ?_⟩
            rw [hc', lbaOf_cbw _ _ _ _ (Nat.not_le.mp h')]
            exact ⟨hlo, hhi⟩
          · have := hc.1
            rw [hc', List.length_take, hlen] at this
            exact absurd this (by decide)
        have hfol : Follows d d.bumpTag.bumpTag := (follows_bumpTag d).trans (follows_bumpTag _)
        rcases hr : mscWriteSector d.bumpTag.bumpTag.slotId lba buf
            d.bumpTag.bumpTag.nextTag w' with ⟨_ | _, w''⟩ <;>
          rw [hr] at hlog' <;> dsimp only <;>
          exact ⟨hfol, xs ++ ys, by rw [hlog', hlog, List.append_assoc], hall⟩

/-! ## The latch -/

theorem readSector_poisoned {d : UsbMscDevice} (hp : d.poisoned = true) (lba len : Nat)
    (w : Wire) : UsbMscDevice.readSector lba len (d, w) = (.error .io, (d, w)) := by
  unfold UsbMscDevice.readSector
  exact if_pos (Or.inl hp)

theorem writeSector_poisoned {d : UsbMscDevice} (hp : d.poisoned = true) (lba : Nat)
    (buf : List Byte) (w : Wire) :
    UsbMscDevice.writeSector lba buf (d, w) = (.error .io, (d, w)) := by
  unfold UsbMscDevice.writeSector
  exact if_pos (Or.inl hp)

theorem flush_poisoned {d : UsbMscDevice} (hp : d.poisoned = true) (w : Wire) :
    UsbMscDevice.flush (d, w) = (.error .io, (d, w)) := by
  unfold UsbMscDevice.flush
  exact if_pos hp

/-- The identity check that a write makes now would find another GUID, or
fail. -/
def CheckFails (guid : List Byte) (d : UsbMscDevice) (w : Wire) : Prop :=
  match (mscReadSector d.slotId 0 sector d.bumpTag.nextTag w).1 with
  | .error _ => True
  | .ok mbr => guidOf mbr ≠ guid

theorem writeSector_checkFails {d : UsbMscDevice} (hg : d.identityGate = some guid) {lba : Nat}
    {buf : List Byte} (hlba : lba < d.sectors) (hlba' : lba < 2 ^ 32)
    (hbuf : buf.length = sector) (h : CheckFails guid d w) :
    ∃ e d' w', UsbMscDevice.writeSector lba buf (d, w) = (.error e, d', w') ∧
      d'.poisoned = true := by
  by_cases hp : d.poisoned = true
  · exact ⟨_, _, _, writeSector_poisoned hp lba buf w, hp⟩
  · unfold UsbMscDevice.writeSector UsbMscDevice.verifyIdentity
    dsimp only
    rw [if_neg (by rw [not_or, not_or]; exact ⟨hp, not_not.mpr hbuf, Nat.not_le.mpr hlba⟩),
      if_neg (Nat.not_le.mpr hlba'), hg]
    dsimp only
    rw [if_neg hp]
    unfold CheckFails at h
    rcases hr : mscReadSector d.bumpTag.slotId 0 sector d.bumpTag.nextTag w with ⟨e | mbr, w'⟩
    · exact ⟨_, _, _, rfl, rfl⟩
    · have hne : guidOf mbr ≠ guid := by
        rw [show mscReadSector d.slotId 0 sector d.bumpTag.nextTag w = (.ok mbr, w') from hr] at h
        exact h
      dsimp only
      rw [if_neg hne]
      exact ⟨_, _, _, rfl, rfl⟩

/-! ## Runs -/

namespace UsbBootDisk

/-- The disk discovery makes: the volume lies between the boot region and the
end of the medium, and the gate is armed. -/
structure Fits (disk : UsbBootDisk) (guid : List Byte) : Prop where
  gate : disk.dev.identityGate = some guid
  range : disk.base + disk.sectors = disk.dev.sectors

variable {disk : UsbBootDisk} {base sectors lba len : Nat} {buf : List Byte}

theorem perform_read_out (h : sectors ≤ lba) (s : UsbMscDevice × Wire) :
    perform base sectors (.read lba len) s = (.error .io, s) :=
  Fallible.run_if_pos h _ _ s

theorem perform_read_in (h : ¬ sectors ≤ lba) (s : UsbMscDevice × Wire) :
    perform base sectors (.read lba len) s = UsbMscDevice.readSector (base + lba) len s :=
  Fallible.run_if_neg h _ _ s

theorem perform_write_out (h : sectors ≤ lba) (s : UsbMscDevice × Wire) :
    perform base sectors (.write lba buf) s = (.error .io, s) :=
  Fallible.run_if_pos h _ _ s

theorem perform_write_ok (h : ¬ sectors ≤ lba) {s s' : UsbMscDevice × Wire}
    (hw : UsbMscDevice.writeSector (base + lba) buf s = (.ok (), s')) :
    perform base sectors (.write lba buf) s = (.ok [], s') :=
  (Fallible.run_if_neg h _ _ s).trans (Fallible.run_bind_ok hw)

theorem perform_write_error (h : ¬ sectors ≤ lba) {s s' : UsbMscDevice × Wire} {e : StoreError}
    (hw : UsbMscDevice.writeSector (base + lba) buf s = (.error e, s')) :
    perform base sectors (.write lba buf) s = (.error e, s') :=
  (Fallible.run_if_neg h _ _ s).trans (Fallible.run_bind_error hw)

/-- One call: it keeps to the volume and leaves the disk what it was. -/
theorem call_safe (h : disk.Fits guid) (c : DiskCall) (w : Wire) :
    Follows disk.dev (disk.call c w).2.1.dev ∧
      (disk.call c w).2.1.base = disk.base ∧ (disk.call c w).2.1.sectors = disk.sectors ∧
      Contained disk.base disk.dev.sectors guid (disk.call c w).2.2 := by
  have hsafe : Safe disk.base guid disk.dev w (perform disk.base disk.sectors c (disk.dev, w)) := by
    cases c with
    | readBoot len => exact readSector_safe 0 len disk.dev w
    | read lba len =>
        by_cases hr : disk.sectors ≤ lba
        · rw [perform_read_out hr]
          exact safe_of_silent (.refl _) w _
        · rw [perform_read_in hr]
          exact readSector_safe _ len disk.dev w
    | write lba buf =>
        by_cases hr : disk.sectors ≤ lba
        · rw [perform_write_out hr]
          exact safe_of_silent (.refl _) w _
        · have := writeSector_safe h.gate (Nat.le_add_right disk.base lba) buf w
          rcases hw : UsbMscDevice.writeSector (disk.base + lba) buf (disk.dev, w) with
            ⟨_ | _, d', w'⟩ <;> rw [hw] at this
          · rw [perform_write_error hr hw]
            exact this
          · rw [perform_write_ok hr hw]
            exact this
    | flush =>
        have := flush_safe disk.base guid disk.dev w
        rcases hw : UsbMscDevice.flush (disk.dev, w) with ⟨_ | _, d', w'⟩ <;> rw [hw] at this
        · have hperform : perform disk.base disk.sectors .flush (disk.dev, w) = _ :=
            Fallible.run_bind_error hw
          rw [hperform]
          exact this
        · have hperform : perform disk.base disk.sectors .flush (disk.dev, w) = _ :=
            Fallible.run_bind_ok hw
          rw [hperform]
          exact this
  obtain ⟨hfol, xs, hlog, hcont⟩ := hsafe
  unfold call
  rcases hp : perform disk.base disk.sectors c (disk.dev, w) with ⟨r, d', w'⟩
  rw [hp] at hfol hlog
  refine ⟨hfol, rfl, rfl, ?_⟩
  dsimp only at hlog ⊢
  rw [hlog, List.drop_left]
  exact hcont

theorem Fits.call (h : disk.Fits guid) (c : DiskCall) (w : Wire) :
    (disk.call c w).2.1.Fits guid := by
  obtain ⟨hfol, hbase, hsectors, -⟩ := call_safe h c w
  exact ⟨hfol.identityGate.trans h.gate, by rw [hbase, hsectors, hfol.sectors, h.range]⟩

theorem Fits.after (h : disk.Fits guid) (calls : List (DiskCall × Wire)) :
    (disk.after calls).Fits guid := by
  induction calls generalizing disk with
  | nil => exact h
  | cons p calls ih => exact ih (h.call p.1 p.2)

/-- Every call of a run keeps to the volume. -/
theorem run_contained (h : disk.Fits guid) (calls : List (DiskCall × Wire)) :
    ∀ p ∈ disk.run calls, Contained disk.base disk.dev.sectors guid p.2 := by
  induction calls generalizing disk with
  | nil => intro p hp; cases hp
  | cons q calls ih =>
      obtain ⟨c, w⟩ := q
      obtain ⟨hfol, hbase, -, hcont⟩ := call_safe h c w
      intro p hp
      rcases List.mem_cons.mp hp with rfl | hp
      · exact hcont
      · have := ih (h.call c w) p hp
        rw [hbase, hfol.sectors] at this
        exact this

/-- A latched device answers nothing and stays latched. -/
theorem call_poisoned (hp : disk.dev.poisoned = true) (c : DiskCall) (w : Wire) :
    (∃ e, (disk.call c w).1 = .error e) ∧ (disk.call c w).2.1.dev.poisoned = true := by
  have hcall : ∃ e, perform disk.base disk.sectors c (disk.dev, w) = (.error e, (disk.dev, w)) := by
    cases c with
    | readBoot len => exact ⟨_, readSector_poisoned hp _ _ _⟩
    | read lba len =>
        by_cases hr : disk.sectors ≤ lba
        · exact ⟨_, perform_read_out hr _⟩
        · exact ⟨_, (perform_read_in hr _).trans (readSector_poisoned hp _ _ _)⟩
    | write lba buf =>
        by_cases hr : disk.sectors ≤ lba
        · exact ⟨_, perform_write_out hr _⟩
        · exact ⟨_, perform_write_error hr (writeSector_poisoned hp _ _ _)⟩
    | flush => exact ⟨_, Fallible.run_bind_error (flush_poisoned hp _)⟩
  obtain ⟨e, he⟩ := hcall
  unfold call
  rw [he]
  exact ⟨⟨e, rfl⟩, hp⟩

theorem run_poisoned (hp : disk.dev.poisoned = true) (calls : List (DiskCall × Wire)) :
    ∀ p ∈ disk.run calls, ∃ e, p.1 = .error e := by
  induction calls generalizing disk with
  | nil => intro p h; cases h
  | cons q calls ih =>
      obtain ⟨c, w⟩ := q
      obtain ⟨herr, hp'⟩ := call_poisoned hp c w
      intro p h
      rcases List.mem_cons.mp h with rfl | h
      · exact herr
      · exact ih hp' p h

/-- After a check that fails no call answers. -/
theorem run_checkFails (h : disk.Fits guid) (hlba : lba < disk.sectors) (hbuf : buf.length = sector)
    (hlba' : disk.base + lba < 2 ^ 32)
    (hf : CheckFails guid disk.dev w) (later : List (DiskCall × Wire)) :
    ∀ p ∈ disk.run ((.write lba buf, w) :: later), ∃ e, p.1 = .error e := by
  have hrange : disk.base + lba < disk.dev.sectors := by
    have := h.range
    omega
  obtain ⟨e, d', w', hw, hp⟩ := writeSector_checkFails h.gate hrange hlba' hbuf hf
  have hperform : perform disk.base disk.sectors (.write lba buf) (disk.dev, w) =
      (.error e, (d', w')) :=
    perform_write_error (Nat.not_le.mpr hlba) hw
  have hcall : disk.call (.write lba buf) w =
      (.error e, { disk with dev := d' }, w'.log.drop w.log.length) := by
    unfold call
    rw [hperform]
  intro p hmem
  unfold run at hmem
  rw [hcall] at hmem
  rcases List.mem_cons.mp hmem with rfl | hmem
  · exact ⟨e, rfl⟩
  · exact run_poisoned hp later p hmem

theorem after_base_sectors (h : disk.Fits guid) (calls : List (DiskCall × Wire)) :
    (disk.after calls).base = disk.base ∧ (disk.after calls).sectors = disk.sectors := by
  induction calls generalizing disk with
  | nil => exact ⟨rfl, rfl⟩
  | cons p calls ih =>
      obtain ⟨-, hbase, hsectors, -⟩ := call_safe h p.1 p.2
      obtain ⟨hbase', hsectors'⟩ := ih (h.call p.1 p.2)
      exact ⟨hbase'.trans hbase, hsectors'.trans hsectors⟩

theorem run_drop (before later : List (DiskCall × Wire)) :
    (disk.run (before ++ later)).drop before.length = (disk.after before).run later := by
  induction before generalizing disk with
  | nil => rfl
  | cons p before ih => exact ih

end UsbBootDisk

/-! ## The disk that discovery returns -/

theorem open_ok {probes : List MscProbe} {slotId : Byte} {d : UsbMscDevice}
    (h : UsbMscDevice.open probes slotId = .ok d) :
    ∃ probe ∈ probes, ∃ cap, probe.slotId = slotId ∧ probe.capacity = some cap ∧
      d = ⟨slotId, cap.totalBlocks, cap.blockSize, 0xCAFE0000, none, false⟩ := by
  unfold UsbMscDevice.open at h
  cases hf : probes.find? (·.slotId == slotId) with
  | none => rw [hf] at h; cases h
  | some probe =>
      rw [hf] at h
      dsimp only at h
      cases hc : probe.capacity with
      | none => rw [hc] at h; cases h
      | some cap =>
          rw [hc] at h
          dsimp only at h
          by_cases hb : cap.blockSize ≠ sector
          · rw [if_pos hb] at h
            cases h
          · rw [if_neg hb] at h
            have hslot := List.find?_some hf
            exact ⟨probe, List.mem_of_find?_eq_some hf, cap, eq_of_beq (by exact hslot), hc,
              (Except.ok.inj h).symm⟩

theorem discoverBootDisk_some {probes : List MscProbe} {dataLba : Nat} {disk : UsbBootDisk}
    (h : discoverBootDisk probes dataLba guid = some disk) :
    disk.Fits guid ∧ disk.base = dataLba ∧ ∃ probe ∈ probes, ∃ cap,
      probe.slotId = disk.dev.slotId ∧ probe.capacity = some cap ∧
      disk.dev.sectors = cap.totalBlocks := by
  obtain ⟨⟨slot, booted⟩, -, hsome⟩ := List.exists_of_findSome?_eq_some h
  dsimp only at hsome
  by_cases hb : (!booted) = true
  · rw [if_pos hb] at hsome
    cases hsome
  · rw [if_neg hb] at hsome
    unfold UsbMscDevice.openWithIdentityGate at hsome
    cases ho : UsbMscDevice.open probes slot with
    | error e => rw [ho] at hsome; cases hsome
    | ok d =>
        rw [ho] at hsome
        dsimp only at hsome
        obtain ⟨probe, hmem, cap, hslot, hcap, rfl⟩ := open_ok ho
        by_cases hle : cap.totalBlocks ≤ dataLba
        · rw [if_pos hle] at hsome
          cases hsome
        · rw [if_neg hle] at hsome
          cases hsome
          refine ⟨⟨rfl, ?_⟩, rfl, probe, hmem, cap, hslot, hcap, rfl⟩
          dsimp only
          omega

/-- Over every run of the disk that discovery returned: each WRITE(10) lies in
the volume and comes after an identity check of the same call that found the
boot GUID; and from a call whose check fails no call answers. -/
theorem boot_disk_contained {probes : List MscProbe} {dataLba : Nat} {guid : List Byte}
    {disk : UsbBootDisk} (h : discoverBootDisk probes dataLba guid = some disk) :
    (∃ probe ∈ probes, ∃ cap, probe.slotId = disk.dev.slotId ∧ probe.capacity = some cap ∧
      ∀ calls, ∀ p ∈ disk.run calls, Contained dataLba cap.totalBlocks guid p.2) ∧
    ∀ before lba buf w later, lba < disk.sectors → buf.length = sector →
      CheckFails guid (disk.after before).dev w →
      ∀ p ∈ (disk.run (before ++ (.write lba buf, w) :: later)).drop before.length,
        ∃ e, p.1 = .error e := by
  obtain ⟨hfits, hbase, probe, hmem, cap, hslot, hcap, hsectors⟩ := discoverBootDisk_some h
  constructor
  · refine ⟨probe, hmem, cap, hslot, hcap, fun calls p hp => ?_⟩
    rw [← hbase, ← hsectors]
    exact UsbBootDisk.run_contained hfits calls p hp
  · intro before lba buf w later hlba hbuf hf
    obtain ⟨hbase', hsectors'⟩ := UsbBootDisk.after_base_sectors hfits before
    rw [UsbBootDisk.run_drop]
    refine UsbBootDisk.run_checkFails (hfits.after before) (by rw [hsectors']; exact hlba) hbuf
      ?_ hf later
    have hrange := hfits.range
    have hcap' : cap.totalBlocks ≤ 2 ^ 32 := cap.lastLba.isLt
    rw [hbase']
    omega

/-- The boot sector of a stick with the system GUID `00 01 .. 0F`. -/
def stickMbr : List Byte :=
  List.replicate 0x1B0 0 ++ [0x54, 0x42, 0x4C, 0x53, 0x42, 0x4F, 0x4F, 0x54] ++
    List.replicate 36 0 ++ [0, 1, 2, 3, 4, 5, 6, 7, 8, 9, 10, 11, 12, 13, 14, 15] ++
    List.replicate 18 0 ++ [0x55, 0xAA]

/-- A stick of 2^16 blocks on slot 1. -/
def stickProbe : MscProbe := ⟨1, true, some ⟨65535, sector⟩, stickMbr⟩

def stickDisk : UsbBootDisk :=
  ⟨⟨1, 65536, sector, 0xCAFE0000, some (guidOf stickMbr), false⟩, 4096, 61440⟩

/-- The stick is found, and once it has been pulled out no call answers. -/
theorem boot_disk_contained_stick :
    (∃ probe ∈ [stickProbe], ∃ cap, probe.slotId = stickDisk.dev.slotId ∧
      probe.capacity = some cap ∧
      ∀ calls, ∀ p ∈ stickDisk.run calls, Contained 4096 cap.totalBlocks (guidOf stickMbr) p.2) ∧
    ∀ later, ∀ p ∈ (stickDisk.run ([] ++ (.write 7 (List.replicate sector 0),
      ⟨fun _ => .timeout, 0, [], XhciState.fresh⟩) :: later)).drop 0, ∃ e, p.1 = .error e := by
  have h : discoverBootDisk [stickProbe] 4096 (guidOf stickMbr) = some stickDisk := by
    decide +kernel
  obtain ⟨hrange, hlatch⟩ := boot_disk_contained h
  exact ⟨hrange, fun later => hlatch [] 7 _ _ later (by decide) List.length_replicate trivial⟩

end Usb

end TablesOS
