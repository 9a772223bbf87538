import TablesOS.Kernel.Ui
import TablesOS.Proofs.DiskContainment

/-!
# Which disks the kernel writes to

The rule is one about traffic: a write is one of the mounted volume, behind
the boot region of the disk that carries the system GUID, or one of an install
that the user has confirmed, on a drive that is not the booted disk. Volume
writes come from the containment of the boot disk. For the installer two
things are followed: everything it sends goes to the slot it was given, and
nothing is written before its check of the target. What is left are the events
that break the rule, and they are exactly the `Strays`.
-/

namespace TablesOS

open Usb

variable {w₀ w : Wire} {S S' : Nat → List Byte → Prop} {slotId : Byte}

/-! ## Traffic of one slot -/

theorem Usb.Sent.mono (h : Sent S w₀ w) (hS : ∀ i c, S i c → S' i c) : Sent S' w₀ w := by
  obtain ⟨hdev, xs, hlog, hxs⟩ := h
  exact ⟨hdev, xs, hlog, fun i c f hmem => hS i c (hxs i c f hmem)⟩

theorem Usb.Sent.trans {w' : Wire} (h : Sent S w₀ w) (h' : Sent S w w') : Sent S w₀ w' := by
  obtain ⟨hdev, xs, hlog, hxs⟩ := h
  obtain ⟨hdev', ys, hlog', hys⟩ := h'
  refine ⟨hdev'.trans hdev, xs ++ ys, by rw [hlog', hlog, List.append_assoc], ?_⟩
  intro i c f hmem
  rcases List.mem_append.mp hmem with hmem | hmem
  · exact hxs i c f hmem
  · exact hys i c f hmem

/-- What is new in the log. -/
theorem Usb.Sent.mem_drop (h : Sent S w₀ w) {i : Nat} {c : List Byte} {f : Fate}
    (hmem : Xfer.out i c f ∈ w.log.drop w₀.log.length) : S i c := by
  obtain ⟨-, xs, hlog, hxs⟩ := h
  rw [hlog, List.drop_left] at hmem
  exact hxs i c f hmem

/-- Everything since `w₀` went to the slot. -/
def OnlyTo (w₀ : Wire) (slotId : Byte) (w : Wire) : Prop :=
  Sent (fun i _ => OnSlot w₀ slotId i) w₀ w

theorem OnlyTo.refl (w : Wire) (slotId : Byte) : OnlyTo w slotId w := Sent.refl _ w

theorem OnlyTo.sent {w' : Wire} (h : OnlyTo w₀ slotId w)
    (h' : Sent (fun i _ => OnSlot w slotId i) w w') : OnlyTo w₀ slotId w' := by
  refine Sent.trans h (h'.mono fun i _ hi => ?_)
  obtain ⟨pipe, hp, rfl⟩ := hi
  unfold Resolves at hp
  rw [h.1] at hp
  exact ⟨pipe, hp, rfl⟩

/-- The device is the one on the slot, and everything went there. -/
def Holds (w₀ : Wire) (slotId : Byte) (s : UsbMscDevice × Wire) : Prop :=
  s.1.slotId = slotId ∧ OnlyTo w₀ slotId s.2

theorem holds_onBus {α : Type} {m : UsbMscDevice → MscM α} {s : UsbMscDevice × Wire}
    (hm : ∀ d w, d.slotId = slotId → Sent (fun i _ => OnSlot w slotId i) w (m d w).2)
    (h : Holds w₀ slotId s) : Holds w₀ slotId (UsbMscDevice.onBus m s).2 := by
  obtain ⟨d, w⟩ := s
  have hsent := hm d.bumpTag w h.1
  unfold UsbMscDevice.onBus
  dsimp only
  rcases hr : m d.bumpTag w with ⟨_ | _, w'⟩ <;> rw [hr] at hsent <;>
    exact ⟨h.1, h.2.sent hsent⟩

theorem holds_readSector {s : UsbMscDevice × Wire} (lba len : Nat) (h : Holds w₀ slotId s) :
    Holds w₀ slotId (UsbMscDevice.readSector lba len s).2 := by
  unfold UsbMscDevice.readSector
  dsimp only
  split
  · exact h
  split
  · exact h
  refine holds_onBus (fun d w hd => ?_) h
  rw [hd]
  exact (mscReadSector_sent _ _ _ _ w).mono fun _ _ => And.left

theorem holds_verifyIdentity {s : UsbMscDevice × Wire} (h : Holds w₀ slotId s) :
    Holds w₀ slotId (UsbMscDevice.verifyIdentity s).2 := by
  obtain ⟨d, w⟩ := s
  unfold UsbMscDevice.verifyIdentity
  dsimp only
  split
  · exact h
  split
  · exact h
  have hsent := (mscReadSector_sent d.bumpTag.slotId 0 sector d.bumpTag.nextTag w).mono
    fun _ _ => And.left
  rw [show d.bumpTag.slotId = slotId from h.1] at hsent
  rw [show d.bumpTag.slotId = slotId from h.1]
  rcases hr : mscReadSector slotId 0 sector d.bumpTag.nextTag w with ⟨_ | mbr, w'⟩ <;>
    rw [hr] at hsent
  · exact ⟨h.1, h.2.sent hsent⟩
  · dsimp only
    split <;> exact ⟨h.1, h.2.sent hsent⟩

theorem holds_writeSector {s : UsbMscDevice × Wire} (lba : Nat) (buf : List Byte)
    (h : Holds w₀ slotId s) : Holds w₀ slotId (UsbMscDevice.writeSector lba buf s).2 := by
  unfold UsbMscDevice.writeSector
  dsimp only
  split
  · exact h
  split
  · exact h
  have hverify := holds_verifyIdentity h
  obtain ⟨d, w⟩ := s
  rcases hv : UsbMscDevice.verifyIdentity (d, w) with ⟨_ | _, s'⟩ <;> rw [hv] at hverify
  · exact hverify
  · refine holds_onBus (fun d w hd => ?_) hverify
    rw [hd]
    exact (mscWriteSector_sent _ _ _ _ w).mono fun _ _ => And.left

theorem holds_flush {s : UsbMscDevice × Wire} (h : Holds w₀ slotId s) :
    Holds w₀ slotId (UsbMscDevice.flush s).2 := by
  obtain ⟨d, w⟩ := s
  unfold UsbMscDevice.flush
  dsimp only
  split
  · exact h
  have hsent := (mscSyncCache_sent d.slotId d.bumpTag.nextTag w).mono fun _ _ => And.left
  rw [show d.slotId = slotId from h.1] at hsent ⊢
  exact ⟨h.1, h.2.sent hsent⟩

theorem holds_perform {s : UsbMscDevice × Wire} (base sectors : Nat) (c : DiskCall)
    (h : Holds w₀ slotId s) :
    Holds w₀ slotId (UsbBootDisk.perform base sectors c s).2 := by
  cases c with
  | readBoot len => exact holds_readSector 0 len h
  | read lba len =>
      by_cases hr : sectors ≤ lba
      · rw [UsbBootDisk.perform_read_out hr]
        exact h
      · rw [UsbBootDisk.perform_read_in hr]
        exact holds_readSector _ len h
  | write lba buf =>
      by_cases hr : sectors ≤ lba
      · rw [UsbBootDisk.perform_write_out hr]
        exact h
      · have hw := holds_writeSector (base + lba) buf h
        rcases hrun : UsbMscDevice.writeSector (base + lba) buf s with ⟨_ | _, s'⟩ <;>
          rw [hrun] at hw
        · rw [UsbBootDisk.perform_write_error hr hrun]
          exact hw
        · rw [UsbBootDisk.perform_write_ok hr hrun]
          exact hw
  | flush =>
      have hf := holds_flush h
      rcases hrun : UsbMscDevice.flush s with ⟨_ | _, s'⟩ <;> rw [hrun] at hf
      · rw [show UsbBootDisk.perform base sectors .flush s = _ from Fallible.run_bind_error hrun]
        exact hf
      · rw [show UsbBootDisk.perform base sectors .flush s = _ from Fallible.run_bind_ok hrun]
        exact hf

theorem mscWriteBlocks_sent (slotId : Byte) (lba blocks : Nat) (data : List Byte) (tag : Nat)
    (w : Wire) :
    Sent (fun i _ => OnSlot w slotId i) w (mscWriteBlocks slotId lba blocks data tag w).2 := by
  rcases resolves_or w slotId with ⟨pipe, hp⟩ | ⟨e, he⟩
  · have : mscWriteBlocks slotId lba blocks data tag w = _ := Fallible.run_bind_ok (resolve_ok hp)
    rw [this]
    have hslot : OnSlot w slotId pipe.slotIdx := ⟨pipe, hp, rfl⟩
    exact Sends.run (.bind (.ite (.throw _) (.bind (.mscCommand hslot fun _ _ => hslot)
      fun _ => .pure _)) fun _ => .ite (.throw _) (.pure _)) w
  · have : mscWriteBlocks slotId lba blocks data tag w = _ :=
      Fallible.run_bind_error (resolve_error he)
    rw [this]
    exact .refl _ w

theorem open_slotId {probes : List MscProbe} {dev : UsbMscDevice}
    (h : UsbMscDevice.open probes slotId = .ok dev) : dev.slotId = slotId := by
  obtain ⟨-, -, -, -, -, rfl⟩ := open_ok h
  rfl

/-! ## The installer keeps to its slot -/

/-- No command but what `W` allows is issued. -/
def Commands {α : Type} (W : AtaCommand → Prop) (m : AtaM α) : Prop :=
  Fallible.Triple (fun b => ∀ c ∈ b.log, W c) m (fun _ b => ∀ c ∈ b.log, W c)
    (fun b => ∀ c ∈ b.log, W c)

variable {W : AtaCommand → Prop}

theorem Commands.run {α : Type} {m : AtaM α} (h : Commands W m) {b : IdeBus}
    (hb : ∀ c ∈ b.log, W c) : ∀ c ∈ (m b).2.log, W c := by
  have := h b hb
  rcases hm : m b with ⟨_ | _, b'⟩ <;> rw [hm] at this <;> exact this

theorem commands_issue {c : AtaCommand} (h : W c) : Commands W c.issue := by
  intro b hb
  have hlog : ∀ c' ∈ b.log ++ [c], W c' := by
    intro c' hmem
    rcases List.mem_append.mp hmem with hmem | hmem
    · exact hb c' hmem
    · rw [List.mem_singleton.mp hmem]
      exact h
  unfold AtaCommand.issue
  cases b.answer b.next with
  | none => exact hlog
  | some bytes => exact hlog

theorem commands_readSectorAt {drive : IdeSlot} {lba : Nat} (h : W (.read drive (lba28 lba))) :
    Commands W (readSectorAt drive lba) :=
  .bind (commands_issue h) fun _ => .pure fun _ hb => hb

def AtaCommand.IsWrite : AtaCommand → Prop
  | .write _ _ _ => True
  | _ => False

theorem reads_only (drive : IdeSlot) (lba : Nat) :
    Commands (fun c => ¬ c.IsWrite) (readSectorAt drive lba) :=
  commands_readSectorAt id

namespace Installing

/-- USB traffic since `w₀` went to the slot, and no IDE disk was written. -/
structure Confined (w₀ : Wire) (slotId : Byte) (s : Installing) : Prop where
  wire : OnlyTo w₀ slotId s.wire
  ide : ∀ c ∈ s.ide.log, ¬ c.IsWrite

/-- A step that keeps this up, wherever one begins to look. -/
def Confines {α : Type} (w₀ : Wire) (slotId : Byte) (m : InstallM α) : Prop :=
  Fallible.Triple (Confined w₀ slotId) m (fun _ => Confined w₀ slotId) (Confined w₀ slotId)

variable {α : Type} {dev : UsbMscDevice}

/-- What a run has sent, seen from where it began. -/
theorem Confines.wire_run {m : InstallM α} {s : Installing} (h : Confines s.wire slotId m)
    (hide : ∀ c ∈ s.ide.log, ¬ c.IsWrite) :
    Confined s.wire slotId (m s).2 := by
  have := h s ⟨.refl _ _, hide⟩
  rcases hm : m s with ⟨_ | _, s'⟩ <;> rw [hm] at this <;> exact this

theorem confines_throw : Confines w₀ slotId (Fallible.throw () : InstallM α) :=
  .throw fun _ h => h

theorem confines_record (f : InstallReport → InstallReport) :
    Confines w₀ slotId (record f) := fun _ h => ⟨h.wire, h.ide⟩

theorem triple_onDevice {m : DeviceM α} (hd : dev.slotId = slotId)
    (hm : ∀ s, Holds w₀ slotId s → Holds w₀ slotId (m s).2) :
    Fallible.Triple (Confined w₀ slotId) (onDevice dev m)
      (fun p s => p.2.slotId = slotId ∧ Confined w₀ slotId s) (Confined w₀ slotId) := by
  intro s h
  obtain ⟨hid, hwire⟩ := hm (dev, s.wire) ⟨hd, h.wire⟩
  exact ⟨hid, hwire, h.ide⟩

theorem triple_storeCalls (base sectors : Nat) (cs : List DiskCall) {dev : UsbMscDevice}
    (hd : dev.slotId = slotId) : Confines w₀ slotId (storeCalls base sectors cs dev) := by
  induction cs generalizing dev with
  | nil => exact .pure fun _ h => h
  | cons c cs ih =>
      refine .bind (triple_onDevice hd fun s h => holds_perform base sectors c h) fun p => ?_
      rintro s ⟨hid, hs⟩
      exact ih hid s hs

theorem confines_readPrefix (guid : List Byte) (lbas : List Nat) :
    Confines w₀ slotId (readPrefix guid lbas) := by
  induction lbas with
  | nil => exact .pure fun _ h => h
  | cons lba lbas ih =>
      intro s h
      have hno := (reads_only .primaryMaster lba).run h.ide
      unfold readPrefix
      dsimp only
      rcases hr : readSectorAt .primaryMaster lba s.ide with ⟨_ | bytes, ide⟩ <;> rw [hr] at hno
      · exact ⟨h.wire, hno⟩
      · have hbind : Confines w₀ slotId (do
            let rest ← readPrefix guid lbas
            pure ((if lba = 0 then bytes.take 0x1DC ++ guid ++ bytes.drop (0x1DC + 16)
              else bytes) ++ rest)) :=
          .bind ih fun _ => .pure fun _ h => h
        exact hbind { s with ide } ⟨h.wire, hno⟩

theorem confines_writeBlocks (lba blocks : Nat) (data : List Byte) :
    Confines w₀ slotId (writeBlocks slotId lba blocks data) := by
  intro s h
  have hsent := mscWriteBlocks_sent slotId lba blocks data s.mscTag s.wire
  unfold writeBlocks
  dsimp only
  rcases hr : mscWriteBlocks slotId lba blocks data s.mscTag s.wire with ⟨_ | _, wire⟩ <;>
    rw [hr] at hsent <;> exact ⟨h.wire.sent hsent, h.ide⟩

theorem confines_copyChunk (dataLba : Nat) (guid : List Byte) (lba : Nat) :
    Confines w₀ slotId (copyChunk slotId dataLba guid lba) :=
  .bind (confines_readPrefix _ _) fun chunk => confines_writeBlocks _ _ chunk

theorem confines_copy (dataLba : Nat) (guid : List Byte) (lbas : List Nat) :
    Confines w₀ slotId (lbas.forM (copyChunk slotId dataLba guid)) :=
  Fallible.Triple.forM (I := fun _ => Confined w₀ slotId)
    (fun lba _ => confines_copyChunk dataLba guid lba) lbas

theorem confines_verify (probes : List MscProbe) (dataLba volumeSectors : Nat)
    (guid : List Byte) (runs : StoreRuns) :
    Confines w₀ slotId (verify probes slotId dataLba volumeSectors guid runs) := by
  unfold verify
  split
  · exact confines_throw
  · next dev hopen =>
      refine .bind (triple_onDevice (open_slotId hopen) fun s h => holds_readSector 0 sector h) ?_
      rintro ⟨_ | mbr, dev'⟩
      · exact .throw fun s h => h.2
      · rintro s ⟨hid, hs⟩
        refine Fallible.Triple.bind (confines_record _) (fun _ => .ite (fun _ => confines_throw)
          fun _ => .bind (triple_storeCalls _ _ _ hid) fun _ => confines_record _) s hs

theorem confines_formatVolume (probes : List MscProbe) (dataLba : Nat) (guid : List Byte)
    (runs : StoreRuns) (hd : dev.slotId = slotId) :
    Confines w₀ slotId (formatVolume probes slotId dataLba guid runs dev) := by
  refine .bind (triple_onDevice hd fun s h => holds_flush h) ?_
  rintro ⟨r, dev'⟩ s ⟨hid, hs⟩
  exact Fallible.Triple.bind (confines_record _) (fun _ => .bind (triple_storeCalls _ _ _ hid)
    fun _ => .ite (fun _ => confines_throw) fun _ => confines_verify _ _ _ _ _) s hs

theorem holds_refuse (booted : List Byte) {s : UsbMscDevice × Wire} (h : Holds w₀ slotId s) :
    Holds w₀ slotId (refuseIfSameDisk booted s).2 := by
  have hr := holds_readSector 0 sector h
  unfold refuseIfSameDisk
  rcases hrun : UsbMscDevice.readSector 0 sector s with ⟨_ | _, s'⟩ <;> rw [hrun] at hr <;>
    exact hr

theorem confines_install (probes : List MscProbe) (dataLba : Nat) (booted guid : List Byte)
    (runs : StoreRuns) : Confines w₀ slotId (install probes slotId dataLba booted guid runs) := by
  unfold install
  split
  · exact confines_throw
  · next dev hopen =>
      refine .ite (fun _ => confines_throw) fun _ =>
        .bind (triple_onDevice (open_slotId hopen) fun s h => holds_refuse booted h) ?_
      rintro ⟨same, dev'⟩ s ⟨hid, hs⟩
      exact Fallible.Triple.ite (fun _ => confines_throw) (fun _ =>
        .bind (confines_copy _ _ _) fun _ => confines_formatVolume _ _ _ _ hid) s hs

end Installing

/-! ## A drive that has just been opened -/

/-- No WRITE(10) since `w₀`. -/
def Silent (w₀ w : Wire) : Prop := Sent (fun _ c => ¬ IsCommand 0x2A c) w₀ w

/-- The tag of the first command on a drive that has been opened. -/
abbrev firstTag : Nat := 0xCAFE0001

variable {probes : List MscProbe} {dev : UsbMscDevice} {pipe : Pipe}

/-- The first read on such a drive is one READ(10). -/
theorem opened_read (h : UsbMscDevice.open probes slotId = .ok dev) {lba : Nat}
    (hlba : lba < dev.sectors) (w : Wire) :
    UsbMscDevice.readSector lba sector (dev, w) =
      match mscReadSector slotId lba sector firstTag w with
      | (.ok bytes, w) => (.ok bytes, dev.bumpTag, w)
      | (.error _, w) => (.error .io, dev.bumpTag, w) := by
  obtain ⟨-, -, cap, -, -, rfl⟩ := open_ok h
  have hcap : cap.totalBlocks ≤ 2 ^ 32 := cap.lastLba.isLt
  have hin : ¬ ((false : Bool) = true ∨ sector ≠ sector ∨ cap.totalBlocks ≤ lba) := by
    rintro (hp | hs | hle)
    · cases hp
    · exact hs rfl
    · exact absurd hlba (Nat.not_lt.mpr hle)
  unfold UsbMscDevice.readSector
  dsimp only
  rw [if_neg hin, if_neg (by omega)]
  unfold UsbMscDevice.onBus
  dsimp only [UsbMscDevice.bumpTag]
  rcases mscReadSector slotId lba sector firstTag w with ⟨_ | bytes, w'⟩ <;> rfl

theorem silent_read (slotId : Byte) (lba len tag : Nat) (w : Wire) :
    Silent w (mscReadSector slotId lba len tag w).2 :=
  (mscReadSector_sent slotId lba len tag w).mono fun _ _ h => not_write_of_read h

/-- On a slot without endpoints nothing is sent. -/
theorem silent_of_unresolved {w' : Wire} (h : OnlyTo w slotId w')
    (hno : ¬ ∃ pipe, Resolves w slotId pipe) : Silent w w' := by
  refine Sent.mono h fun i _ hi => ?_
  obtain ⟨pipe, hp, -⟩ := hi
  exact absurd ⟨pipe, hp⟩ hno

/-- The command block is the first thing a command sends. -/
theorem mscCommand_first (pipe : Pipe) {lun : Byte} {cb : List Byte}
    (hcb : ¬ (cb = [] ∨ 16 < cb.length))
    (data : DataStage) (tag : Nat) (w : Wire) :
    ∃ f ys, (mscCommand pipe lun cb data tag w).2.log =
      w.log ++ .out pipe.slotIdx (cbw tag data lun cb) f :: ys := by
  unfold mscCommand
  rw [Fallible.run_if_neg hcb]
  cases hf : w.fate w.next with
  | timeout =>
      rw [Fallible.run_bind_error (bulkOut_timeout hf)]
      exact ⟨_, [], rfl⟩
  | event cc moved =>
      have hrest : Sends (fun _ _ => True) (do
          if cc ≠ 1 then
            resetBulkEndpoint pipe false
            Fallible.throw "CBW transfer xHCI cc != Success"
          else
            let buf ← dataStage pipe data
            let csw ← statusStage pipe
            let outcome ← liftExcept (readCsw csw tag)
            pure (outcome, buf) : MscM (MscOutcome × List Byte)) :=
        .ite (.bind (.reset _ _) fun _ => .throw _) <|
          .bind (.dataStage fun _ _ => trivial) fun _ => .bind (.statusStage _) fun _ =>
            .bind (.lift _) fun _ => .pure _
      rw [Fallible.run_bind_ok (bulkOut_event hf)]
      obtain ⟨-, ys, hlog, -⟩ := hrest.run (w.step (.out pipe.slotIdx (cbw tag data lun cb)))
      refine ⟨w.fate w.next, ys, hlog.trans ?_⟩
      rw [Wire.step, List.append_assoc, List.singleton_append]

/-- READ(10) of LBA 0 delivers the boot sector of the booted system. -/
def ShowsBoot (w : Wire) (guid : List Byte) : Prop :=
  ∃ moved m outcome, commandOf w.fate w.next firstTag = some (moved, m, outcome) ∧
    outcome.scsiStatus = 0 ∧ hasBootMagic (fill (List.replicate sector 0) moved) = true ∧
    guidOf (fill (List.replicate sector 0) moved) = guid

theorem refuse_run (h : UsbMscDevice.open probes slotId = .ok dev) (hpos : 0 < dev.sectors)
    (hp : Resolves w slotId pipe) (guid : List Byte) :
    ∃ same w', Installing.refuseIfSameDisk guid (dev, w) = (.ok same, dev.bumpTag, w') ∧
      (same = true ↔ ShowsBoot w guid) ∧ Silent w w' := by
  have hquiet := silent_read slotId 0 sector firstTag w
  have hread := opened_read h hpos w
  obtain ⟨r, w', hrun, hr⟩ := mscReadSector_run hp 0 firstTag
  rw [hrun] at hquiet hread
  unfold Installing.refuseIfSameDisk
  rcases hr with ⟨moved, m, outcome, hc, hst, hr, -⟩ | ⟨hno, e, hr⟩
  · rw [hr] at hread
    rw [hread]
    refine ⟨_, w', rfl, ?_, hquiet⟩
    rw [Bool.and_eq_true, beq_iff_eq]
    constructor
    · rintro ⟨hmagic, hguid⟩
      exact ⟨moved, m, outcome, hc, hst, hmagic, hguid⟩
    · rintro ⟨moved', m', outcome', hc', -, hmagic, hguid⟩
      rw [hc] at hc'
      cases hc'
      exact ⟨hmagic, hguid⟩
  · rw [hr] at hread
    rw [hread]
    refine ⟨false, w', rfl, ?_, hquiet⟩
    constructor
    · intro hf
      cases hf
    · rintro ⟨moved, m, outcome, hc, hst, -⟩
      exact absurd ⟨moved, m, outcome, hc, hst⟩ hno

/-! ## The first chunk -/

namespace Installing

theorem readSectorAt_some {b : IdeBus} {bytes : List Byte} (drive : IdeSlot) (lba : Nat)
    (h : b.answer b.next = some bytes) :
    readSectorAt drive lba b = (.ok (fill (List.replicate sector 0) bytes),
      { b with next := b.next + 1, log := b.log ++ [.read drive (lba28 lba)] }) := by
  have hissue : (AtaCommand.read drive (lba28 lba)).issue b = (.ok bytes,
      { b with next := b.next + 1, log := b.log ++ [.read drive (lba28 lba)] }) := by
    unfold AtaCommand.issue
    dsimp only
    rw [h]
  exact Fallible.run_bind_ok hissue

theorem readSectorAt_none {b : IdeBus} (drive : IdeSlot) (lba : Nat)
    (h : b.answer b.next = none) :
    readSectorAt drive lba b = (.error .io,
      { b with next := b.next + 1, log := b.log ++ [.read drive (lba28 lba)] }) := by
  have hissue : (AtaCommand.read drive (lba28 lba)).issue b = (.error .io,
      { b with next := b.next + 1, log := b.log ++ [.read drive (lba28 lba)] }) := by
    unfold AtaCommand.issue
    dsimp only
    rw [h]
  exact Fallible.run_bind_error hissue

theorem readPrefix_run {guid : List Byte} (hg : guid.length = 16) (lbas : List Nat)
    (s : Installing) (h : ∀ k < lbas.length, s.ide.answer (s.ide.next + k) ≠ none) :
    ∃ bytes ide, readPrefix guid lbas s = (.ok bytes, { s with ide }) ∧
      bytes.length = lbas.length * sector := by
  induction lbas generalizing s with
  | nil => exact ⟨[], s.ide, rfl, rfl⟩
  | cons lba lbas ih =>
      obtain ⟨block, hblock⟩ := Option.ne_none_iff_exists'.mp (h 0 (Nat.succ_pos _))
      have hread := readSectorAt_some .primaryMaster lba hblock
      obtain ⟨rest, ide, hrest, hlen⟩ := ih
        { s with ide := { s.ide with
            next := s.ide.next + 1
            log := s.ide.log ++ [.read .primaryMaster (lba28 lba)] } }
        fun k hk => by
          have := h (k + 1) (Nat.succ_lt_succ hk)
          rwa [show s.ide.next + (k + 1) = s.ide.next + 1 + k by omega] at this
      unfold readPrefix
      dsimp only
      rw [hread]
      refine ⟨_, ide, Fallible.run_bind_ok hrest, ?_⟩
      rw [List.length_append, hlen, List.length_cons, Nat.succ_mul, Nat.add_comm]
      congr 1
      split
      · rw [List.length_append, List.length_append, List.length_take, List.length_drop, hg,
          length_fill, List.length_replicate]
        rfl
      · rw [length_fill, List.length_replicate]

theorem readPrefix_stops (guid : List Byte) (lbas : List Nat) (s : Installing)
    (h : ∃ k < lbas.length, s.ide.answer (s.ide.next + k) = none) :
    ∃ ide, readPrefix guid lbas s = (.error (), { s with ide }) := by
  induction lbas generalizing s with
  | nil =>
      obtain ⟨k, hk, -⟩ := h
      cases hk
  | cons lba lbas ih =>
      unfold readPrefix
      dsimp only
      cases hblock : s.ide.answer s.ide.next with
      | none =>
          rw [readSectorAt_none .primaryMaster lba hblock]
          exact ⟨_, rfl⟩
      | some block =>
          rw [readSectorAt_some .primaryMaster lba hblock]
          obtain ⟨k, hk, hnone⟩ := h
          cases k with
          | zero =>
              rw [Nat.add_zero, hblock] at hnone
              cases hnone
          | succ k =>
              obtain ⟨ide, hstop⟩ := ih
                { s with ide := { s.ide with
                    next := s.ide.next + 1
                    log := s.ide.log ++ [.read .primaryMaster (lba28 lba)] } }
                ⟨k, Nat.lt_of_succ_lt_succ hk, by
                  rwa [show s.ide.next + (k + 1) = s.ide.next + 1 + k by omega] at hnone⟩
              exact ⟨ide, Fallible.run_bind_error hstop⟩

theorem chunkStarts_cons {dataLba : Nat} (h : 0 < dataLba) :
    ∃ rest, chunkStarts dataLba = 0 :: rest := by
  have hne : (dataLba + 63) / 64 ≠ 0 := by omega
  obtain ⟨n, hn⟩ : ∃ n, (dataLba + (chunkSectors - 1)) / chunkSectors = n + 1 :=
    Nat.exists_eq_succ_of_ne_zero hne
  refine ⟨((List.range n).map Nat.succ).map (· * chunkSectors), ?_⟩
  unfold chunkStarts
  rw [hn, List.range_succ_eq_map, List.map_cons, Nat.zero_mul]

/-- The install gets as far as its first write. -/
structure CopyStarts (probes : List MscProbe) (slotId : Byte) (dataLba : Nat)
    (booted : List Byte) (ide : IdeBus) (w : Wire) : Prop where
  opened : ∃ dev, UsbMscDevice.open probes slotId = .ok dev ∧
    dataLba + minVolumeSectors ≤ dev.sectors
  resolves : ∃ pipe, Resolves w slotId pipe
  unseen : ¬ ShowsBoot w booted
  readable : ∀ k < min chunkSectors dataLba, ide.answer (ide.next + k) ≠ none

variable {dataLba : Nat} {booted guid : List Byte} {runs : StoreRuns} {s : Installing}

/-- Up to the check of the target. -/
theorem install_checked {same : Bool} {w' : Wire}
    (hopen : UsbMscDevice.open probes slotId = .ok dev)
    (hsize : dataLba + minVolumeSectors ≤ dev.sectors)
    (hrefuse : refuseIfSameDisk booted (dev, s.wire) = (.ok same, dev.bumpTag, w')) :
    install probes slotId dataLba booted guid runs s =
      if same then (.error (), { s with wire := w' }) else
        (do
          (chunkStarts dataLba).forM (copyChunk slotId dataLba guid)
          formatVolume probes slotId dataLba guid runs dev.bumpTag : InstallM Unit)
        { s with wire := w' } := by
  have hstep : onDevice dev (refuseIfSameDisk booted) s =
      (.ok (.ok same, dev.bumpTag), { s with wire := w' }) := by
    unfold onDevice
    rw [hrefuse]
  unfold install
  rw [hopen]
  refine (Fallible.run_if_neg (Nat.not_lt.mpr hsize) _ _ s).trans
    ((Fallible.run_bind_ok hstep).trans ?_)
  cases same with
  | true => rfl
  | false => rfl

/-- An install that does not get to the copy writes nothing. -/
theorem install_silent (hide : ∀ c ∈ s.ide.log, ¬ c.IsWrite)
    (h : ¬ CopyStarts probes slotId dataLba booted s.ide s.wire) :
    Silent s.wire (install probes slotId dataLba booted guid runs s).2.wire := by
  by_cases hopened : ∃ dev, UsbMscDevice.open probes slotId = .ok dev ∧
      dataLba + minVolumeSectors ≤ dev.sectors
  · obtain ⟨dev, hopen, hsize⟩ := hopened
    by_cases hres : ∃ pipe, Resolves s.wire slotId pipe
    · obtain ⟨pipe, hp⟩ := hres
      have hpos : 0 < dev.sectors :=
        Nat.lt_of_lt_of_le (by decide : 0 < minVolumeSectors)
          (Nat.le_trans (Nat.le_add_left _ _) hsize)
      obtain ⟨same, w', hrefuse, hsame, hquiet⟩ := refuse_run hopen hpos hp booted
      rw [install_checked hopen hsize hrefuse]
      cases hs : same with
      | true => exact hquiet
      | false =>
          have hunseen : ¬ ShowsBoot s.wire booted := by
            rw [← hsame, hs]
            exact Bool.false_ne_true
          have hstop : ∃ k < min chunkSectors dataLba,
              s.ide.answer (s.ide.next + k) = none := by
            by_contra hall
            exact h ⟨⟨dev, hopen, hsize⟩, ⟨pipe, hp⟩, hunseen,
              fun k hk hnone => hall ⟨k, hk, hnone⟩⟩
          obtain ⟨k, hk, hnone⟩ := hstop
          have hdata : 0 < dataLba := by omega
          obtain ⟨rest, hrest⟩ := chunkStarts_cons hdata
          obtain ⟨ide, hblocks⟩ := readPrefix_stops guid
            ((List.range (min chunkSectors (dataLba - 0))).map (0 + ·)) { s with wire := w' }
            ⟨k, by rw [List.length_map, List.length_range, Nat.sub_zero]; exact hk, hnone⟩
          have hchunk : copyChunk slotId dataLba guid 0 { s with wire := w' } =
              (.error (), { s with wire := w', ide }) := Fallible.run_bind_error hblocks
          have hcopy : (chunkStarts dataLba).forM (copyChunk slotId dataLba guid)
              { s with wire := w' } = (.error (), { s with wire := w', ide }) := by
            rw [hrest]
            exact Fallible.run_bind_error hchunk
          rw [if_neg Bool.false_ne_true, Fallible.run_bind_error hcopy]
          exact hquiet
    · exact silent_of_unresolved
        ((confines_install probes dataLba booted guid runs).wire_run hide).wire hres
  · unfold install
    cases hopen : UsbMscDevice.open probes slotId with
    | error e => exact Sent.refl _ _
    | ok dev =>
        have hsmall : dev.sectors < dataLba + minVolumeSectors :=
          Nat.not_le.mp fun hle => hopened ⟨dev, hopen, hle⟩
        dsimp only
        rw [Fallible.run_if_pos hsmall]
        exact Sent.refl _ _

/-- The first thing `msc_write_blocks` sends. -/
theorem mscWriteBlocks_first {pipe : Pipe} (hp : Resolves w slotId pipe) (lba : Nat)
    {blocks : Nat} {data : List Byte} (hdata : data.length = blocks * sector) (tag : Nat) :
    ∃ c f ys, IsCommand 0x2A c ∧ (mscWriteBlocks slotId lba blocks data tag w).2.log =
      w.log ++ .out pipe.slotIdx c f :: ys := by
  obtain ⟨f, ys, hlog⟩ := mscCommand_first pipe (rw10_cb 0x2A lba blocks)
    (.write (data.take (blocks * sector))) tag w
  have hcmd : IsCommand 0x2A (cbw tag (.write (data.take (blocks * sector))) 0
      (rw10 0x2A lba blocks)) := ⟨length_cbw .., opcodeOf_cbw ..⟩
  refine ⟨_, f, ys, hcmd, hlog ▸ ?_⟩
  have hshort : ¬ data.length < blocks * sector := by omega
  have hrun : mscWriteBlocks slotId lba blocks data tag w = _ :=
    Fallible.run_bind_ok (resolve_ok hp)
  rw [hrun]
  rcases hm : mscCommand pipe 0 (rw10 0x2A lba blocks)
    (.write (data.take (blocks * sector))) tag w with ⟨e | p, w'⟩
  · have hscsi : scsiWrite10 pipe 0 lba blocks sector data tag w = (.error e, w') :=
      (Fallible.run_if_neg hshort _ _ w).trans (Fallible.run_bind_error hm)
    rw [Fallible.run_bind_error hscsi]
  · have hscsi : scsiWrite10 pipe 0 lba blocks sector data tag w = (.ok p.1.scsiStatus, w') :=
      (Fallible.run_if_neg hshort _ _ w).trans (Fallible.run_bind_ok hm)
    rw [Fallible.run_bind_ok hscsi]
    split <;> rfl

/-- An install that gets to the copy writes to its slot. -/
theorem install_writes (hide : ∀ c ∈ s.ide.log, ¬ c.IsWrite)
    (h : CopyStarts probes slotId dataLba booted s.ide s.wire) (hdata : 0 < dataLba)
    (hguid : guid.length = 16) :
    ∃ pipe c f, Resolves s.wire slotId pipe ∧ IsCommand 0x2A c ∧
      Xfer.out pipe.slotIdx c f ∈
        (install probes slotId dataLba booted guid runs s).2.wire.log.drop s.wire.log.length := by
  obtain ⟨⟨dev, hopen, hsize⟩, ⟨pipe, hp⟩, hunseen, hreadable⟩ := h
  have hpos : 0 < dev.sectors :=
    Nat.lt_of_lt_of_le (by decide : 0 < minVolumeSectors)
      (Nat.le_trans (Nat.le_add_left _ _) hsize)
  obtain ⟨same, w', hrefuse, hsame, hdev, xs, hlog, -⟩ := refuse_run hopen hpos hp booted
  have hno : same = false := by
    rw [← Bool.not_eq_true, hsame]
    exact hunseen
  obtain ⟨rest, hrest⟩ := chunkStarts_cons hdata
  obtain ⟨chunk, ide, hblocks, hlen⟩ := readPrefix_run hguid
    ((List.range (min chunkSectors (dataLba - 0))).map (0 + ·)) { s with wire := w' }
    fun k hk => hreadable k (by
      rw [List.length_map, List.length_range, Nat.sub_zero] at hk
      exact hk)
  rw [List.length_map, List.length_range] at hlen
  have hp' : Resolves w' slotId pipe := by
    unfold Resolves
    rw [hdev]
    exact hp
  obtain ⟨c, f, ys, hcmd, hlog'⟩ := mscWriteBlocks_first hp' 0 hlen s.mscTag
  have hreads : Confines w' slotId
      (readPrefix guid ((List.range (min chunkSectors (dataLba - 0))).map (0 + ·))) :=
    confines_readPrefix _ _
  have hide' := hreads { s with wire := w' } ⟨.refl _ _, hide⟩
  rw [hblocks] at hide'
  rcases hw : copyChunk slotId dataLba guid 0 { s with wire := w' } with ⟨r, s₂⟩
  have hs₂ : s₂.wire.log = w'.log ++ .out pipe.slotIdx c f :: ys ∧
      ∀ c ∈ s₂.ide.log, ¬ c.IsWrite := by
    have hrun : copyChunk slotId dataLba guid 0 { s with wire := w' } =
        writeBlocks slotId 0 (min chunkSectors (dataLba - 0)) chunk { s with wire := w', ide } :=
      Fallible.run_bind_ok hblocks
    rw [hrun] at hw
    unfold writeBlocks at hw
    dsimp only at hw
    rcases hm : mscWriteBlocks slotId 0 (min chunkSectors (dataLba - 0)) chunk s.mscTag w' with
      ⟨_ | _, w''⟩ <;> rw [hm] at hw hlog' <;> cases hw <;> exact ⟨hlog', hide'.ide⟩
  have hfinal : ∃ zs, (install probes slotId dataLba booted guid runs s).2.wire.log =
      s₂.wire.log ++ zs := by
    rw [install_checked hopen hsize hrefuse, hno, if_neg Bool.false_ne_true, hrest]
    cases r with
    | error e =>
        have hcopy : (0 :: rest).forM (copyChunk slotId dataLba guid) { s with wire := w' } =
            (.error e, s₂) := Fallible.run_bind_error hw
        rw [Fallible.run_bind_error hcopy]
        exact ⟨[], (List.append_nil _).symm⟩
    | ok u =>
        have hrun : ((0 :: rest).forM (copyChunk slotId dataLba guid) >>= fun _ =>
              formatVolume probes slotId dataLba guid runs dev.bumpTag) { s with wire := w' } =
            (rest.forM (copyChunk slotId dataLba guid) >>= fun _ =>
              formatVolume probes slotId dataLba guid runs dev.bumpTag) s₂ := by
          rw [Fallible.run_bind, Fallible.run_bind]
          rw [show (0 :: rest).forM (copyChunk slotId dataLba guid) { s with wire := w' } = _ from
            Fallible.run_bind_ok hw]
        have hid : dev.slotId = slotId := open_slotId hopen
        have hconf : Confines s₂.wire slotId (rest.forM (copyChunk slotId dataLba guid) >>=
            fun _ => formatVolume probes slotId dataLba guid runs dev.bumpTag) :=
          .bind (confines_copy _ _ _) fun _ =>
            confines_formatVolume _ _ _ _ hid
        obtain ⟨⟨-, zs, hzs, -⟩, -⟩ := hconf.wire_run hs₂.2
        exact ⟨zs, by rw [← hzs, ← hrun]⟩
  obtain ⟨zs, hzs⟩ := hfinal
  refine ⟨pipe, c, f, hp, hcmd, ?_⟩
  rw [hzs, hs₂.1, hlog, List.append_assoc, List.append_assoc, List.drop_left]
  exact List.mem_append_right _ (List.mem_append_left _ List.mem_cons_self)

theorem length_makeRandomSysGuid (tsc : UInt64) : (makeRandomSysGuid tsc).length = 16 := by
  unfold makeRandomSysGuid
  dsimp only
  rw [List.length_append, length_leBytes, length_leBytes]

variable {ide : IdeBus}

theorem installToUsb_confined (tsc : UInt64) (mscTag : Nat) (hide : ∀ c ∈ ide.log, ¬ c.IsWrite) :
    Confined w slotId (installToUsb probes slotId dataLba booted tsc runs ide w mscTag) := by
  have h : Confines w slotId (install probes slotId dataLba booted (makeRandomSysGuid tsc) runs) :=
    confines_install _ _ _ _ _
  exact h.wire_run (s := ⟨⟨slotId, 0, 0, makeRandomSysGuid tsc, false, false⟩, ide, w, mscTag⟩)
    hide

theorem installToUsb_silent (tsc : UInt64) (mscTag : Nat) (hide : ∀ c ∈ ide.log, ¬ c.IsWrite)
    (h : ¬ CopyStarts probes slotId dataLba booted ide w) :
    Silent w (installToUsb probes slotId dataLba booted tsc runs ide w mscTag).wire :=
  install_silent (s := ⟨⟨slotId, 0, 0, makeRandomSysGuid tsc, false, false⟩, ide, w, mscTag⟩)
    hide h

theorem installToUsb_writes (runs : StoreRuns) (tsc : UInt64) (mscTag : Nat)
    (hide : ∀ c ∈ ide.log, ¬ c.IsWrite)
    (h : CopyStarts probes slotId dataLba booted ide w) (hdata : 0 < dataLba) :
    ∃ pipe c f, Resolves w slotId pipe ∧ IsCommand 0x2A c ∧ Xfer.out pipe.slotIdx c f ∈
      (installToUsb probes slotId dataLba booted tsc runs ide w mscTag).wire.log.drop
        w.log.length :=
  install_writes (s := ⟨⟨slotId, 0, 0, makeRandomSysGuid tsc, false, false⟩, ide, w, mscTag⟩)
    hide h hdata (length_makeRandomSysGuid tsc)

end Installing

/-! ## The write test -/

/-- The write test gets as far as its first write. -/
structure TestStarts (probes : List MscProbe) (slotId : Byte) (lba : Nat) (w : Wire) : Prop where
  opened : ∃ dev, UsbMscDevice.open probes slotId = .ok dev ∧ lba < dev.sectors
  resolves : ∃ pipe, Resolves w slotId pipe
  read : Passes w.fate w.next firstTag

theorem length_testPattern : testPattern.length = sector := by
  unfold testPattern
  rw [List.length_append, List.length_map, List.length_range]
  rfl

theorem onlyTo_runWriteTest (probes : List MscProbe) (slotId : Byte) (lba : Nat) (w : Wire) :
    OnlyTo w slotId (runWriteTest probes slotId lba w).2 := by
  unfold runWriteTest
  dsimp only
  cases hopen : UsbMscDevice.open probes slotId with
  | error e => exact .refl _ _
  | ok dev =>
      have h₀ : Holds w slotId (dev, w) := ⟨open_slotId hopen, .refl _ _⟩
      have h₁ := holds_readSector lba sector h₀
      dsimp only
      rcases hr : UsbMscDevice.readSector lba sector (dev, w) with ⟨_ | original, s₁⟩ <;>
        rw [hr] at h₁
      · exact h₁.2
      have h₂ := holds_writeSector lba testPattern h₁
      dsimp only
      rcases hw : UsbMscDevice.writeSector lba testPattern s₁ with ⟨_ | _, s₂⟩ <;> rw [hw] at h₂
      · exact h₂.2
      have h₃ := holds_readSector lba sector (holds_flush h₂)
      dsimp only
      rcases hb : UsbMscDevice.readSector lba sector (UsbMscDevice.flush s₂).2 with
        ⟨_ | readback, s₃⟩ <;> rw [hb] at h₃
      · exact h₃.2
      · exact (holds_flush (holds_writeSector lba original h₃)).2

/-- A test that does not get there writes nothing. -/
theorem runWriteTest_silent {lba : Nat} (h : ¬ TestStarts probes slotId lba w) :
    Silent w (runWriteTest probes slotId lba w).2 := by
  by_cases hres : ∃ pipe, Resolves w slotId pipe
  · obtain ⟨pipe, hp⟩ := hres
    unfold runWriteTest
    dsimp only
    cases hopen : UsbMscDevice.open probes slotId with
    | error e => exact Sent.refl _ _
    | ok dev =>
        dsimp only
        by_cases hlba : lba < dev.sectors
        · have hquiet := silent_read slotId lba sector firstTag w
          have hread := opened_read hopen hlba w
          obtain ⟨r, w', hrun, hr⟩ := mscReadSector_run hp lba firstTag
          rcases hr with ⟨moved, m, outcome, hc, hst, -⟩ | ⟨-, e, hr⟩
          · exact absurd ⟨⟨dev, hopen, hlba⟩, ⟨pipe, hp⟩, moved, m, outcome, hc, hst⟩ h
          · rw [hrun] at hquiet hread
            rw [hr] at hread
            rw [hread]
            exact hquiet
        · have hout : UsbMscDevice.readSector lba sector (dev, w) = (.error .io, dev, w) := by
            unfold UsbMscDevice.readSector
            dsimp only
            rw [if_pos (Or.inr (Or.inr (Nat.not_lt.mp hlba)))]
          rw [hout]
          exact Sent.refl _ _
  · exact silent_of_unresolved (onlyTo_runWriteTest probes slotId lba w) hres

/-- What follows only adds to the log. -/
theorem sends_behind {α : Type} {P : Prop} {m : MscM α} {w₁ : Wire} {x : Xfer} {ys : List Xfer}
    (hP : P) (hlog : w₁.log = w.log ++ x :: ys) (hm : Sends (fun _ _ => True) m) :
    ∃ ys, P ∧ (m w₁).2.log = w.log ++ x :: ys := by
  obtain ⟨-, zs, hzs, -⟩ := hm.run w₁
  refine ⟨ys ++ zs, hP, ?_⟩
  rw [hzs, hlog, List.append_assoc, List.cons_append]

/-- The first thing `msc_write_sector` sends. -/
theorem mscWriteSector_first (hp : Resolves w slotId pipe) (lba : Nat) {data : List Byte}
    (hdata : sector ≤ data.length) (tag : Nat) :
    ∃ c f ys, IsCommand 0x2A c ∧ (mscWriteSector slotId lba data tag w).2.log =
      w.log ++ .out pipe.slotIdx c f :: ys := by
  obtain ⟨f, ys, hlog⟩ := mscCommand_first pipe (rw10_cb 0x2A lba 1)
    (.write (data.take (1 * sector))) tag w
  have hcmd : IsCommand 0x2A (cbw tag (.write (data.take (1 * sector))) 0 (rw10 0x2A lba 1)) :=
    ⟨length_cbw .., opcodeOf_cbw ..⟩
  have hrun : mscWriteSector slotId lba data tag w = _ := Fallible.run_bind_ok (resolve_ok hp)
  have hshort : ¬ data.length < 1 * sector := by omega
  have hattempt : ∃ r, writeAttempt pipe lba data tag w =
      (.ok r, (mscCommand pipe 0 (rw10 0x2A lba 1) (.write (data.take (1 * sector))) tag w).2) := by
    unfold writeAttempt
    rcases hm : mscCommand pipe 0 (rw10 0x2A lba 1) (.write (data.take (1 * sector))) tag w with
      ⟨e | p, w'⟩
    · have hscsi : scsiWrite10 pipe 0 lba 1 sector data tag w = (.error e, w') :=
        (Fallible.run_if_neg hshort _ _ w).trans (Fallible.run_bind_error hm)
      rw [hscsi]
      exact ⟨_, rfl⟩
    · have hscsi : scsiWrite10 pipe 0 lba 1 sector data tag w = (.ok p.1.scsiStatus, w') :=
        (Fallible.run_if_neg hshort _ _ w).trans (Fallible.run_bind_ok hm)
      rw [hscsi]
      exact ⟨_, rfl⟩
  obtain ⟨r, hattempt⟩ := hattempt
  rw [hrun, Fallible.run_bind_ok hattempt]
  refine ⟨_, f, sends_behind hcmd hlog ?_⟩
  cases r with
  | ok u => exact .pure _
  | error e => exact .bind (Sends.writeAttempt pipe trivial trivial) fun _ => .lift _

/-- A test that gets there writes. -/
theorem runWriteTest_writes {lba : Nat} (h : TestStarts probes slotId lba w) :
    ∃ i c f, IsCommand 0x2A c ∧
      Xfer.out i c f ∈ (runWriteTest probes slotId lba w).2.log.drop w.log.length := by
  obtain ⟨⟨dev, hopen, hlba⟩, ⟨pipe, hp⟩, hpass⟩ := h
  have hquiet := silent_read slotId lba sector firstTag w
  have hread := opened_read hopen hlba w
  obtain ⟨r, w', hrun, hr⟩ := mscReadSector_run hp lba firstTag
  rcases hr with ⟨moved, m, outcome, hc, hst, hr, -⟩ | ⟨hno, -⟩
  · rw [hrun] at hquiet hread
    rw [hr] at hread
    obtain ⟨hdev, xs, hlog, -⟩ := hquiet
    have hp' : Resolves w' slotId pipe := by
      unfold Resolves
      rw [hdev]
      exact hp
    obtain ⟨c, f, ys, hcmd, hlog'⟩ := mscWriteSector_first hp' lba
      (Nat.le_of_eq length_testPattern.symm) (nextTag firstTag)
    -- Everything behind the first write only adds to the log.
    have hwrite : ∃ r d, UsbMscDevice.writeSector lba testPattern (dev.bumpTag, w') =
        (r, d, (mscWriteSector slotId lba testPattern (nextTag firstTag) w').2) ∧
          d.slotId = slotId := by
      obtain ⟨-, -, cap, -, -, rfl⟩ := open_ok hopen
      have hcap : cap.totalBlocks ≤ 2 ^ 32 := cap.lastLba.isLt
      have hin : ¬ ((false : Bool) = true ∨ testPattern.length ≠ sector ∨
          cap.totalBlocks ≤ lba) := by
        rintro (hf | hs | hle)
        · cases hf
        · exact hs length_testPattern
        · exact absurd hlba (Nat.not_lt.mpr hle)
      have hlba' : lba < cap.totalBlocks := hlba
      unfold UsbMscDevice.writeSector
      dsimp only [UsbMscDevice.bumpTag]
      rw [if_neg hin, if_neg (by omega)]
      unfold UsbMscDevice.verifyIdentity UsbMscDevice.onBus
      dsimp only [UsbMscDevice.bumpTag]
      rw [show (0xCAFE0000 + 1) % 2 ^ 32 = firstTag from rfl,
        show (firstTag + 1) % 2 ^ 32 = nextTag firstTag from rfl]
      rcases mscWriteSector slotId lba testPattern (nextTag firstTag) w' with ⟨_ | _, w''⟩
      · refine ⟨_, _, rfl, ?_⟩
        rfl
      · refine ⟨_, _, rfl, ?_⟩
        rfl
    obtain ⟨r, d, hwrite, hid⟩ := hwrite
    generalize (mscWriteSector slotId lba testPattern (nextTag firstTag) w').2 = w₂ at hwrite hlog'
    have hfinal : ∃ zs, (runWriteTest probes slotId lba w).2.log = w₂.log ++ zs := by
      unfold runWriteTest
      dsimp only
      rw [hopen]
      dsimp only
      rw [hread]
      dsimp only
      rw [hwrite]
      cases r with
      | error e => exact ⟨[], (List.append_nil _).symm⟩
      | ok u =>
          have h₂ : Holds w₂ slotId (d, w₂) := ⟨hid, .refl _ _⟩
          have h₃ := holds_readSector lba sector (holds_flush h₂)
          dsimp only
          rcases hb : UsbMscDevice.readSector lba sector (UsbMscDevice.flush (d, w₂)).2 with
            ⟨_ | readback, s₃⟩ <;> rw [hb] at h₃
          · obtain ⟨-, -, zs, hzs, -⟩ := h₃
            exact ⟨zs, hzs⟩
          · obtain ⟨-, -, zs, hzs, -⟩ := holds_flush (holds_writeSector lba
              (fill (List.replicate sector 0) moved) h₃)
            exact ⟨zs, hzs⟩
    obtain ⟨zs, hzs⟩ := hfinal
    refine ⟨pipe.slotIdx, c, f, hcmd, ?_⟩
    rw [hzs, hlog', hlog, List.append_assoc, List.append_assoc, List.drop_left]
    exact List.mem_append_right _ (List.mem_append_left _ List.mem_cons_self)
  · exact absurd hpass hno

/-! ## The probe and the drive list -/

theorem sends_attempt {α : Type} {m : MscM α} (h : Sends S m) : Sends S (attempt m) := by
  intro w₀ w hw
  have := h w₀ w hw
  unfold attempt
  rcases hm : m w with ⟨_ | a, w'⟩ <;> rw [hm] at this <;> exact this

/-- A command whose block does not start with `0x2A` is no WRITE(10). -/
theorem not_write_cbw {tag : Nat} {data : DataStage} {lun opcode : Byte} {cb : List Byte}
    (h : opcode ≠ 0x2A) : ¬ IsCommand 0x2A (cbw tag data lun (opcode :: cb)) := by
  rintro ⟨-, hop⟩
  exact h hop

theorem sends_scsiIn (pipe : Pipe) {opcode : Byte} (cb : List Byte) (length tag : Nat)
    (h : opcode ≠ 0x2A) :
    Sends (fun _ c => ¬ IsCommand 0x2A c) (scsiIn pipe (opcode :: cb) length tag) :=
  .bind (.mscCommand (not_write_cbw h) fun _ hd => by cases hd) fun _ => .pure _

theorem sends_probeTarget (t : MscTarget) (tag : Nat) :
    Sends (fun _ c => ¬ IsCommand 0x2A c) (probeTarget t tag) := by
  refine .bind (sends_attempt (sends_scsiIn _ _ _ _ (by decide))) fun _ =>
    .bind (sends_attempt (.bind (.mscCommand (not_write_cbw (by decide)) fun _ hd => by cases hd)
      fun _ => .pure _)) fun _ =>
    .bind (sends_attempt (sends_scsiIn _ _ _ _ (by decide))) fun cap => ?_
  dsimp only
  split
  · exact .pure _
  · exact .bind (sends_attempt (.bind (.mscCommand (not_write_cbw (by decide))
      fun _ hd => by cases hd) fun _ => .pure _)) fun _ => .pure _

theorem sends_probeTargets (ts : List MscTarget) (tag : Nat) :
    Sends (fun _ c => ¬ IsCommand 0x2A c) (probeTargets ts tag) := by
  induction ts generalizing tag with
  | nil => exact .pure _
  | cons t ts ih =>
      exact .bind (sends_probeTarget t tag) fun p => .bind (ih p.2) fun _ => .pure _

theorem probeDrives_silent (w : Wire) : Silent w (probeDrives w).2 := by
  by_cases h : w.devices.addressed = []
  · have hrun : probeDrives w =
        (.error "address + configure devices first ([a] [c] [g])", w) := if_pos h
    rw [hrun]
    exact Sent.refl _ _
  · have hrun : probeDrives w = probeTargets (mscTargets w.devices) 0xABCD0000 w := if_neg h
    rw [hrun]
    exact (sends_probeTargets _ _).run w

theorem commands_probeOne (drive : IdeSlot) :
    Commands (fun c => ¬ c.IsWrite) (probeOne drive) :=
  .bind (commands_issue id) fun _ => .bind (commands_readSectorAt id) fun _ =>
    .pure fun _ hb => hb

theorem enumerateDrives_log (answer : Nat → Option (List Byte)) :
    ∀ c ∈ (enumerateDrives (.idle answer)).log, ¬ c.IsWrite := by
  have h₀ : ∀ c ∈ (IdeBus.idle answer).log, ¬ c.IsWrite := fun _ hc => by cases hc
  exact (commands_probeOne _).run ((commands_probeOne _).run ((commands_probeOne _).run
    ((commands_probeOne _).run h₀)))

/-! ## The rule -/

/-- What of the traffic went over USB. -/
def usbPart (sent : List Traffic) : List Xfer :=
  sent.filterMap fun
    | .usb x => some x
    | .ide _ => none

/-- The store calls its device. -/
def Event.IsVolume : Event → Prop
  | .disk _ _ => True
  | _ => False

/-- The user confirms an install on the slot. -/
def Event.Installs (app : App) (slotId : Byte) (s : Surroundings) (e : Event) : Prop :=
  e = .key .enter s ∧ app.top = .confirmCreateOs slotId

/-- Each write is one of the volume, behind the boot region of the booted disk,
or one of a confirmed install on a drive that is not the booted disk. Over IDE
the booted disk is the primary master; over USB the boot sector is read in the
same call and carries the GUID. -/
structure Rule (app : App) (e : Event) (sent : List Traffic) : Prop where
  ide : ∀ drive lba bytes, .ide (.write drive lba bytes) ∈ sent →
    e.IsVolume ∧ (∃ a, app.disk = .ata a) ∧ drive = .primaryMaster ∧ app.dataLba ≤ lba
  usb : ∀ before i c f rest, sent = before ++ .usb (.out i c f) :: rest → IsCommand 0x2A c →
    (e.IsVolume ∧ app.dataLba ≤ lbaOf c ∧ Checked app.bootedSysGuid i (usbPart before)) ∨
    ∃ slotId s, e.Installs app slotId s ∧ OnSlot s.wire slotId i ∧
      s.holdsBooted slotId = false

/-- The events that break the rule: a write test that finds a drive it can
read, an install that starts to copy onto the booted disk, and a sector of the
volume that the address registers of the IDE disk do not reach. -/
def Event.Strays (app : App) : Event → Prop
  | .disk (.write lba buf) _ => ∃ a, app.disk = .ata a ∧ buf.length = sector ∧
      lba < a.sectors ∧ lba28 (a.base + lba) < app.dataLba
  | .disk _ _ => False
  | .key k s =>
      (app.top = .xhci ∧ k.isLetter 'w' = true ∧
        ∃ p, testTarget app.probes = some p ∧ TestStarts app.probes p.slotId 1 s.wire) ∨
      k = .enter ∧ ∃ slotId, app.top = .confirmCreateOs slotId ∧
        s.holdsBooted slotId = true ∧
        Installing.CopyStarts app.probes slotId app.dataLba app.bootedSysGuid (.idle s.ide) s.wire
  | .cursor _ => False

variable {app app' : App} {e : Event} {sent : List Traffic} {guid : List Byte} {dataLba : Nat}

/-- Nothing is written. -/
structure Harmless (sent : List Traffic) : Prop where
  ide : ∀ c, .ide c ∈ sent → ¬ c.IsWrite
  usb : ∀ i c f, .usb (.out i c f) ∈ sent → ¬ IsCommand 0x2A c

theorem Harmless.rule (h : Harmless sent) : Rule app e sent := by
  constructor
  · intro drive lba bytes hmem
    exact absurd trivial (h.ide _ hmem)
  · intro before i c f rest hsent hc
    refine absurd hc (h.usb i c f ?_)
    rw [hsent]
    exact List.mem_append_right _ List.mem_cons_self

theorem harmless_nil : Harmless [] :=
  ⟨fun _ h => absurd h List.not_mem_nil, fun _ _ _ h => absurd h List.not_mem_nil⟩

theorem Harmless.append {sent' : List Traffic} (h : Harmless sent) (h' : Harmless sent') :
    Harmless (sent ++ sent') := by
  constructor
  · intro c hmem
    exact (List.mem_append.mp hmem).elim (h.ide c) (h'.ide c)
  · intro i c f hmem
    exact (List.mem_append.mp hmem).elim (h.usb i c f) (h'.usb i c f)

theorem harmless_ide {cs : List AtaCommand} (h : ∀ c ∈ cs, ¬ c.IsWrite) :
    Harmless (cs.map .ide) := by
  constructor
  · intro c hmem
    obtain ⟨c', hc', heq⟩ := List.mem_map.mp hmem
    injection heq with heq
    exact heq ▸ h c' hc'
  · intro i c f hmem
    obtain ⟨c', -, heq⟩ := List.mem_map.mp hmem
    cases heq

theorem mem_sentSince {x : Xfer} {w w' : Wire} :
    .usb x ∈ App.sentSince w w' ↔ x ∈ w'.log.drop w.log.length := by
  constructor
  · intro hmem
    obtain ⟨y, hy, heq⟩ := List.mem_map.mp hmem
    injection heq with heq
    exact heq ▸ hy
  · intro hmem
    exact List.mem_map_of_mem hmem

theorem harmless_since {w w' : Wire} (h : Silent w w') : Harmless (App.sentSince w w') := by
  constructor
  · intro c hmem
    obtain ⟨x, -, heq⟩ := List.mem_map.mp hmem
    cases heq
  · intro i c f hmem
    exact h.mem_drop (mem_sentSince.mp hmem)

theorem usbPart_map (xs : List Xfer) : usbPart (xs.map .usb) = xs := by
  unfold usbPart
  rw [List.filterMap_map]
  exact List.filterMap_some

/-! ## Volume writes -/

/-- The disk that the boot has found. -/
def BootDisk.Sound (guid : List Byte) (dataLba : Nat) : BootDisk → Prop
  | .ata a => a.base = dataLba
  | .usb d => d.Fits guid ∧ d.base = dataLba

theorem BootDisk.Sound.call {disk : BootDisk} (h : disk.Sound guid dataLba) (c : DiskCall)
    (b : Buses) : (disk.call c b).2.1.Sound guid dataLba := by
  cases disk with
  | ata a => exact h
  | usb d =>
      obtain ⟨-, hbase, -⟩ := UsbBootDisk.call_safe h.1 c b.wire
      exact ⟨h.1.call c b.wire, hbase.trans h.2⟩

/-- The writes of an IDE volume. -/
theorem commands_perform (a : Ata) (call : DiskCall) :
    Commands (fun c => ∀ drive at28 bytes, c = .write drive at28 bytes → ∃ lba,
      call = .write lba bytes ∧ bytes.length = sector ∧ lba < a.sectors ∧
      drive = .primaryMaster ∧ at28 = lba28 (a.base + lba)) (a.perform call) := by
  have hthrow : ∀ {α : Type} {W : AtaCommand → Prop},
      Commands W (Fallible.throw .io : AtaM α) := .throw fun _ h => h
  have hread : ∀ lba {W : AtaCommand → Prop}, (∀ at28, W (.read .primaryMaster at28)) →
      Commands W (readSectorAt .primaryMaster lba) := fun _ _ h => commands_readSectorAt (h _)
  cases call with
  | readBoot len =>
      exact .ite (fun _ => hthrow) fun _ => hread 0 fun _ _ _ _ h => by cases h
  | read lba len =>
      exact .ite (fun _ => hthrow) fun _ => hread _ fun _ _ _ _ h => by cases h
  | write lba buf =>
      refine .bind (.ite (fun _ => hthrow) fun hok => ?_) fun _ => .pure fun _ h => h
      have hlen : buf.length = sector := Classical.not_not.mp fun h => hok (Or.inl h)
      have hlba : lba < a.sectors := Nat.not_le.mp fun h => hok (Or.inr h)
      refine .bind (commands_issue fun drive at28 bytes h => ?_) fun _ =>
        .bind (commands_issue fun _ _ _ h => by cases h) fun _ => .pure fun _ h => h
      cases h
      exact ⟨lba, rfl, hlen, hlba, rfl, rfl⟩
  | flush =>
      exact .bind (.bind (commands_issue fun _ _ _ h => by cases h) fun _ => .pure fun _ h => h)
        fun _ => .pure fun _ h => h

theorem call_rule (h : app.disk.Sound app.bootedSysGuid app.dataLba) {c : DiskCall} {b : Buses}
    (hno : ¬ (Event.disk c b).Strays app) :
    Rule app (.disk c b) (app.disk.call c b).2.2 := by
  cases hd : app.disk with
  | ata a =>
      rw [hd] at h
      have hempty : (IdeBus.idle b.ide).log = [] := rfl
      have hcmds := (commands_perform a c).run fun _ hmem =>
        absurd (hempty ▸ hmem) List.not_mem_nil
      constructor
      · intro drive at28 bytes hmem
        obtain ⟨x, hx, heq⟩ := List.mem_map.mp hmem
        injection heq with heq
        obtain ⟨lba, rfl, hlen, hlba, hdrive, rfl⟩ := hcmds x hx drive at28 bytes heq
        refine ⟨trivial, ⟨a, hd⟩, hdrive, Nat.not_lt.mp fun hlow => ?_⟩
        exact hno ⟨a, hd, hlen, hlba, hlow⟩
      · intro before i c' f rest hsent
        have hmem : Traffic.usb (.out i c' f) ∈ ((BootDisk.ata a).call c b).2.2 := by
          rw [hsent]
          exact List.mem_append_right _ List.mem_cons_self
        obtain ⟨x, -, heq⟩ := List.mem_map.mp hmem
        cases heq
  | usb d =>
      rw [hd] at h
      obtain ⟨-, -, -, hcont⟩ := UsbBootDisk.call_safe h.1 c b.wire
      rw [h.2] at hcont
      constructor
      · intro drive lba bytes hmem
        obtain ⟨x, -, heq⟩ := List.mem_map.mp hmem
        cases heq
      · intro before i c' f rest hsent hc'
        have hsplit : (d.call c b.wire).2.2 = usbPart before ++ .out i c' f :: usbPart rest := by
          have := congrArg usbPart hsent
          rw [show ((BootDisk.usb d).call c b).2.2 = (d.call c b.wire).2.2.map .usb from rfl,
            usbPart_map] at this
          rw [this]
          unfold usbPart
          rw [List.filterMap_append, List.filterMap_cons]
        obtain ⟨⟨hlo, -⟩, hcheck⟩ := hcont _ i c' f _ hsplit hc'
        exact Or.inl ⟨trivial, hlo, hcheck⟩

theorem issued_issue (c : AtaCommand) :
    Fallible.Triple (fun _ => True) c.issue (fun _ b => c ∈ b.log) (fun b => c ∈ b.log) := by
  intro b _
  unfold AtaCommand.issue
  cases b.answer b.next <;> exact List.mem_append_right _ List.mem_cons_self

theorem stays_issue (c c' : AtaCommand) :
    Fallible.Triple (fun b => c ∈ b.log) c'.issue (fun _ b => c ∈ b.log)
      (fun b => c ∈ b.log) := by
  intro b h
  unfold AtaCommand.issue
  cases b.answer b.next <;> exact List.mem_append_left _ h

/-- A sector that the address registers do not reach. -/
theorem call_strays {c : DiskCall} {b : Buses} (hs : (Event.disk c b).Strays app) :
    ¬ Rule app (.disk c b) (app.disk.call c b).2.2 := by
  intro hrule
  cases c with
  | readBoot len => exact hs
  | read lba len => exact hs
  | flush => exact hs
  | write lba buf =>
      obtain ⟨a, hd, hlen, hlba, hlow⟩ := hs
      have hok : ¬ (buf.length ≠ sector ∨ a.sectors ≤ lba) := by
        rintro (h | h)
        · exact h hlen
        · exact absurd hlba (Nat.not_lt.mpr h)
      have hmem : AtaCommand.write .primaryMaster (lba28 (a.base + lba)) buf ∈
          (a.perform (.write lba buf) (.idle b.ide)).2.log := by
        have hissued : Fallible.Triple (fun _ => True) (a.perform (.write lba buf))
            (fun _ b => .write .primaryMaster (lba28 (a.base + lba)) buf ∈ b.log)
            (fun b => .write .primaryMaster (lba28 (a.base + lba)) buf ∈ b.log) :=
          .bind (.ite (fun h => absurd h hok) fun _ => .bind (issued_issue _) fun _ =>
            .bind (stays_issue _ _) fun _ => .pure fun _ h => h) fun _ => .pure fun _ h => h
        have := hissued (.idle b.ide) trivial
        rcases hp : a.perform (.write lba buf) (.idle b.ide) with ⟨_ | _, b'⟩ <;>
          rw [hp] at this <;> exact this
      rw [hd] at hrule
      obtain ⟨-, -, -, hle⟩ := hrule.ide _ _ _ (List.mem_map_of_mem hmem)
      exact absurd hlow (Nat.not_lt.mpr hle)

/-! ## Keys -/

theorem idle_log (answer : Nat → Option (List Byte)) :
    ∀ c ∈ (IdeBus.idle answer).log, ¬ c.IsWrite := fun _ h => absurd h List.not_mem_nil

namespace App

theorem pop_eq (app : App) : app.pop = { app with stack := app.pop.stack } := by
  unfold pop
  split <;> rfl

/-- An install keeps the rule unless it copies onto the booted disk. -/
theorem createOs_rule {s : Surroundings} (htop : app.top = .confirmCreateOs slotId)
    (h : s.holdsBooted slotId = true →
      ¬ Installing.CopyStarts app.probes slotId app.dataLba app.bootedSysGuid (.idle s.ide)
        s.wire) :
    Rule app (.key .enter s) (app.pop.createOs slotId s).2 := by
  rw [pop_eq]
  have hconf : Installing.Confined s.wire slotId (installToUsb app.probes slotId app.dataLba
      app.bootedSysGuid s.tsc s.runs (.idle s.ide) s.wire app.mscTag) :=
    Installing.installToUsb_confined _ _ (idle_log s.ide)
  by_cases hb : s.holdsBooted slotId = true
  · have hsilent : Silent s.wire (installToUsb app.probes slotId app.dataLba
        app.bootedSysGuid s.tsc s.runs (.idle s.ide) s.wire app.mscTag).wire :=
      Installing.installToUsb_silent _ _ (idle_log s.ide) (h hb)
    exact ((harmless_ide hconf.ide).append (harmless_since hsilent)).rule
  · constructor
    · intro drive lba bytes hmem
      rcases List.mem_append.mp hmem with hmem | hmem
      · exact absurd trivial ((harmless_ide hconf.ide).ide _ hmem)
      · obtain ⟨x, -, heq⟩ := List.mem_map.mp hmem
        cases heq
    · intro before i c f rest hsent hc
      have hmem : Traffic.usb (.out i c f) ∈
          ({ app with stack := app.pop.stack }.createOs slotId s).2 := by
        rw [hsent]
        exact List.mem_append_right _ List.mem_cons_self
      rcases List.mem_append.mp hmem with hmem | hmem
      · obtain ⟨x, -, heq⟩ := List.mem_map.mp hmem
        cases heq
      · exact Or.inr ⟨slotId, s, ⟨rfl, htop⟩, hconf.wire.mem_drop (mem_sentSince.mp hmem),
          Bool.eq_false_iff.mpr hb⟩

/-- An install that gets to the copy writes to its slot. -/
theorem createOs_writes {s : Surroundings} (hdata : 0 < app.dataLba)
    (h : Installing.CopyStarts app.probes slotId app.dataLba app.bootedSysGuid (.idle s.ide)
      s.wire) :
    ∃ pipe c f, Resolves s.wire slotId pipe ∧ IsCommand 0x2A c ∧
      Traffic.usb (.out pipe.slotIdx c f) ∈ (app.createOs slotId s).2 := by
  obtain ⟨pipe, c, f, hp, hc, hmem⟩ :=
    Installing.installToUsb_writes s.runs s.tsc app.mscTag (idle_log s.ide) h hdata
  exact ⟨pipe, c, f, hp, hc, List.mem_append_right _ (mem_sentSince.mpr hmem)⟩

theorem createOs_strays {s : Surroundings} (htop : app.top = .confirmCreateOs slotId)
    (hdata : 0 < app.dataLba) (hb : s.holdsBooted slotId = true)
    (h : Installing.CopyStarts app.probes slotId app.dataLba app.bootedSysGuid (.idle s.ide)
      s.wire) : ¬ Rule app (.key .enter s) (app.pop.createOs slotId s).2 := by
  rw [pop_eq]
  intro hrule
  obtain ⟨pipe, c, f, -, hc, hmem⟩ :=
    @createOs_writes _ { app with stack := app.pop.stack } _ hdata h
  obtain ⟨before, rest, hsent⟩ := List.append_of_mem hmem
  rcases hrule.usb before _ c f rest hsent hc with ⟨hvol, -⟩ | ⟨slotId', s', ⟨he, htop'⟩, -, hno⟩
  · exact hvol
  · cases he
    rw [htop] at htop'
    cases htop'
    rw [hb] at hno
    cases hno

theorem probeController_harmless (w : Wire) (app : App) : Harmless (app.probeController w).2 := by
  have h := probeDrives_silent w
  unfold probeController
  rcases hr : probeDrives w with ⟨_ | _, w'⟩ <;> rw [hr] at h <;> exact harmless_since h

theorem autopilot_harmless (ws : List Wire) (app : App) :
    Harmless (app.autopilotUsbDrives ws).2 := by
  induction ws generalizing app with
  | nil => exact harmless_nil
  | cons w ws ih => exact (probeController_harmless w app).append (ih _)

theorem lookAround_harmless (s : Surroundings) (app : App) : Harmless (app.lookAround s).2 :=
  (harmless_ide (enumerateDrives_log s.ide)).append (autopilot_harmless _ _)

theorem writeTest_harmless {s : Surroundings}
    (h : ¬ ∃ p, testTarget app.probes = some p ∧ TestStarts app.probes p.slotId 1 s.wire) :
    Harmless (app.writeTest s) := by
  unfold writeTest
  cases hp : testTarget app.probes with
  | none => exact harmless_nil
  | some p => exact harmless_since (runWriteTest_silent fun hs => h ⟨p, hp, hs⟩)

theorem writeTest_strays {s : Surroundings} {k : Key} (htop : app.top = .xhci)
    (h : ∃ p, testTarget app.probes = some p ∧ TestStarts app.probes p.slotId 1 s.wire) :
    ¬ Rule app (.key k s) (app.writeTest s) := by
  obtain ⟨p, hp, hstarts⟩ := h
  obtain ⟨i, c, f, hc, hmem⟩ := runWriteTest_writes hstarts
  have hsent : app.writeTest s =
      sentSince s.wire (runWriteTest app.probes p.slotId 1 s.wire).2 := by
    unfold writeTest
    rw [hp]
  rw [hsent]
  intro hrule
  obtain ⟨before, rest, hsplit⟩ := List.append_of_mem (mem_sentSince.mpr hmem)
  rcases hrule.usb before i c f rest hsplit hc with ⟨hvol, -⟩ | ⟨slotId, s', ⟨-, htop'⟩, -⟩
  · exact hvol
  · rw [htop] at htop'
    cases htop'

/-! ## One event and every run -/

theorem isLetter_ne {k : Key} (h : k.isLetter 'w' = true) : k ≠ .esc ∧ k.isLetter 'm' = false := by
  cases k with
  | char c =>
      refine ⟨Key.noConfusion, ?_⟩
      unfold Key.isLetter at h ⊢
      rw [Bool.or_eq_true, beq_iff_eq, beq_iff_eq] at h
      rcases h with rfl | rfl <;> decide
  | up => cases h
  | down => cases h
  | enter => cases h
  | esc => cases h

theorem key_rule {k : Key} {s : Surroundings} (hno : ¬ (Event.key k s).Strays app) :
    Rule app (.key k s) (app.onKey k s).2 := by
  unfold onKey
  cases htop : app.top with
  | list =>
      refine Harmless.rule ?_
      dsimp only [keyList]
      split
      · exact lookAround_harmless s app
      split
      · exact harmless_nil
      split
      · exact autopilot_harmless _ _
      · exact harmless_nil
  | drives =>
      refine Harmless.rule ?_
      dsimp only [keyDrives]
      split
      · exact harmless_nil
      split
      · exact lookAround_harmless s app
      · exact harmless_nil
  | pci =>
      refine Harmless.rule ?_
      dsimp only [keyPci]
      split
      · exact harmless_nil
      split <;> exact harmless_nil
  | xhci =>
      refine Harmless.rule ?_
      dsimp only [keyXhci]
      split
      · exact harmless_nil
      split
      · exact probeController_harmless _ _
      split
      · next hw => exact writeTest_harmless fun h => hno (Or.inl ⟨htop, hw, h⟩)
      · exact harmless_nil
  | createOsPick candidates sel => exact harmless_nil.rule
  | confirmCreateOs slotId =>
      cases k with
      | enter => exact createOs_rule htop fun hb h => hno (Or.inr ⟨rfl, slotId, htop, hb, h⟩)
      | esc => exact harmless_nil.rule
      | up => exact harmless_nil.rule
      | down => exact harmless_nil.rule
      | char c => exact harmless_nil.rule
  | installResult report => exact harmless_nil.rule

theorem onKey_confirm (htop : app.top = .confirmCreateOs slotId) (s : Surroundings) :
    app.onKey .enter s = app.pop.createOs slotId s := by
  unfold onKey
  rw [htop]
  rfl

theorem key_strays {k : Key} {s : Surroundings} (hdata : 0 < app.dataLba)
    (hs : (Event.key k s).Strays app) : ¬ Rule app (.key k s) (app.onKey k s).2 := by
  rcases hs with ⟨htop, hw, h⟩ | ⟨rfl, slotId, htop, hb, h⟩
  · obtain ⟨hesc, hm⟩ := isLetter_ne hw
    have hkey : app.onKey k s = (app, app.writeTest s) := by
      unfold onKey
      rw [htop]
      dsimp only [keyXhci]
      rw [if_neg hesc, hm, if_neg Bool.false_ne_true, if_pos hw]
    rw [hkey]
    exact writeTest_strays htop h
  · rw [onKey_confirm htop s]
    exact createOs_strays htop hdata hb h

/-- What of the app decides about writes does not change. -/
structure Same (app app' : App) : Prop where
  disk : app'.disk = app.disk
  guid : app'.bootedSysGuid = app.bootedSysGuid
  dataLba : app'.dataLba = app.dataLba

theorem Same.refl (app : App) : Same app app := ⟨rfl, rfl, rfl⟩

theorem Same.trans {app'' : App} (h : Same app app') (h' : Same app' app'') : Same app app'' :=
  ⟨h'.disk.trans h.disk, h'.guid.trans h.guid, h'.dataLba.trans h.dataLba⟩

theorem same_pop (app : App) : Same app app.pop := by
  rw [pop_eq]
  exact ⟨rfl, rfl, rfl⟩

theorem same_probeController (w : Wire) (app : App) : Same app (app.probeController w).1 := by
  unfold probeController
  split <;> exact ⟨rfl, rfl, rfl⟩

theorem same_autopilot (ws : List Wire) (app : App) :
    Same app (app.autopilotUsbDrives ws).1 := by
  induction ws generalizing app with
  | nil => exact .refl app
  | cons w ws ih => exact (same_probeController w app).trans (ih _)

theorem same_push (scr : Screen) (app : App) : Same app (app.push scr) := ⟨rfl, rfl, rfl⟩

theorem same_onKey (k : Key) (s : Surroundings) (app : App) : Same app (app.onKey k s).1 := by
  unfold onKey
  cases app.top with
  | list =>
      dsimp only [keyList]
      split
      · exact (same_autopilot s.controllers app).trans (same_push _ _)
      split
      · exact same_push _ _
      split
      · dsimp only
        split
        · exact same_autopilot _ _
        · exact (same_autopilot s.controllers app).trans (same_push _ _)
      · exact .refl app
  | drives =>
      dsimp only [keyDrives]
      split
      · exact same_pop app
      split
      · exact same_autopilot _ _
      · exact .refl app
  | pci =>
      dsimp only [keyPci]
      split
      · exact same_pop app
      split
      · exact same_push _ _
      · exact .refl app
  | xhci =>
      dsimp only [keyXhci]
      split
      · exact same_pop app
      split
      · exact same_probeController _ _
      split <;> exact .refl app
  | createOsPick candidates sel =>
      dsimp only [keyCreateOsPick]
      cases k with
      | enter =>
          dsimp only
          split <;> exact ⟨rfl, rfl, rfl⟩
      | esc => exact ⟨(same_pop _).disk, (same_pop _).guid, (same_pop _).dataLba⟩
      | up => exact ⟨rfl, rfl, rfl⟩
      | down => exact ⟨rfl, rfl, rfl⟩
      | char c => exact ⟨rfl, rfl, rfl⟩
  | confirmCreateOs slotId =>
      cases k with
      | enter => exact ⟨(same_pop app).disk, (same_pop app).guid, (same_pop app).dataLba⟩
      | esc => exact same_pop app
      | up => exact .refl app
      | down => exact .refl app
      | char c => exact .refl app
  | installResult report =>
      dsimp only
      split <;> exact ⟨rfl, rfl, rfl⟩

theorem disk_key (k : Key) (s : Surroundings) (app : App) :
    (app.step (.key k s)).1.disk = app.disk :=
  (same_onKey k s app).disk

/-- The boot disk, as every event leaves it. -/
def Sound (guid : List Byte) (dataLba : Nat) (app : App) : Prop :=
  app.bootedSysGuid = guid ∧ app.dataLba = dataLba ∧ app.disk.Sound guid dataLba

theorem Sound.step (h : app.Sound guid dataLba) (e : Event) :
    (app.step e).1.Sound guid dataLba := by
  obtain ⟨hguid, hdata, hdisk⟩ := h
  cases e with
  | disk c b => exact ⟨hguid, hdata, hdisk.call c b⟩
  | key k s =>
      have hsame := same_onKey k s app
      refine ⟨hsame.guid.trans hguid, hsame.dataLba.trans hdata, ?_⟩
      rw [disk_key]
      exact hdisk
  | cursor i =>
      have hcursor : Same app (app.setCursor i) := by
        unfold setCursor
        split <;> exact ⟨rfl, rfl, rfl⟩
      refine ⟨hcursor.guid.trans hguid, hcursor.dataLba.trans hdata, ?_⟩
      rw [show (app.step (.cursor i)).1.disk = app.disk from hcursor.disk]
      exact hdisk

/-- One event keeps the rule exactly where it does not stray. -/
theorem step_rule (h : app.Sound guid dataLba) {e : Event} (hno : ¬ e.Strays app) :
    Rule app e (app.step e).2 := by
  obtain ⟨hguid, hdata, hdisk⟩ := h
  cases e with
  | disk c b =>
      refine call_rule ?_ hno
      rw [hguid, hdata]
      exact hdisk
  | key k s => exact key_rule hno
  | cursor i => exact harmless_nil.rule

theorem step_strays (hdata : 0 < app.dataLba) {e : Event} (hs : e.Strays app) :
    ¬ Rule app e (app.step e).2 := by
  cases e with
  | disk c b => exact call_strays hs
  | key k s => exact key_strays hdata hs
  | cursor i => exact hs.elim

/-- `P` holds of every event of a run, at the app it finds. -/
def Along (P : App → Event → Prop) : App → List Event → Prop
  | _, [] => True
  | app, e :: es => P app e ∧ Along P (app.step e).1 es

theorem along_rule (h : app.Sound guid dataLba) (events : List Event)
    (hno : app.Along (fun app e => ¬ e.Strays app) events) :
    app.Along (fun app e => Rule app e (app.step e).2) events := by
  induction events generalizing app with
  | nil => trivial
  | cons e events ih => exact ⟨step_rule h hno.1, ih (h.step e) hno.2⟩

theorem along_strays (h : app.Sound guid dataLba) (hdata : 0 < dataLba) (events : List Event)
    (hrule : app.Along (fun app e => Rule app e (app.step e).2) events) :
    app.Along (fun app e => ¬ e.Strays app) events := by
  induction events generalizing app with
  | nil => trivial
  | cons e events ih =>
      refine ⟨fun hs => ?_, ih (h.step e) hrule.2⟩
      exact step_strays (by rw [h.2.1]; exact hdata) hs hrule.1

end App

/-! ## The boot -/

theorem readBoot_ok {bytes : List Byte} {b b' : IdeBus}
    (h : Ata.readBootSector sector b = (.ok bytes, b')) :
    ∃ block, b.answer b.next = some block ∧ bytes = fill (List.replicate sector 0) block := by
  have hrun : Ata.readBootSector sector b = readSectorAt .primaryMaster 0 b :=
    Fallible.run_if_neg (fun hne => hne rfl) _ _ b
  rw [hrun] at h
  cases hblock : b.answer b.next with
  | none =>
      rw [Installing.readSectorAt_none _ _ hblock] at h
      exact nomatch (Prod.mk.inj h).1
  | some block =>
      rw [Installing.readSectorAt_some _ _ hblock] at h
      exact ⟨block, rfl, (Except.ok.inj (Prod.mk.inj h).1).symm⟩

/-- The IDE disk is the primary master, and its boot sector carried the
GUID. -/
theorem discoverAta_ok {ide : Nat → Option (List Byte)} {a : Ata} {b : IdeBus}
    (h : discoverAta dataLba guid (.idle ide) = (.ok a, b)) :
    a.base = dataLba ∧ ∃ block, ide 1 = some block ∧
      guidOf (fill (List.replicate sector 0) block) = guid := by
  unfold discoverAta at h
  rcases hprobe : Ata.probe dataLba (.idle ide) with ⟨e | a', b₁⟩
  · rw [Fallible.run_bind_error hprobe] at h
    exact nomatch (Prod.mk.inj h).1
  rw [Fallible.run_bind_ok hprobe] at h
  have hbase : a'.base = dataLba ∧ b₁.next = 1 ∧ b₁.answer = ide := by
    rcases hid : (AtaCommand.identify .primaryMaster).issue (.idle ide) with ⟨e | bytes, b₂⟩
    · rw [show Ata.probe dataLba (.idle ide) = _ from Fallible.run_bind_error hid] at hprobe
      exact nomatch (Prod.mk.inj hprobe).1
    · rw [show Ata.probe dataLba (.idle ide) = _ from Fallible.run_bind_ok hid] at hprobe
      have hb : b₂ = ((AtaCommand.identify .primaryMaster).issue (.idle ide)).2 := by rw [hid]
      have hafter : ((AtaCommand.identify .primaryMaster).issue (.idle ide)).2 =
          ⟨ide, 1, [.identify .primaryMaster]⟩ := by
        unfold AtaCommand.issue IdeBus.idle
        dsimp only
        split <;> rfl
      obtain ⟨ha, hb'⟩ := Prod.mk.inj hprobe
      rw [← hb', hb, hafter]
      exact ⟨by rw [← Except.ok.inj ha], rfl, rfl⟩
  rcases hread : Ata.readBootSector sector b₁ with ⟨e | mbr, b₂⟩
  · rw [Fallible.run_bind_error hread] at h
    exact nomatch (Prod.mk.inj h).1
  rw [Fallible.run_bind_ok hread] at h
  obtain ⟨block, hblock, hmbr⟩ := readBoot_ok hread
  rw [hbase.2.1, hbase.2.2] at hblock
  rw [hmbr] at h
  by_cases hguid : guidOf (fill (List.replicate sector 0) block) = guid
  · rw [Fallible.run_if_pos hguid] at h
    have ha : a' = a := Except.ok.inj (Prod.mk.inj h).1
    exact ⟨ha ▸ hbase.1, block, hblock, hguid⟩
  · rw [Fallible.run_if_neg hguid] at h
    exact nomatch (Prod.mk.inj h).1

variable {ide : Nat → Option (List Byte)} {b : Buses} {disk : BootDisk}

theorem bootDisk_ok (h : bootDisk ide probes dataLba guid b = some disk) :
    disk.Sound guid dataLba ∧ ∀ a, disk = .ata a → ∃ block, ide 1 = some block ∧
      guidOf (fill (List.replicate sector 0) block) = guid := by
  obtain ⟨found, hfound, hgate⟩ := Option.bind_eq_some_iff.mp h
  have hsound : found.Sound guid dataLba ∧ ∀ a, found = .ata a → ∃ block, ide 1 = some block ∧
      guidOf (fill (List.replicate sector 0) block) = guid := by
    unfold discover at hfound
    rcases ha : discoverAta dataLba guid (.idle ide) with ⟨e | a, b'⟩ <;> rw [ha] at hfound
    · obtain ⟨d, hd, rfl⟩ := Option.map_eq_some_iff.mp hfound
      obtain ⟨hfits, hbase, -⟩ := discoverBootDisk_some hd
      exact ⟨⟨hfits, hbase⟩, fun a ha => by cases ha⟩
    · cases hfound
      obtain ⟨hbase, hmbr⟩ := discoverAta_ok ha
      exact ⟨hbase, fun _ _ => hmbr⟩
  have hkept := hsound.1.call (.readBoot sector) b
  have hkind : ∀ a, (found.call (.readBoot sector) b).2.1 = .ata a → found = .ata a := by
    intro a ha
    cases found with
    | ata a' => exact ha
    | usb d => cases ha
  rcases hcall : found.call (.readBoot sector) b with ⟨e | mbr, disk', sent⟩ <;>
    rw [hcall] at hgate hkept hkind
  · cases hgate
  · dsimp only at hgate
    by_cases hguid : guidOf mbr = guid
    · rw [if_pos hguid] at hgate
      cases hgate
      exact ⟨hkept, fun a ha => hsound.2 a (hkind a ha)⟩
    · rw [if_neg hguid] at hgate
      cases hgate

/-- Over every run from the boot on: where no event strays every write keeps
the rule, and where every write does no event strays. Over IDE it is the disk
whose boot sector carried the GUID. -/
theorem boot_medium_rule (h : bootDisk ide probes dataLba guid b = some disk)
    (events : List Event) :
    (∀ a, disk = .ata a → ∃ block, ide 1 = some block ∧
      guidOf (fill (List.replicate sector 0) block) = guid) ∧
    ((App.start disk guid dataLba probes).Along (fun app e => ¬ e.Strays app) events →
      (App.start disk guid dataLba probes).Along (fun app e => Rule app e (app.step e).2)
        events) ∧
    (0 < dataLba →
      (App.start disk guid dataLba probes).Along (fun app e => Rule app e (app.step e).2) events →
      (App.start disk guid dataLba probes).Along (fun app e => ¬ e.Strays app) events) := by
  obtain ⟨hsound, hmbr⟩ := bootDisk_ok h
  have happ : (App.start disk guid dataLba probes).Sound guid dataLba := ⟨rfl, rfl, hsound⟩
  exact ⟨hmbr, App.along_rule happ events, fun hdata => App.along_strays happ hdata events⟩

/-- A drive on slot 1 that answers one READ(10) and then nothing more. -/
def showingDrive (block : List Byte) : Wire where
  fate n := match n with
    | 0 => .event 1 []
    | 1 => .event 1 block
    | 2 => .event 1 (leBytes 4 cswSig ++ leBytes 4 firstTag ++ [0, 0, 0, 0, 0])
    | _ => .timeout
  next := 0
  log := []
  devices := stallingDrive.devices

/-- The stick as the gate of `kmain` leaves it. -/
def bootedStick : BootDisk := .usb { stickDisk with dev := stickDisk.dev.bumpTag }

theorem bootDisk_stick : bootDisk (fun _ => none) [stickProbe] 4096 (guidOf stickMbr)
    ⟨fun _ => none, showingDrive stickMbr⟩ = some bootedStick := by
  decide +kernel

/-- Another stick of that size, on slot 2, with nothing on it. -/
def blankProbe : MscProbe := ⟨2, true, some ⟨65535, sector⟩, []⟩

theorem bootDisk_beside : bootDisk (fun _ => none) [stickProbe, blankProbe] 4096 (guidOf stickMbr)
    ⟨fun _ => none, showingDrive stickMbr⟩ = some bootedStick := by
  decide +kernel

/-- The app of a system that was booted from the one stick beside the other. -/
def besideBlank : App := .start bootedStick (guidOf stickMbr) 4096 [stickProbe, blankProbe]

/-- What the keys find around the two. There is an IDE disk to copy from. -/
def aroundBoth : Surroundings where
  ide _ := some (List.replicate sector 0)
  wire := { showingDrive (List.replicate sector 0) with
    devices := { stallingDrive.devices with
      slots := stallingDrive.devices.slots ++
        [⟨2, 5, 3, [⟨0x81, 3, 2, 512, true⟩, ⟨0x02, 4, 2, 512, false⟩]⟩] } }
  controllers := []
  inspected := false
  tsc := 0
  runs := ⟨[], false, [], false⟩
  holdsBooted slotId := slotId == 1

/-- The user asks for another system on the blank stick, and confirms. -/
def asksInstall : List Event :=
  [.key (.char 'n') aroundBoth, .key .enter aroundBoth, .key .enter aroundBoth]

theorem confirming : (besideBlank.after (asksInstall.take 2)).stack =
      [.confirmCreateOs 2, .createOsPick [2] 0, .list] ∧
    (besideBlank.after (asksInstall.take 2)).probes = [stickProbe, blankProbe] := by
  decide +kernel

/-- The blank stick delivers its LBA 0, and that is no boot sector. -/
theorem unseen_blank : ¬ ShowsBoot aroundBoth.wire (guidOf stickMbr) := by
  rintro ⟨moved, m, outcome, hcommand, -, hmagic, -⟩
  have hblank : (commandOf aroundBoth.wire.fate aroundBoth.wire.next firstTag).map
      (fun c => hasBootMagic (fill (List.replicate sector 0) c.1)) = some false := by
    decide +kernel
  rw [hcommand, Option.map_some, hmagic] at hblank
  cases hblank

theorem install_beside {app : App} (htop : app.top = .confirmCreateOs 2)
    (hprobes : app.probes = [stickProbe, blankProbe]) (hdata : app.dataLba = 4096)
    (hguid : app.bootedSysGuid = guidOf stickMbr) :
    ∃ c f, IsCommand 0x2A c ∧
      Traffic.usb (.out 1 c f) ∈ (app.step (.key .enter aroundBoth)).2 := by
  have hstep : app.step (.key .enter aroundBoth) = app.pop.createOs 2 aroundBoth :=
    App.onKey_confirm htop aroundBoth
  have hstarts : Installing.CopyStarts app.probes 2 app.dataLba app.bootedSysGuid
      (.idle aroundBoth.ide) aroundBoth.wire := by
    rw [hprobes, hdata, hguid]
    exact ⟨⟨_, rfl, by decide⟩, ⟨⟨1, 0, 1⟩, rfl⟩, unseen_blank,
      fun _ _ => Option.some_ne_none _⟩
  obtain ⟨pipe, c, f, hp, hc, hmem⟩ := @App.createOs_writes 2
    { app with stack := app.pop.stack } aroundBoth (by simp only [hdata]; decide) hstarts
  have hslot : (1, 0, 1) = (pipe.slotIdx, pipe.bulkInIdx, pipe.bulkOutIdx) :=
    Except.ok.inj ((show Resolves aroundBoth.wire 2 ⟨1, 0, 1⟩ from rfl).symm.trans hp)
  rw [hstep, App.pop_eq]
  rw [← show 1 = pipe.slotIdx from congrArg Prod.fst hslot] at hmem
  exact ⟨c, f, hc, hmem⟩

/-- The copy gets to its first write, and that goes to the blank stick. Then the
store writes to the booted one. -/
theorem boot_medium_rule_stick :
    besideBlank.Along (fun app e => Rule app e (app.step e).2)
      (asksInstall ++
        [.disk (.write 7 (List.replicate sector 0)) ⟨fun _ => none, showingDrive stickMbr⟩]) ∧
    ∃ c f, IsCommand 0x2A c ∧ Traffic.usb (.out 1 c f) ∈
      ((besideBlank.after (asksInstall.take 2)).step (.key .enter aroundBoth)).2 := by
  have htop : (besideBlank.after (asksInstall.take 2)).top = .confirmCreateOs 2 :=
    congrArg (·.headD .list) confirming.1
  have hbefore : App.Same besideBlank (besideBlank.after (asksInstall.take 2)) :=
    (App.same_onKey (.char 'n') aroundBoth besideBlank).trans (App.same_onKey .enter aroundBoth _)
  have hpick : (besideBlank.step (.key (.char 'n') aroundBoth)).1.top = .createOsPick [2] 0 := by
    decide +kernel
  constructor
  · refine (boot_medium_rule bootDisk_beside _).2.1 ⟨?_, ?_, ?_, ?_, trivial⟩
    · rintro (⟨hxhci, -⟩ | ⟨hkey, -⟩)
      · cases hxhci
      · cases hkey
    · rintro (⟨hxhci, -⟩ | ⟨-, slotId, hconfirm, -⟩)
      · cases hpick.symm.trans hxhci
      · cases hpick.symm.trans hconfirm
    · rintro (⟨hxhci, -⟩ | ⟨-, slotId, hconfirm, hbooted, -⟩)
      · cases htop.symm.trans hxhci
      · cases htop.symm.trans hconfirm
        cases hbooted
    · rintro ⟨a, hdisk, -⟩
      rw [App.disk_key, App.disk_key, App.disk_key] at hdisk
      cases hdisk
  · exact install_beside htop confirming.2 hbefore.dataLba hbefore.guid

/-- What the keys find around the booted stick, which still answers. -/
def aroundStick : Surroundings where
  ide _ := none
  wire := showingDrive (List.replicate sector 0)
  controllers := []
  inspected := true
  tsc := 0
  runs := ⟨[], false, [], false⟩
  holdsBooted slotId := slotId == 1

/-- Three keys on a system that was booted from a stick, and LBA 1 of the stick
is overwritten: it lies below the volume, and nobody was asked. -/
theorem write_test_on_booted_stick :
    bootDisk (fun _ => none) [stickProbe] 4096 (guidOf stickMbr)
      ⟨fun _ => none, showingDrive stickMbr⟩ = some bootedStick ∧
    ¬ (App.start bootedStick (guidOf stickMbr) 4096 [stickProbe]).Along
      (fun app e => Rule app e (app.step e).2)
      [.key (.char 'p') aroundStick, .key .enter aroundStick, .key (.char 'w') aroundStick] ∧
    (((App.start bootedStick (guidOf stickMbr) 4096 [stickProbe]).after
      [.key (.char 'p') aroundStick, .key .enter aroundStick]).step
      (.key (.char 'w') aroundStick)).2[3]? =
      some (.usb
        (.out 0 (cbw (firstTag + 1) (.write testPattern) 0 (rw10 0x2A 1 1)) .timeout)) := by
  refine ⟨bootDisk_stick, fun h => ?_, by decide +kernel⟩
  obtain ⟨-, -, hrule, -⟩ := h
  have hstarts : TestStarts [stickProbe] 1 1 aroundStick.wire :=
    ⟨⟨_, rfl, by decide⟩, ⟨⟨0, 0, 1⟩, rfl⟩, _, _, ⟨0, 0⟩, rfl, rfl⟩
  have hstrays : (Event.key (.char 'w') aroundStick).Strays
      (((App.start bootedStick (guidOf stickMbr) 4096 [stickProbe]).step
        (.key (.char 'p') aroundStick)).1.step (.key .enter aroundStick)).1 :=
    Or.inl ⟨rfl, rfl, stickProbe, by decide +kernel, hstarts⟩
  exact App.step_strays (by decide) hstrays hrule

end TablesOS
