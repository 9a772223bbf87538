import TablesOS.Proofs.AtaCommands
import TablesOS.Proofs.Installation

/-!
# The installer on its drives and against a script

The installer is followed twice. `Installing` runs against what the buses answer,
whatever that is, and keeps the log of what was sent; what the store does to the
target is a list of calls there. `Installer` runs between a drive that it reads
at the ports and a bus of sticks, with the store that it formats and mounts. The
second is a case of the first: there are answers of the two buses and calls of
the store with which the run against them leaves the same report and the same
tag, and has sent what takes the bus of sticks to where it is.
-/

namespace TablesOS

open Fallible

namespace Usb

/-! ## The bus -/

/-- What the transfers so far make of the bus, and what becomes of the next ones. -/
structure Ahead (devices : XhciState) (bus₀ bus : Sticks) (fates : Nat → Fate) (w : Wire) :
    Prop where
  devices : w.devices = devices
  fates : ∀ i, w.fate (w.next + i) = fates i
  log : Sticks.partner.after bus₀ (w.log.map Xfer.said) = bus

variable {β : Type} {devices : XhciState} {bus₀ : Sticks}

/-- A run of the driver against the fates that the sticks decide is the run on the sticks. -/
theorem tracks_onSticks {n : Nat} {m : Wire → β × Wire} (hm : Says n devices m)
    (hn : n ≤ callTransfers) : Tracks (Ahead devices bus₀) (onSticks devices m) m := by
  obtain ⟨d, hd, hm⟩ := hm
  intro bus
  rw [onSticks_eq hm (hd.mono hn)]
  refine ⟨inFront (d.heard Sticks.partner bus), fun rest w h => ?_⟩
  have hplan : ∀ j, j < (d.heard Sticks.partner bus).length →
      w.fate (w.next + j) = (d.heard Sticks.partner bus).getD j .timeout :=
    fun j hj => (h.fates j).trans (inFront_lt rest hj _)
  obtain ⟨hres, hfur⟩ := hm w h.devices
  have hmet := Dialog.planned_met d hplan
  refine ⟨hres.trans (congrArg Prod.fst hmet), hfur.devices.trans h.devices, fun i => ?_, ?_⟩
  · rw [hfur.fate, hfur.next, Dialog.asked_planned d hplan, Nat.add_assoc, h.fates,
      inFront_add]
  · rw [hfur.log, Partner.after_append, h.log]
    exact congrArg Prod.snd hmet

theorem onWire_thenPure {α : Type} (m : DeviceM Unit) (a : α) (dev : UsbMscDevice) :
    DeviceM.onWire (do m; pure a) dev = fun w =>
      (((m.onWire dev w).1.1.map fun _ => a, (m.onWire dev w).1.2), (m.onWire dev w).2) := by
  funext w
  unfold DeviceM.onWire
  rw [run_bind]
  rcases m (dev, w) with ⟨_ | _, _, _⟩
  · rfl
  · rfl

/-- The calls of `BootDisk` on a stick. -/
theorem Says.perform (base sectors : Nat) (c : DiskCall) (dev : UsbMscDevice) :
    Says 12 devices ((UsbBootDisk.perform base sectors c).onWire dev) := by
  have hrefused : Says 12 devices
      (DeviceM.onWire (Fallible.throw .io : DeviceM (List Byte)) dev) :=
    @done _ devices 12 ((Except.error .io, dev) : Except StoreError (List Byte) × UsbMscDevice)
  cases c with
  | readBoot len => exact (readSector 0 len dev).mono (by decide)
  | read lba len =>
      by_cases hlba : sectors ≤ lba
      · rw [UsbBootDisk.perform, if_pos hlba]
        exact hrefused
      · rw [UsbBootDisk.perform, if_neg hlba]
        exact (readSector (base + lba) len dev).mono (by decide)
  | write lba buf =>
      by_cases hlba : sectors ≤ lba
      · rw [UsbBootDisk.perform, if_pos hlba]
        exact hrefused
      · rw [UsbBootDisk.perform, if_neg hlba, onWire_thenPure]
        exact (writeSector (base + lba) buf dev).map fun r => (r.1.map fun _ => [], r.2)
  | flush =>
      rw [UsbBootDisk.perform, onWire_thenPure]
      exact ((flush dev).map fun r => (r.1.map fun _ => ([] : List Byte), r.2)).mono (by decide)

end Usb

namespace Installer

open Usb

/-- The answers of both buses. -/
abbrev Answers := (Nat → Option (List Byte)) × (Nat → Fate)

/-- The run against answers is where the installer is. -/
structure Told (devices : XhciState) (bus₀ : Sticks) (s : Site) (ahead : Answers)
    (t : Installing) : Prop where
  report : t.report = s.report
  mscTag : t.mscTag = s.mscTag
  ide : ∀ i, t.ide.answer (t.ide.next + i) = ahead.1 i
  wire : Ahead devices bus₀ s.bus ahead.2 t.wire

variable {devices : XhciState} {bus₀ : Sticks} {n : Nat} {α : Type}

theorem record_tracks (f : InstallReport → InstallReport) :
    Tracks (Told devices bus₀) (record f) (Installing.record f) :=
  fun _ => ⟨id, fun _ _ h => ⟨rfl, congrArg f h.report, h.mscTag, h.ide, h.wire⟩⟩

theorem onDevice_eq (dev : UsbMscDevice) (m : DeviceM α) (t : Installing) :
    Installing.onDevice dev m t =
      (.ok (m.onWire dev t.wire).1, { t with wire := (m.onWire dev t.wire).2 }) := rfl

theorem onDevice_tracks {m : DeviceM α} {dev : UsbMscDevice} (hm : Says n devices (m.onWire dev))
    (hn : n ≤ callTransfers) :
    Tracks (Told devices bus₀) (onDevice devices dev m) (Installing.onDevice dev m) := by
  intro s
  obtain ⟨front, hfront⟩ := tracks_onSticks hm hn s.bus
  refine ⟨fun ahead => (ahead.1, front ahead.2), fun rest t h => ?_⟩
  obtain ⟨hr, hwire⟩ := hfront rest.2 t.wire h.wire
  rw [onDevice_eq]
  exact ⟨congrArg Except.ok hr, h.report, h.mscTag, h.ide, hwire⟩

theorem writeBlocks_tracks (slotId : Byte) (lba blocks : Nat) (data : List Byte) :
    Tracks (Told devices bus₀) (writeBlocks devices slotId lba blocks data)
      (Installing.writeBlocks slotId lba blocks data) := by
  intro s
  have htracks : Tracks (Ahead devices bus₀) (onSticks devices _) _ :=
    tracks_onSticks (Says.mscWriteBlocks slotId lba blocks data s.mscTag) (by decide)
  obtain ⟨front, hfront⟩ := htracks s.bus
  refine ⟨fun ahead => (ahead.1, front ahead.2), fun rest t h => ?_⟩
  obtain ⟨hr, hwire⟩ := hfront rest.2 t.wire h.wire
  unfold writeBlocks Installing.writeBlocks MscM.onBus
  rw [h.mscTag]
  rcases hm : mscWriteBlocks slotId lba blocks data s.mscTag t.wire with ⟨o, wire⟩
  rcases hs : onSticks devices (mscWriteBlocks slotId lba blocks data s.mscTag) s.bus with
    ⟨o', bus⟩
  rw [hm, hs] at hr hwire
  cases hr
  cases o with
  | error e => exact ⟨rfl, h.report, rfl, h.ide, hwire⟩
  | ok u => exact ⟨rfl, by simp [h.report], rfl, h.ide, hwire⟩

/-! ## The copy -/

theorem toList_stamped {guid : List Byte} (hg : guid.length = 16) (lba : Nat) (x : Sector) :
    (stamped guid lba x).toList = if lba = 0 then
      x.toList.take 0x1DC ++ guid ++ x.toList.drop (0x1DC + 16) else x.toList := by
  have hfront : ∀ y : Sector, y.toList.take 0x1DC = y.slice 0 0x1DC := fun y =>
    Buf.take_drop_slice (a := 0) (by decide)
  have hback : ∀ y : Sector, y.toList.drop (0x1DC + 16) = y.slice (0x1DC + 16) 20 := fun y => by
    have hall : (y.toList.drop (0x1DC + 16)).take 20 = y.toList.drop (0x1DC + 16) :=
      List.take_of_length_le (by simp)
    rw [← hall, Buf.toList, Buf.take_drop_slice (by decide), Nat.zero_add]
  have hmiddle : (x.put 0x1DC guid).slice 0x1DC guid.length = guid :=
    Buf.slice_put_self (by rw [hg]; decide)
  by_cases hlba : lba = 0
  · rw [stamped, if_pos hlba, if_pos hlba]
    calc (x.put 0x1DC guid).toList
        = (x.put 0x1DC guid).toList.take 0x1DC ++ (((x.put 0x1DC guid).toList.drop 0x1DC).take 16 ++
            ((x.put 0x1DC guid).toList.drop 0x1DC).drop 16) := by
          rw [List.take_append_drop, List.take_append_drop]
      _ = x.toList.take 0x1DC ++ (guid ++ x.toList.drop (0x1DC + 16)) := by
          rw [List.drop_drop, hfront, hfront, hback, hback,
            Buf.slice_put_disjoint (Or.inl (by decide)),
            Buf.slice_put_disjoint (Or.inr (by rw [hg])), Buf.toList,
            Buf.take_drop_slice (by decide), Nat.zero_add, ← hg, hmiddle]
      _ = x.toList.take 0x1DC ++ guid ++ x.toList.drop (0x1DC + 16) :=
          (List.append_assoc _ _ _).symm
  · rw [stamped, if_neg hlba, if_neg hlba]

/-- A sector for the copy, against answers. -/
def readStamped (guid : List Byte) (lba : Nat) : InstallM (List Byte) := fun s =>
  match readSectorAt .primaryMaster lba s.ide with
  | (.error _, ide) => (.error (), { s with ide })
  | (.ok bytes, ide) =>
      (.ok (if lba = 0 then bytes.take 0x1DC ++ guid ++ bytes.drop (0x1DC + 16) else bytes),
        { s with ide })

theorem readPrefix_cons (guid : List Byte) (lba : Nat) (lbas : List Nat) :
    Installing.readPrefix guid (lba :: lbas) =
      (do
        let bytes ← readStamped guid lba
        let rest ← Installing.readPrefix guid lbas
        pure (bytes ++ rest)) := by
  funext s
  rw [run_bind, Installing.readPrefix, readStamped]
  dsimp only
  rcases readSectorAt .primaryMaster lba s.ide with ⟨_ | bytes, ide⟩
  · rfl
  · rfl

theorem readChunk_cons (guid : List Byte) (lba : Nat) (lbas : List Nat) :
    readChunk guid (lba :: lbas) =
      (do
        let bytes ← (do let x ← readSlot lba; pure (stamped guid lba x).toList : SiteM (List Byte))
        let rest ← readChunk guid lbas
        pure (bytes ++ rest)) := by
  rw [readChunk, bind_assoc]
  rfl

/-- A read at the ports, whatever it comes to. -/
theorem readStamped_tracks {guid : List Byte} (hg : guid.length = 16) (lba : Nat) :
    Tracks (Told devices bus₀)
      (do let x ← readSlot lba; pure (stamped guid lba x).toList : SiteM (List Byte))
      (readStamped guid lba) := by
  intro s
  rw [run_bind, readSlot]
  rcases Pio.readSlot lba s.ata with ⟨e | x, ata⟩
  · refine ⟨fun ahead => (inFront [none] ahead.1, ahead.2), fun rest t h => ?_⟩
    have hnone : t.ide.answer t.ide.next = none := h.ide 0
    have hrun : readStamped guid lba t = (.error (), { t with
        ide := { t.ide with
          next := t.ide.next + 1
          log := t.ide.log ++ [.read .primaryMaster (lba28 lba)] } }) := by
      rw [readStamped, readSectorAt, run_bind, Pio.issue_run hnone]
      rfl
    rw [hrun]
    exact ⟨rfl, h.report, h.mscTag, Pio.ahead_issued h.ide, h.wire⟩
  · refine ⟨fun ahead => (inFront [some x.toList] ahead.1, ahead.2), fun rest t h => ?_⟩
    have hsome : t.ide.answer t.ide.next = some x.toList := h.ide 0
    have hrun : readStamped guid lba t = (.ok (stamped guid lba x).toList, { t with
        ide := { t.ide with
          next := t.ide.next + 1
          log := t.ide.log ++ [.read .primaryMaster (lba28 lba)] } }) := by
      rw [readStamped, readSectorAt, run_bind, Pio.issue_run hsome, toList_stamped hg]
      dsimp only [Option.elim]
      rw [run_pure, fill_sector (Buf.length_toList x)]
    rw [hrun]
    exact ⟨rfl, h.report, h.mscTag, Pio.ahead_issued h.ide, h.wire⟩

theorem readChunk_tracks {guid : List Byte} (hg : guid.length = 16) (lbas : List Nat) :
    Tracks (Told devices bus₀) (readChunk guid lbas) (Installing.readPrefix guid lbas) := by
  induction lbas with
  | nil => exact Tracks.pure []
  | cons lba lbas ih =>
      rw [readChunk_cons, readPrefix_cons]
      exact (readStamped_tracks hg lba).bind fun bytes => ih.bind fun rest => Tracks.pure _

theorem copyChunk_tracks {guid : List Byte} (hg : guid.length = 16) (slotId : Byte)
    (dataLba lba : Nat) :
    Tracks (Told devices bus₀) (copyChunk devices slotId dataLba guid lba)
      (Installing.copyChunk slotId dataLba guid lba) :=
  (readChunk_tracks hg _).bind fun chunk => writeBlocks_tracks _ _ _ chunk

/-! ## The store -/

/-- What a call of the store makes of the stick and the bus. -/
def performed (devices : XhciState) (base sectors : Nat) (u : UsbMscDevice × Sticks)
    (c : DiskCall) : UsbMscDevice × Sticks :=
  let r := (UsbBootDisk.perform base sectors c).onBus devices u.1 u.2
  (r.1.2, r.2)

theorem storeCalls_led (base sectors : Nat) (calls : List DiskCall) (dev : UsbMscDevice)
    (s : Site) :
    Led (Told devices bus₀) s (Installing.storeCalls base sectors calls dev)
      (.ok (calls.foldl (performed devices base sectors) (dev, s.bus)).1)
      { s with bus := (calls.foldl (performed devices base sectors) (dev, s.bus)).2 } := by
  induction calls generalizing dev s with
  | nil => exact .pure dev
  | cons c calls ih =>
      have hc : Tracks (Told devices bus₀) (onDevice devices dev _) _ :=
        onDevice_tracks (Says.perform base sectors c dev) (by decide)
      exact (hc s).bind (ih _ _)

/-- The device of the store after one of its calls. -/
def called (b : BaseOffsetDevice UsbDrive) (c : DiskCall) : BaseOffsetDevice UsbDrive :=
  let u := performed b.inner.devices b.base b.sectors (b.inner.dev, b.inner.bus) c
  { b with inner := { b.inner with dev := u.1, bus := u.2 } }

theorem called_foldl (calls : List DiskCall) (b : BaseOffsetDevice UsbDrive) :
    ((calls.foldl called b).inner.dev, (calls.foldl called b).inner.bus) =
      calls.foldl (performed b.inner.devices b.base b.sectors) (b.inner.dev, b.inner.bus) := by
  induction calls generalizing b with
  | nil => rfl
  | cons c calls ih => exact ih (called b c)

theorem onBus_thenPure (devices : XhciState) {m : DeviceM Unit} {dev : UsbMscDevice}
    (hm : Says n devices (m.onWire dev)) (hn : n ≤ callTransfers) (a : α) (bus : Sticks) :
    ((DeviceM.onBus (do m; pure a) devices dev bus).1.2,
      (DeviceM.onBus (do m; pure a) devices dev bus).2) =
      ((m.onBus devices dev bus).1.2, (m.onBus devices dev bus).2) := by
  rw [DeviceM.onBus, onWire_thenPure,
    onSticks_map hm hn (fun r => (r.1.map fun _ => a, r.2)) (Prod.ext rfl rfl)]
  rfl

theorem performed_outside {base sectors lba : Nat} (h : sectors ≤ lba) (u : UsbMscDevice × Sticks) :
    (∀ len, performed devices base sectors u (.read lba len) = u) ∧
      ∀ buf, performed devices base sectors u (.write lba buf) = u := by
  constructor
  · intro len
    rw [performed, UsbBootDisk.perform, if_pos h]
    rfl
  · intro buf
    rw [performed, UsbBootDisk.perform, if_pos h]
    rfl

theorem readSector_called (lba : Nat) (b : BaseOffsetDevice UsbDrive) :
    (BlockDevice.readSector lba b).2 = called b (.read lba sector) := by
  show (BaseOffsetDevice.within lba BlockDevice.readSector b).2 = _
  by_cases hlba : b.sectors ≤ lba
  · rw [BaseOffsetDevice.within, if_pos hlba, called, (performed_outside hlba _).1]
  · rw [BaseOffsetDevice.within, if_neg hlba, called, performed, UsbBootDisk.perform,
      if_neg hlba]
    have hread : (BlockDevice.readSector (b.base + lba) : DevM UsbDrive Sector) b.inner =
        (UsbDrive.call (UsbMscDevice.readSector (b.base + lba) sector) >>= fun bytes =>
          pure (asSector bytes)) b.inner := rfl
    rw [BaseOffsetDevice.onInner, hread, run_bind, UsbDrive.call]
    dsimp only
    rcases DeviceM.onBus (UsbMscDevice.readSector (b.base + lba) sector) b.inner.devices
      b.inner.dev b.inner.bus with ⟨⟨_ | _, _⟩, _⟩
    · rfl
    · rfl

theorem writeSector_called (lba : Nat) (x : Sector) (b : BaseOffsetDevice UsbDrive) :
    (BlockDevice.writeSector lba x b).2 = called b (.write lba x.toList) := by
  show (BaseOffsetDevice.within lba (fun lba => BlockDevice.writeSector lba x) b).2 = _
  by_cases hlba : b.sectors ≤ lba
  · rw [BaseOffsetDevice.within, if_pos hlba, called, (performed_outside hlba _).2]
  · have hcall := onBus_thenPure b.inner.devices
      (Says.writeSector (b.base + lba) x.toList b.inner.dev) (by decide) ([] : List Byte)
      b.inner.bus
    rw [BaseOffsetDevice.within, if_neg hlba, called, performed, UsbBootDisk.perform,
      if_neg hlba]
    rw [hcall]
    rfl

theorem flush_called (b : BaseOffsetDevice UsbDrive) :
    (BlockDevice.flush b).2 = called b .flush := by
  have hcall := onBus_thenPure b.inner.devices (Says.flush b.inner.dev) (by decide)
    ([] : List Byte) b.inner.bus
  rw [called, performed, UsbBootDisk.perform, hcall]
  rfl

/-- A store has made calls on the device, and no more. -/
theorem called_stands (b₀ : BaseOffsetDevice UsbDrive) :
    Stands fun b b' : BaseOffsetDevice UsbDrive =>
      b = b' ∧ ∃ calls : List DiskCall, calls.foldl called b₀ = b := by
  have hnext : ∀ b c, (∃ calls : List DiskCall, calls.foldl called b₀ = b) →
      ∃ calls : List DiskCall, calls.foldl called b₀ = called b c := by
    rintro b c ⟨calls, rfl⟩
    exact ⟨calls ++ [c], List.foldl_append.trans rfl⟩
  refine Stands.of_invariant (fun lba b hb => ?_) (fun lba x b hb => ?_) fun b hb => ?_
  · rw [readSector_called]
    exact hnext b _ hb
  · rw [writeSector_called]
    exact hnext b _ hb
  · rw [flush_called]
    exact hnext b _ hb

/-- What a store does on the volume is a list of calls. -/
theorem onVolume_led {dataLba sectors : Nat} (hsectors : sectors < 2 ^ 64) (dev : UsbMscDevice)
    {m : DevM (BaseOffsetDevice UsbDrive) α} (s : Site)
    (hm : ∃ calls : List DiskCall, calls.foldl called (behind devices dev s.bus dataLba sectors) =
      (m (behind devices dev s.bus dataLba sectors)).2) :
    ∃ calls dev', Led (Told devices bus₀) s (Installing.storeCalls dataLba sectors calls dev)
      (.ok dev') (onVolume devices dev dataLba sectors m s).2 := by
  obtain ⟨calls, hcalls⟩ := hm
  have hfold := called_foldl calls (behind devices dev s.bus dataLba sectors)
  rw [hcalls] at hfold
  have hmod : (behind devices dev s.bus dataLba sectors).sectors = sectors :=
    Nat.mod_eq_of_lt hsectors
  rw [hmod] at hfold
  have hled : Led (Told devices bus₀) s _ _ _ := storeCalls_led dataLba sectors calls dev s
  rw [show calls.foldl (performed devices dataLba sectors) (dev, s.bus) = _ from hfold.symm] at hled
  exact ⟨calls, _, hled⟩

theorem format_calls (b : BaseOffsetDevice UsbDrive) :
    ∃ calls : List DiskCall, calls.foldl called b = (Store.formatStore b).2 :=
  (Store.format_stands (called_stands b) ⟨rfl, [], rfl⟩).2.2

theorem open_calls (b : BaseOffsetDevice UsbDrive) :
    ∃ calls : List DiskCall, calls.foldl called b = (Store.openStore b).2 :=
  (Store.open_stands (called_stands b) ⟨rfl, [], rfl⟩).2.2

/-! ## Behind the copy -/

variable {probes : List MscProbe} {slotId : Byte} {dataLba volumeSectors : Nat} {guid : List Byte}

/-- The mount at the end, whose outcome is put on record. -/
theorem mount_led (hsectors : volumeSectors < 2 ^ 64) (dev : UsbMscDevice) {s : Site}
    (hs : s.report.verifyMountOk = false) :
    ∃ mount mounted, Led (Told devices bus₀) s
      (do
        let _ ← Installing.storeCalls dataLba volumeSectors mount dev
        Installing.record fun r => { r with verifyMountOk := mounted } : InstallM Unit)
      (.ok ())
      ((do
        match ← onVolume devices dev dataLba volumeSectors Store.openStore with
        | .error _ => Fallible.throw ()
        | .ok _ => record fun r => { r with verifyMountOk := true } : SiteM Unit) s).2 := by
  have hcalls := open_calls (behind devices dev s.bus dataLba volumeSectors)
  have hvolume : ∃ mount dev', Led (Told devices bus₀) s
      (Installing.storeCalls dataLba volumeSectors mount dev) (.ok dev') _ :=
    onVolume_led hsectors dev s hcalls
  obtain ⟨mount, dev', hmount⟩ := hvolume
  have hmounted : ∀ mounted : Bool, Tracks (Told devices bus₀) (record _) _ := fun mounted =>
    record_tracks fun r => { r with verifyMountOk := mounted }
  rcases hopen : Store.openStore (behind devices dev s.bus dataLba volumeSectors) with ⟨e | pg, b⟩
  · rw [run_bind_ok (onVolume_run hopen)]
    rw [onVolume_run hopen] at hmount
    refine ⟨mount, false, hmount.bind ?_⟩
    have hsame : ({ s.report with verifyMountOk := false } : InstallReport) = s.report := by
      rw [← hs]
    have hlast := hmounted false { s with bus := b.inner.bus }
    simp only [record, hsame] at hlast
    exact hlast
  · rw [run_bind_ok (onVolume_run hopen)]
    rw [onVolume_run hopen] at hmount
    exact ⟨mount, true, hmount.bind (hmounted true _)⟩

theorem verify_led (probes : List MscProbe) (slotId : Byte) (dataLba : Nat) (guid : List Byte)
    (hsectors : volumeSectors < 2 ^ 64) {s : Site} (hs : s.report.verifyMountOk = false) :
    ∃ mount mounted r, ∀ format formatted, Led (Told devices bus₀) s
      (Installing.verify probes slotId dataLba volumeSectors guid
        ⟨format, formatted, mount, mounted⟩)
      r (verify devices probes slotId dataLba volumeSectors guid s).2 := by
  unfold verify Installing.verify
  rcases UsbMscDevice.open probes slotId with e | dev
  · exact ⟨[], false, .error (), fun _ _ => .throw ()⟩
  dsimp only
  have hread : Tracks (Told devices bus₀) (onDevice devices dev _) _ :=
    onDevice_tracks (Says.readSector 0 sector dev) (by decide)
  rcases hbus : (UsbMscDevice.readSector 0 sector).onBus devices dev s.bus with ⟨⟨o, dev'⟩, bus'⟩
  have hled := hread s
  rw [onDevice_run hbus] at hled
  rw [run_bind_ok (onDevice_run hbus)]
  rcases o with e | mbr
  · exact ⟨[], false, .error (), fun _ _ => hled.bind (.throw ())⟩
  dsimp only
  generalize hok : (hasBootMagic mbr && guidOf mbr == guid) = ok
  have hrecord : Tracks (Told devices bus₀) (record _) _ :=
    record_tracks fun r => { r with verifyMbrOk := ok }
  rw [run_bind_ok (rfl : record (fun r => { r with verifyMbrOk := ok }) { s with bus := bus' } =
    (.ok (), { s with bus := bus', report := { s.report with verifyMbrOk := ok } }))]
  cases ok with
  | false =>
      refine ⟨[], false, .error (), fun _ _ => hled.bind ?_⟩
      dsimp only
      rw [hok]
      exact (hrecord _).bind (.throw ())
  | true =>
      rw [if_neg (by decide)]
      obtain ⟨mount, mounted, hmount⟩ := @mount_led devices bus₀ dataLba volumeSectors hsectors dev'
        { s with bus := bus', report := { s.report with verifyMbrOk := true } } hs
      refine ⟨mount, mounted, .ok (), fun _ _ => hled.bind ?_⟩
      dsimp only
      rw [hok]
      exact (hrecord _).bind hmount

theorem follows_onBus {m : DeviceM α} {dev dev' : UsbMscDevice} {o : Except StoreError α}
    {bus bus' : Sticks} (hm : ∀ w, Follows dev (m (dev, w)).2.1)
    (h : m.onBus devices dev bus = ((o, dev'), bus')) : dev'.sectors = dev.sectors := by
  have hfollows : Follows dev (m.onBus devices dev bus).1.2 := hm _
  rw [h] at hfollows
  exact hfollows.sectors

theorem formatVolume_led {dev : UsbMscDevice} (hsectors : dev.sectors < 2 ^ 64) {s : Site}
    (hs : s.report.verifyMountOk = false) :
    ∃ runs r, Led (Told devices bus₀) s
      (Installing.formatVolume probes slotId dataLba guid runs dev) r
      (formatVolume devices probes slotId dataLba guid dev s).2 := by
  have hflush : Tracks (Told devices bus₀) (onDevice devices dev _) _ :=
    onDevice_tracks (Says.flush dev) (by decide)
  rcases hbus : UsbMscDevice.flush.onBus devices dev s.bus with ⟨⟨o, dev'⟩, bus'⟩
  have hdev : dev'.sectors = dev.sectors :=
    follows_onBus (fun w => (flush_safe 0 [] dev w).1) hbus
  have hled := hflush s
  rw [onDevice_run hbus] at hled
  have hrecord : Tracks (Told devices bus₀) (record _) _ :=
    record_tracks fun r => { r with volumeSectors := dev'.sectors - dataLba }
  have hrun : record (fun r => { r with volumeSectors := dev'.sectors - dataLba })
      { s with bus := bus' } = (.ok (), { s with
        bus := bus', report := { s.report with volumeSectors := dev'.sectors - dataLba } }) := rfl
  have hcalls := hrecord { s with bus := bus' }
  rw [hrun] at hcalls
  unfold formatVolume
  rw [run_bind_ok (onDevice_run hbus)]
  dsimp only
  rw [run_bind_ok hrun]
  have hs₁ : ({ s with
    bus := bus', report := { s.report with volumeSectors := dev'.sectors - dataLba } } :
      Site).report.verifyMountOk = false := hs
  generalize ({ s with
    bus := bus', report := { s.report with volumeSectors := dev'.sectors - dataLba } } : Site) = s₁
    at hcalls hs₁ ⊢
  have hsmall : dev'.sectors - dataLba < 2 ^ 64 := by omega
  have hvolume : ∃ format dev'', Led (Told devices bus₀) s₁
      (Installing.storeCalls dataLba (dev'.sectors - dataLba) format dev') (.ok dev'') _ :=
    onVolume_led hsmall dev' s₁ (format_calls _)
  obtain ⟨format, dev'', hformat⟩ := hvolume
  rcases hrun : Store.formatStore (behind devices dev' s₁.bus dataLba (dev'.sectors - dataLba)) with
    ⟨e | pg, b⟩
  · rw [run_bind_ok (onVolume_run hrun)]
    rw [onVolume_run hrun] at hformat
    exact ⟨⟨format, false, [], false⟩, .error (),
      hled.bind (hcalls.bind (hformat.bind (.throw ())))⟩
  · rw [run_bind_ok (onVolume_run hrun)]
    rw [onVolume_run hrun] at hformat
    have hverify : ∃ mount mounted r, ∀ format formatted, Led (Told devices bus₀)
        { s₁ with bus := b.inner.bus } _ r _ :=
      verify_led probes slotId dataLba guid hsmall hs₁
    obtain ⟨mount, mounted, r, hverify⟩ := hverify
    exact ⟨⟨format, true, mount, mounted⟩, r,
      hled.bind (hcalls.bind (hformat.bind (hverify format true)))⟩

/-- What `refuse_if_same_disk` makes of a read of the first sector. -/
def refusal (booted : List Byte) (r : Except StoreError (List Byte) × UsbMscDevice) :
    Except StoreError Bool × UsbMscDevice :=
  (.ok (refuseIfSameDisk booted r.1), r.2)

theorem refuse_eq (booted : List Byte) (dev : UsbMscDevice) :
    (Installing.refuseIfSameDisk booted).onWire dev = fun w =>
      (refusal booted ((UsbMscDevice.readSector 0 sector).onWire dev w).1,
        ((UsbMscDevice.readSector 0 sector).onWire dev w).2) := by
  funext w
  unfold DeviceM.onWire Installing.refuseIfSameDisk
  rcases UsbMscDevice.readSector 0 sector (dev, w) with ⟨_ | mbr, _, _⟩
  · rfl
  · rfl

theorem refuse_led (booted : List Byte) {dev dev' : UsbMscDevice}
    {o : Except StoreError (List Byte)} {bus' : Sticks} {s : Site}
    (h : (UsbMscDevice.readSector 0 sector).onBus devices dev s.bus = ((o, dev'), bus')) :
    Led (Told devices bus₀) s (Installing.onDevice dev (Installing.refuseIfSameDisk booted))
      (.ok (.ok (refuseIfSameDisk booted o), dev')) { s with bus := bus' } := by
  have hsays : Says 4 devices ((Installing.refuseIfSameDisk booted).onWire dev) := by
    rw [refuse_eq]
    exact (Says.readSector 0 sector dev).map (refusal booted)
  have hrefuse : (Installing.refuseIfSameDisk booted).onBus devices dev s.bus =
      (refusal booted (o, dev'), bus') := by
    rw [DeviceM.onBus, refuse_eq]
    exact onSticks_map (Says.readSector 0 sector dev) (by decide) (refusal booted) h
  have htracks : Tracks (Told devices bus₀) (onDevice devices dev _) _ :=
    onDevice_tracks hsays (by decide)
  have hled := htracks s
  rw [onDevice_run hrefuse] at hled
  exact hled

theorem copy_tracks (hg : guid.length = 16) (slotId : Byte) (dataLba : Nat) :
    Tracks (Told devices bus₀)
      ((Installing.chunkStarts dataLba).forM (copyChunk devices slotId dataLba guid))
      ((Installing.chunkStarts dataLba).forM (Installing.copyChunk slotId dataLba guid)) :=
  Tracks.forM (copyChunk_tracks hg slotId dataLba) _

/-- No mount is on record before the last step. -/
def Unmounted (s : Site) : Prop := s.report.verifyMountOk = false

theorem readChunk_unmounted (lbas : List Nat) :
    Triple Unmounted (readChunk guid lbas) (fun _ => Unmounted) Unmounted := by
  induction lbas with
  | nil => exact .pure fun _ h => h
  | cons lba lbas ih =>
      refine .bind (R := fun _ => Unmounted) (fun s h => ?_) fun x => ih.bind fun rest =>
        .pure fun _ h => h
      unfold readSlot
      rcases Pio.readSlot lba s.ata with ⟨_ | _, _⟩
      · exact h
      · exact h

theorem copyChunk_unmounted (lba : Nat) :
    Triple Unmounted (copyChunk devices slotId dataLba guid lba) (fun _ => Unmounted)
      Unmounted := by
  refine (readChunk_unmounted _).bind fun data s h => ?_
  unfold writeBlocks
  rcases MscM.onBus devices (mscWriteBlocks slotId lba (min Installing.chunkSectors (dataLba - lba))
    data s.mscTag) s.bus with ⟨_ | _, _⟩
  · exact h
  · exact h

theorem copy_unmounted :
    Triple Unmounted ((Installing.chunkStarts dataLba).forM (copyChunk devices slotId dataLba guid))
      (fun _ => Unmounted) Unmounted :=
  Triple.forM (I := fun _ => Unmounted) (fun lba _ => copyChunk_unmounted lba) _

/-- The installer, on the target that it opens. -/
theorem install_led (booted : List Byte) (hg : guid.length = 16) {s : Site}
    (hs : s.report.verifyMountOk = false) :
    ∃ runs r, Led (Told devices bus₀) s
      (Installing.install probes slotId dataLba booted guid runs) r
      (install devices probes slotId dataLba booted guid s).2 := by
  unfold install Installing.install
  rcases hopen : UsbMscDevice.open probes slotId with e | dev
  · exact ⟨⟨[], false, [], false⟩, .error (), .throw ()⟩
  dsimp only
  by_cases hsmall : dev.sectors < dataLba + Installing.minVolumeSectors
  · simp only [if_pos hsmall]
    exact ⟨⟨[], false, [], false⟩, .error (), .throw ()⟩
  simp only [if_neg hsmall]
  rcases hbus : (UsbMscDevice.readSector 0 sector).onBus devices dev s.bus with ⟨⟨o, dev'⟩, bus'⟩
  have hrefuse : Led (Told devices bus₀) s _ _ _ := refuse_led booted hbus
  rw [run_bind_ok (onDevice_run hbus)]
  dsimp only
  cases hsame : refuseIfSameDisk booted o with
  | true =>
      rw [hsame] at hrefuse
      exact ⟨⟨[], false, [], false⟩, .error (), hrefuse.bind (.throw ())⟩
  | false =>
      rw [hsame] at hrefuse
      rw [if_neg (by decide)]
      have hcopied : Tracks (Told devices bus₀) _ _ := copy_tracks hg slotId dataLba
      have hcopy := hcopied { s with bus := bus' }
      have hkept := @copy_unmounted devices slotId dataLba guid { s with bus := bus' } hs
      rcases hrun : (Installing.chunkStarts dataLba).forM (copyChunk devices slotId dataLba guid)
        { s with bus := bus' } with ⟨_ | _, s₁⟩ <;> rw [hrun] at hcopy hkept
      · rw [run_bind_error hrun]
        exact ⟨⟨[], false, [], false⟩, .error (), hrefuse.bind hcopy.bind_error⟩
      · have hsectors : dev'.sectors < 2 ^ 64 := by
          obtain ⟨probe, -, cap, -, -, rfl⟩ := open_ok hopen
          have hlast := cap.lastLba.isLt
          have hsafe : ∀ d w, Safe 0 [] d w (UsbMscDevice.readSector 0 sector (d, w)) :=
            fun d w => readSector_safe 0 sector d w
          rw [follows_onBus (fun w => (hsafe _ w).1) hbus]
          show cap.lastLba.val + 1 < 2 ^ 64
          omega
        obtain ⟨runs, r, hformat⟩ := @formatVolume_led devices bus₀ probes slotId dataLba guid dev'
          hsectors s₁ hkept
        rw [run_bind_ok hrun]
        exact ⟨runs, r, hrefuse.bind (hcopy.bind hformat)⟩

/-- What the installer leaves is what it leaves against some answers of the buses, with some
calls of the store: the report, the tag, and the bus that its transfers make. -/
theorem installToUsb_told (devices : XhciState) (probes : List MscProbe) (slotId : Byte)
    (dataLba : Nat) (booted : List Byte) (tsc : UInt64) (ata : Pio.Drive) (bus : Sticks)
    (mscTag : Nat) :
    ∃ runs answer fate,
      let site := installToUsb devices probes slotId dataLba booted tsc ata bus mscTag
      let told := TablesOS.installToUsb probes slotId dataLba booted tsc runs (.idle answer)
        ⟨fate, 0, [], devices⟩ mscTag
      told.report = site.report ∧ told.mscTag = site.mscTag ∧
        Sticks.partner.after bus (told.wire.log.map Xfer.said) = site.bus := by
  let start : Site := ⟨⟨slotId, 0, 0, makeRandomSysGuid tsc, false, false⟩, ata, bus, mscTag⟩
  obtain ⟨runs, r, front, hled⟩ := @install_led devices bus probes slotId dataLba _ booted
    (Installing.length_makeRandomSysGuid tsc) start rfl
  let rest : Answers := (fun _ => none, fun _ => .timeout)
  obtain ⟨-, hlast⟩ := hled rest
    ⟨start.report, .idle (front rest).1, ⟨(front rest).2, 0, [], devices⟩, mscTag⟩
    ⟨rfl, rfl, fun i => congrArg (front rest).1 (Nat.zero_add i),
      rfl, fun i => congrArg (front rest).2 (Nat.zero_add i), rfl⟩
  exact ⟨runs, (front rest).1, (front rest).2, hlast.report, hlast.mscTag, hlast.wire.log⟩

end Installer

end TablesOS
