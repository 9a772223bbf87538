import TablesOS.Engine.Handle
import TablesOS.Kernel.AtaPorts
import TablesOS.Kernel.UsbStartup

/-!
# The installer between its two drives (`install.rs`)

`install_to_usb` with a drive on the primary channel that it reads at the ports, a
bus of sticks that it writes to, and the store that it formats behind what it has
copied. Each step leaves the report as it stands when the installer stops there.
-/

namespace TablesOS

namespace Pio

/-- `SLOT_POLL_LIMIT` -/
abbrev slotPollLimit : Nat := 500000

/-- The loop of `read_sector_at`. -/
def slotLoop : Nat → PortM Unit
  | 0 => Fallible.throw .io
  | n + 1 => do
      let s ← readStatus
      if s = 0xFF then Fallible.throw .io
      else if s &&& stErr ≠ 0 then Fallible.throw .io
      else if s &&& stBsy = 0 ∧ s &&& stDrq ≠ 0 then pure ()
      else slotLoop n

/-- `read_sector_at` on the primary master. -/
def readSlot (lba : Nat) : PortM Sector := do
  select lba 1
  command 0x20 -- READ SECTORS (LBA28)
  slotLoop (slotPollLimit + 1)
  let ws ← readWords 256
  pure (ofWords ws)

end Pio

namespace Installer

open Usb Store
open Installing (chunkStarts chunkSectors minVolumeSectors)

/-- An install under way. -/
structure Site where
  report : InstallReport
  ata : Pio.Drive
  bus : Sticks
  /-- `MSC_TAG` -/
  mscTag : Nat

/-- A step of the installer, which may be its last. -/
abbrev SiteM (α : Type) := Fallible Unit Site α

def record (f : InstallReport → InstallReport) : SiteM Unit := fun s =>
  (.ok (), { s with report := f s.report })

/-- A call on a stick that the installer has opened. -/
def onDevice {α : Type} (devices : XhciState) (dev : UsbMscDevice) (m : DeviceM α) :
    SiteM (Except StoreError α × UsbMscDevice) := fun s =>
  let r := m.onBus devices dev s.bus
  (.ok r.1, { s with bus := r.2 })

/-- `read_sector_at`, as the copy loop calls it. -/
def readSlot (lba : Nat) : SiteM Sector := fun s =>
  match Pio.readSlot lba s.ata with
  | (.ok x, ata) => (.ok x, { s with ata })
  | (.error _, ata) => (.error (), { s with ata })

/-- The new system id in the first sector. -/
def stamped (newSysGuid : List Byte) (lba : Nat) (x : Sector) : Sector :=
  if lba = 0 then x.put 0x1DC newSysGuid else x

/-- The sectors of a chunk, as they are written. -/
def readChunk (newSysGuid : List Byte) : List Nat → SiteM (List Byte)
  | [] => pure []
  | lba :: lbas => do
      let x ← readSlot lba
      let rest ← readChunk newSysGuid lbas
      pure ((stamped newSysGuid lba x).toList ++ rest)

/-- `msc_write_blocks`, with the next tag of its counter. -/
def writeBlocks (devices : XhciState) (slotId : Byte) (lba blocks : Nat) (data : List Byte) :
    SiteM Unit := fun s =>
  match MscM.onBus devices (mscWriteBlocks slotId lba blocks data s.mscTag) s.bus with
  | (.error _, bus) => (.error (), { s with bus, mscTag := nextTag s.mscTag })
  | (.ok (), bus) =>
      (.ok (), { s with
        bus, mscTag := nextTag s.mscTag,
        report := { s.report with sectorsCopied := lba + blocks } })

/-- A round of the copy loop. -/
def copyChunk (devices : XhciState) (slotId : Byte) (dataLba : Nat) (newSysGuid : List Byte)
    (lba : Nat) : SiteM Unit := do
  let n := min chunkSectors (dataLba - lba)
  let chunk ← readChunk newSysGuid ((List.range n).map (lba + ·))
  writeBlocks devices slotId lba n chunk

/-- `refuse_if_same_disk` -/
def refuseIfSameDisk (booted : List Byte) :
    Except StoreError (List Byte) → Bool
  | .error _ => false -- Can't read; trust the caller's filtering.
  | .ok mbr => hasBootMagic mbr && guidOf mbr == booted

/-- `BaseOffsetDevice::new`, on a stick; the size is a `u64`. -/
def behind (devices : XhciState) (dev : UsbMscDevice) (bus : Sticks) (dataLba sectors : Nat) :
    BaseOffsetDevice UsbDrive :=
  ⟨⟨dev, devices, bus⟩, dataLba, sectors % 2 ^ 64, Nat.mod_lt _ (Nat.two_pow_pos 64)⟩

/-- What the store does on the stick. -/
def onVolume {α : Type} (devices : XhciState) (dev : UsbMscDevice) (dataLba sectors : Nat)
    (m : DevM (BaseOffsetDevice UsbDrive) α) : SiteM (Except StoreError α) := fun s =>
  let r := m (behind devices dev s.bus dataLba sectors)
  (.ok r.1, { s with bus := r.2.inner.bus })

/-- What is checked of the new system. -/
def verify (devices : XhciState) (probes : List MscProbe) (slotId : Byte)
    (dataLba volumeSectors : Nat) (newSysGuid : List Byte) : SiteM Unit :=
  match UsbMscDevice.open probes slotId with
  | .error _ => Fallible.throw ()
  | .ok dev => do
      match ← onDevice devices dev (UsbMscDevice.readSector 0 sector) with
      | (.error _, _) => Fallible.throw ()
      | (.ok mbr, dev) =>
          let ok := hasBootMagic mbr && guidOf mbr == newSysGuid
          record fun r => { r with verifyMbrOk := ok }
          if !ok then Fallible.throw () else do
          match ← onVolume devices dev dataLba volumeSectors openStore with
          | .error _ => Fallible.throw ()
          | .ok _ => record fun r => { r with verifyMountOk := true }

/-- The installer behind the copy. -/
def formatVolume (devices : XhciState) (probes : List MscProbe) (slotId : Byte) (dataLba : Nat)
    (newSysGuid : List Byte) (dev : UsbMscDevice) : SiteM Unit := do
  let (_, dev) ← onDevice devices dev UsbMscDevice.flush
  let volumeSectors := dev.sectors - dataLba
  record fun r => { r with volumeSectors }
  match ← onVolume devices dev dataLba volumeSectors formatStore with
  | .error _ => Fallible.throw ()
  | .ok _ => verify devices probes slotId dataLba volumeSectors newSysGuid

/-- The installer, on the target that it opens. -/
def install (devices : XhciState) (probes : List MscProbe) (slotId : Byte) (dataLba : Nat)
    (booted newSysGuid : List Byte) : SiteM Unit :=
  match UsbMscDevice.open probes slotId with
  | .error _ => Fallible.throw ()
  | .ok dev =>
      if dev.sectors < dataLba + minVolumeSectors then Fallible.throw () else do
      let (mbr, dev) ← onDevice devices dev (UsbMscDevice.readSector 0 sector)
      if refuseIfSameDisk booted mbr then Fallible.throw () else do
      (chunkStarts dataLba).forM (copyChunk devices slotId dataLba newSysGuid)
      formatVolume devices probes slotId dataLba newSysGuid dev

/-- `install_to_usb` -/
def installToUsb (devices : XhciState) (probes : List MscProbe) (slotId : Byte) (dataLba : Nat)
    (booted : List Byte) (tsc : UInt64) (ata : Pio.Drive) (bus : Sticks) (mscTag : Nat) : Site :=
  let newSysGuid := makeRandomSysGuid tsc
  (install devices probes slotId dataLba booted newSysGuid
    ⟨⟨slotId, 0, 0, newSysGuid, false, false⟩, ata, bus, mscTag⟩).2

end Installer

end TablesOS
