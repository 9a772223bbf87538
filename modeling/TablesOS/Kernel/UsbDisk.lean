import TablesOS.Engine.Block
import TablesOS.Kernel.Msc

/-!
# The disk the system was booted from, over USB (`usb/xhci.rs`, `main.rs`)

Three layers. `UsbMscDevice` checks the range of the medium, the identity of
the medium before each write and a latch that a failed check sets. `BootDisk`
puts the volume behind the boot region. `discover_boot_disk` decides which
device is wrapped.
-/

namespace TablesOS

namespace Usb

/-! ## The device -/

/-- `struct UsbMscDevice` -/
structure UsbMscDevice where
  slotId : Byte
  sectors : Nat
  blockSize : Nat
  nextTag : Nat
  /-- The system GUID that arms the identity gate. -/
  identityGate : Option (List Byte)
  /-- Latched on any identity-gate failure. -/
  poisoned : Bool
  deriving DecidableEq, Repr

/-- A call on the device: what it has besides is the bus. -/
abbrev DeviceM (α : Type) := Fallible StoreError (UsbMscDevice × Wire) α

/-- The system GUID of a boot sector. -/
def guidOf (mbr : List Byte) : List Byte := (mbr.drop 0x1DC).take 16

namespace UsbMscDevice

/-- `next_tag` -/
def bumpTag (d : UsbMscDevice) : UsbMscDevice := { d with nextTag := (d.nextTag + 1) % 2 ^ 32 }

def poison (d : UsbMscDevice) : UsbMscDevice := { d with poisoned := true }

/-- A command whose failure is reported as `StoreError::Io`. -/
def onBus {α : Type} (m : UsbMscDevice → MscM α) : DeviceM α := fun (d, w) =>
  match m d.bumpTag w with
  | (.ok a, w) => (.ok a, (d.bumpTag, w))
  | (.error _, w) => (.error .io, (d.bumpTag, w))

/-- `verify_identity` -/
def verifyIdentity : DeviceM Unit := fun (d, w) =>
  match d.identityGate with
  | none => (.ok (), (d, w))
  | some expected =>
      if d.poisoned then (.error .io, (d, w)) else
      let d := d.bumpTag
      match mscReadSector d.slotId 0 sector d.nextTag w with
      | (.error _, w) => (.error .io, (d.poison, w))
      | (.ok mbr, w) =>
          if guidOf mbr = expected then (.ok (), (d, w))
          else (.error (.corrupt "USB system GUID changed at runtime"), (d.poison, w))

/-- `read_sector`, into a buffer of `len` bytes. -/
def readSector (lba len : Nat) : DeviceM (List Byte) := fun (d, w) =>
  if d.poisoned ∨ len ≠ sector ∨ d.sectors ≤ lba then (.error .io, (d, w))
  -- READ(10) carries a 32-bit LBA.
  else if 2 ^ 32 ≤ lba then (.error .io, (d, w))
  else onBus (fun d => mscReadSector d.slotId lba len d.nextTag) (d, w)

/-- `write_sector` -/
def writeSector (lba : Nat) (buf : List Byte) : DeviceM Unit := fun (d, w) =>
  if d.poisoned ∨ buf.length ≠ sector ∨ d.sectors ≤ lba then (.error .io, (d, w))
  else if 2 ^ 32 ≤ lba then (.error .io, (d, w))
  else
    match verifyIdentity (d, w) with
    | (.error e, s) => (.error e, s)
    | (.ok (), s) => onBus (fun d => mscWriteSector d.slotId lba buf d.nextTag) s

/-- `flush`: a device that does not sync is taken at its word. -/
def flush : DeviceM Unit := fun (d, w) =>
  if d.poisoned then (.error .io, (d, w)) else
  match mscSyncCache d.slotId d.bumpTag.nextTag w with
  | (_, w) => (.ok (), (d.bumpTag, w))

end UsbMscDevice

/-! ## The volume behind the boot region -/

/-- `BootDisk::Usb` -/
structure UsbBootDisk where
  dev : UsbMscDevice
  base : Nat
  sectors : Nat
  deriving DecidableEq, Repr

/-- What the system asks of the disk. -/
inductive DiskCall where
  /-- `read_boot_sector` -/
  | readBoot (len : Nat)
  | read (lba len : Nat)
  | write (lba : Nat) (buf : List Byte)
  | flush

namespace UsbBootDisk

/-- The calls of `BootDisk` on a disk of the given base and size; a read
answers its bytes. -/
def perform (base sectors : Nat) : DiskCall → DeviceM (List Byte)
  | .readBoot len => UsbMscDevice.readSector 0 len
  | .read lba len =>
      if sectors ≤ lba then Fallible.throw .io else UsbMscDevice.readSector (base + lba) len
  | .write lba buf =>
      if sectors ≤ lba then Fallible.throw .io
      else do UsbMscDevice.writeSector (base + lba) buf; pure []
  | .flush => do UsbMscDevice.flush; pure []

/-- One call on the disk: the answer, the disk after it, and what it put on a
bus that it finds in any state. -/
def call (disk : UsbBootDisk) (c : DiskCall) (w : Wire) :
    Except StoreError (List Byte) × UsbBootDisk × List Xfer :=
  match perform disk.base disk.sectors c (disk.dev, w) with
  | (r, (dev, w')) => (r, { disk with dev := dev }, w'.log.drop w.log.length)

/-- A sequence of calls, each on a bus that may have changed in any way since
the last one: other devices, other media, other behaviour. -/
def run : UsbBootDisk → List (DiskCall × Wire) → List (Except StoreError (List Byte) × List Xfer)
  | _, [] => []
  | disk, (c, w) :: rest =>
      match disk.call c w with
      | (r, disk', xs) => (r, xs) :: run disk' rest

/-- The disk after a sequence of calls. -/
def after : UsbBootDisk → List (DiskCall × Wire) → UsbBootDisk
  | disk, [] => disk
  | disk, (c, w) :: rest => after (disk.call c w).2.1 rest

end UsbBootDisk

/-! ## Discovery -/

instance neZeroWord : NeZero (2 ^ 32) := ⟨Nat.ne_of_gt (Nat.two_pow_pos 32)⟩

/-- `struct CapacityData` -/
structure CapacityData where
  lastLba : Fin (2 ^ 32)
  blockSize : Nat
  deriving DecidableEq, Repr

def CapacityData.totalBlocks (c : CapacityData) : Nat := c.lastLba.val + 1

/-- `struct MscProbe`, as far as discovery reads it. -/
structure MscProbe where
  slotId : Byte
  inquired : Bool
  capacity : Option CapacityData
  firstBlock : List Byte
  deriving DecidableEq, Repr

/-- The boot sector of the booted system, as `usb_drives_with_slots` decides
it with `parse_mbr`. -/
def isBooted (guid firstBlock : List Byte) : Bool :=
  512 ≤ firstBlock.length &&
    (firstBlock.drop 0x1B0).take 8 == [0x54, 0x42, 0x4C, 0x53, 0x42, 0x4F, 0x4F, 0x54] &&
    firstBlock.getD 510 0 == 0x55 && firstBlock.getD 511 0 == 0xAA && guidOf firstBlock == guid

/-- `usb_drives_with_slots`: slot and booted flag of each drive. -/
def usbDrivesWithSlots (probes : List MscProbe) (guid : List Byte) : List (Byte × Bool) :=
  probes.filterMap fun p =>
    if p.inquired && p.capacity.isSome then some (p.slotId, isBooted guid p.firstBlock) else none

/-- `UsbMscDevice::open` -/
def UsbMscDevice.open (probes : List MscProbe) (slotId : Byte) : Except StoreError UsbMscDevice :=
  match probes.find? (·.slotId == slotId) with
  | none => .error .io
  | some probe =>
      match probe.capacity with
      | none => .error .io
      | some cap =>
          if cap.blockSize ≠ sector then .error (.corrupt "USB device block size != 512")
          else .ok ⟨slotId, cap.totalBlocks, cap.blockSize, 0xCAFE0000, none, false⟩

/-- `open_with_identity_gate` -/
def UsbMscDevice.openWithIdentityGate (probes : List MscProbe) (slotId : Byte)
    (expected : List Byte) : Except StoreError UsbMscDevice :=
  match UsbMscDevice.open probes slotId with
  | .error e => .error e
  | .ok dev => .ok { dev with identityGate := some expected }

/-- The USB half of `discover_boot_disk`. -/
def discoverBootDisk (probes : List MscProbe) (dataLba : Nat) (guid : List Byte) :
    Option UsbBootDisk :=
  (usbDrivesWithSlots probes guid).findSome? fun (slot, booted) =>
    if !booted then none else
    match UsbMscDevice.openWithIdentityGate probes slot guid with
    | .error _ => none
    | .ok dev =>
        if dev.sectors ≤ dataLba then none
        else some ⟨dev, dataLba, dev.sectors - dataLba⟩

end Usb

end TablesOS
