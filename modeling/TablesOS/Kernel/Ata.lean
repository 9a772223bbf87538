import TablesOS.Kernel.UsbDisk

/-!
# IDE disks and the disk the system runs from (`ata.rs`, `main.rs`)

The driver owns the primary master. Its address registers hold 28 bits, and
the range check in front of them compares with the size the drive reports
about itself. The other three drives are only looked at: `enumerate_drives`
issues no write. `BootDisk` is this driver or the USB one, and
`discover_boot_disk` takes the first medium whose boot sector carries the
system GUID.
-/

namespace TablesOS

open Usb

/-- The four legacy IDE slots. -/
inductive IdeSlot where
  | primaryMaster
  | primarySlave
  | secondaryMaster
  | secondarySlave
  deriving DecidableEq, Repr

/-- A command written to a command register, with what the address registers
hold then. -/
inductive AtaCommand where
  /-- `0xEC` -/
  | identify (drive : IdeSlot)
  /-- `0x20` -/
  | read (drive : IdeSlot) (lba : Nat)
  /-- `0x30` -/
  | write (drive : IdeSlot) (lba : Nat) (bytes : List Byte)
  /-- `0xE7` -/
  | flush
  deriving DecidableEq, Repr

/-- What the drives make of each command, and the commands so far. -/
structure IdeBus where
  /-- The bytes the drive hands over; none where it reports an error or never
  gets ready. -/
  answer : Nat → Option (List Byte)
  next : Nat
  log : List AtaCommand

/-- A bus at the beginning of a call. -/
def IdeBus.idle (answer : Nat → Option (List Byte)) : IdeBus := ⟨answer, 0, []⟩

abbrev AtaM (α : Type) := Fallible StoreError IdeBus α

/-- A command, and the poll for its end. -/
def AtaCommand.issue (c : AtaCommand) : AtaM (List Byte) := fun b =>
  let after := { b with next := b.next + 1, log := b.log ++ [c] }
  match b.answer b.next with
  | none => (.error .io, after)
  | some bytes => (.ok bytes, after)

/-- The bits of an address that the registers take. -/
def lba28 (lba : Nat) : Nat := lba % 2 ^ 28

/-- `read_sector_at` -/
def readSectorAt (drive : IdeSlot) (lba : Nat) : AtaM (List Byte) := do
  let bytes ← (AtaCommand.read drive (lba28 lba)).issue
  pure (fill (List.replicate sector 0) bytes)

/-! ## The driver -/

/-- `struct Ata`, less its ports. -/
structure Ata where
  /-- First device LBA of the volume. -/
  base : Nat
  /-- Volume size in sectors. -/
  sectors : Nat
  deriving DecidableEq, Repr

namespace Ata

/-- `probe`: the size is in words 60 and 61 of the identification. -/
def probe (base : Nat) : AtaM Ata := do
  let id ← (AtaCommand.identify .primaryMaster).issue
  pure ⟨base, ofLe ((id.drop 120).take 4) - base⟩

/-- `read_boot_sector` -/
def readBootSector (len : Nat) : AtaM (List Byte) :=
  if len ≠ sector then Fallible.throw .io else readSectorAt .primaryMaster 0

def readSector (a : Ata) (lba len : Nat) : AtaM (List Byte) :=
  if len ≠ sector ∨ a.sectors ≤ lba then Fallible.throw .io
  else readSectorAt .primaryMaster (a.base + lba)

def flush : AtaM Unit := do
  let _ ← AtaCommand.flush.issue
  pure ()

def writeSector (a : Ata) (lba : Nat) (buf : List Byte) : AtaM Unit :=
  if buf.length ≠ sector ∨ a.sectors ≤ lba then Fallible.throw .io
  else do
    let _ ← (AtaCommand.write .primaryMaster (lba28 (a.base + lba)) buf).issue
    flush

/-- A call on the disk; a read answers its bytes. -/
def perform (a : Ata) : DiskCall → AtaM (List Byte)
  | .readBoot len => readBootSector len
  | .read lba len => a.readSector lba len
  | .write lba buf => do a.writeSector lba buf; pure []
  | .flush => do flush; pure []

end Ata

/-- `probe_one`: the disk is identified and its first sector read. -/
def probeOne (drive : IdeSlot) : AtaM Unit := do
  let _ ← (AtaCommand.identify drive).issue
  let _ ← readSectorAt drive 0
  pure ()

/-- `enumerate_drives`, as far as the bus sees it: what it finds is shown. -/
def enumerateDrives (b : IdeBus) : IdeBus :=
  [.primaryMaster, .primarySlave, .secondaryMaster, .secondarySlave].foldl
    (fun b drive => (probeOne drive b).2) b

/-! ## The boot disk -/

/-- What the kernel sends to disks of either kind. -/
inductive Traffic where
  | ide (c : AtaCommand)
  | usb (x : Xfer)
  deriving DecidableEq, Repr

/-- Both buses as a call finds them. -/
structure Buses where
  ide : Nat → Option (List Byte)
  wire : Wire

/-- `enum BootDisk` -/
inductive BootDisk where
  | ata (a : Ata)
  | usb (d : UsbBootDisk)
  deriving DecidableEq, Repr

/-- One call on the disk: the answer, the disk after it, and what was sent. -/
def BootDisk.call (c : DiskCall) (b : Buses) :
    BootDisk → Except StoreError (List Byte) × BootDisk × List Traffic
  | .ata a =>
      match a.perform c (.idle b.ide) with
      | (r, bus) => (r, .ata a, bus.log.map .ide)
  | .usb d =>
      match d.call c b.wire with
      | (r, d, xs) => (r, .usb d, xs.map .usb)

/-- The ATA half of `discover_boot_disk`. -/
def discoverAta (dataLba : Nat) (guid : List Byte) : AtaM Ata := do
  let a ← Ata.probe dataLba
  let mbr ← Ata.readBootSector sector
  if guidOf mbr = guid then pure a else Fallible.throw .io

/-- `discover_boot_disk`; `probes` is what the pipeline over the USB
controllers has recorded. -/
def discover (ide : Nat → Option (List Byte)) (probes : List MscProbe) (dataLba : Nat)
    (guid : List Byte) : Option BootDisk :=
  match discoverAta dataLba guid (.idle ide) with
  | (.ok a, _) => some (.ata a)
  | (.error _, _) => (discoverBootDisk probes dataLba guid).map .usb

/-- The identity gate of `kmain` behind it. -/
def bootDisk (ide : Nat → Option (List Byte)) (probes : List MscProbe) (dataLba : Nat)
    (guid : List Byte) (b : Buses) : Option BootDisk :=
  (discover ide probes dataLba guid).bind fun disk =>
    match disk.call (.readBoot sector) b with
    | (.ok mbr, disk, _) => if guidOf mbr = guid then some disk else none
    | (.error _, _, _) => none

end TablesOS
