import TablesOS.Engine.Journal
import TablesOS.Kernel.Ata

/-!
# Mass-storage probe, write test and installer (`usb/xhci.rs`, `install.rs`)

The three parts of the kernel that talk to USB drives other than the booted
one. The probe asks each drive what it is. The write test overwrites a sector
and puts it back. The installer copies the boot region of the primary master
and formats a volume behind it; the store it formats and mounts is any
sequence of calls here, on a device that offsets them as `BootDisk` does.
-/

namespace TablesOS

open Usb

/-! ## The probe -/

/-- A command of which only what it answers is looked at. -/
def attempt {α : Type} (m : MscM α) : MscM (Option α) := fun w =>
  match m w with
  | (.ok a, w) => (.ok (some a), w)
  | (.error _, w) => (.ok none, w)

/-- A command that reads `length` bytes from logical unit 0. -/
def scsiIn (pipe : Pipe) (cb : List Byte) (length tag : Nat) : MscM (Byte × List Byte) := do
  let (outcome, buf) ← mscCommand pipe 0 cb (.read length) tag
  pure (outcome.scsiStatus, if outcome.scsiStatus = 0 then buf else [])

/-- `scsi_inquiry` -/
def scsiInquiry (pipe : Pipe) (tag : Nat) : MscM (Byte × List Byte) :=
  scsiIn pipe [0x12, 0, 0, 0, 36, 0] 36 tag

/-- `scsi_test_unit_ready` -/
def scsiTestUnitReady (pipe : Pipe) (tag : Nat) : MscM Byte := do
  let (outcome, _) ← mscCommand pipe 0 [0, 0, 0, 0, 0, 0] .none tag
  pure outcome.scsiStatus

/-- `scsi_read_capacity10` -/
def scsiReadCapacity10 (pipe : Pipe) (tag : Nat) : MscM (Byte × List Byte) :=
  scsiIn pipe [0x25, 0, 0, 0, 0, 0, 0, 0, 0, 0] 8 tag

/-- `u32::from_be_bytes` -/
def ofBe32 (bytes : List Byte) : Fin (2 ^ 32) := Fin.ofNat (2 ^ 32) (ofLe (bytes.take 4).reverse)

def isInquired : Option (Byte × List Byte) → Bool
  | some (status, bytes) => status == 0 && 36 ≤ bytes.length
  | none => false

def capacityOf : Option (Byte × List Byte) → Option CapacityData
  | some (status, bytes) =>
      if status = 0 ∧ 8 ≤ bytes.length then
        some ⟨ofBe32 bytes, (ofBe32 (bytes.drop 4)).val⟩
      else none
  | none => none

def firstBlockOf : Option (Byte × List Byte) → List Byte
  | some (status, bytes) => if status = 0 then bytes else []
  | none => []

def nextTag (tag : Nat) : Nat := (tag + 1) % 2 ^ 32

/-- A round of `probe_mass_storage`, with the last tag it used. -/
def probeTarget (t : MscTarget) (tag : Nat) : MscM (MscProbe × Nat) := do
  let pipe : Pipe := ⟨t.slotIdx, t.bulkInIdx, t.bulkOutIdx⟩
  let tag := nextTag tag
  let inquiry ← attempt (scsiInquiry pipe tag)
  let tag := nextTag tag
  let _ ← attempt (scsiTestUnitReady pipe tag)
  let tag := nextTag tag
  let capacity ← attempt (scsiReadCapacity10 pipe tag)
  match capacityOf capacity with
  | none => pure (⟨t.slotId, isInquired inquiry, none, []⟩, tag)
  | some cap => do
      let tag := nextTag tag
      let block ← attempt (scsiRead10 pipe 0 0 1 cap.blockSize tag)
      pure (⟨t.slotId, isInquired inquiry, some cap, firstBlockOf block⟩, tag)

def probeTargets : List MscTarget → Nat → MscM (List MscProbe)
  | [], _ => pure []
  | t :: ts, tag => do
      let (probe, tag) ← probeTarget t tag
      let probes ← probeTargets ts tag
      pure (probe :: probes)

/-- `probe_mass_storage` on the drives the record of a controller lists. -/
def probeDrives : MscM (List MscProbe) := fun w =>
  if w.devices.addressed = [] then
    (.error "address + configure devices first ([a] [c] [g])", w)
  else probeTargets (mscTargets w.devices) 0xABCD0000 w

/-! ## The write test -/

/-- The header of the test pattern. -/
def testHeader : List Byte :=
  [0x54, 0x42, 0x4C, 0x53, 0x4F, 0x53, 0x2D, 0x55, 0x53, 0x42, 0x2D, 0x4D, 0x53, 0x43, 0x2D,
    0x42, 0x4C, 0x4F, 0x43, 0x4B, 0x44, 0x45, 0x56, 0x49, 0x43, 0x45, 0x2D, 0x57, 0x52, 0x49,
    0x54, 0x45, 0x2D, 0x54, 0x45, 0x53, 0x54, 0x20, 0x20]

def testPattern : List Byte :=
  testHeader ++ (List.range (sector - testHeader.length)).map fun i =>
    if (testHeader.length + i) % 2 = 0 then 0xAA else 0x55

/-- `struct WriteTestResult`, less its message. -/
structure WriteTestResult where
  slotId : Byte
  lba : Nat
  verifyOk : Bool
  readbackHead : List Byte
  deriving DecidableEq, Repr

/-- `run_write_test` -/
def runWriteTest (probes : List MscProbe) (slotId : Byte) (lba : Nat) (w : Wire) :
    WriteTestResult × Wire :=
  let failed : WriteTestResult := ⟨slotId, lba, false, []⟩
  match UsbMscDevice.open probes slotId with
  | .error _ => (failed, w)
  | .ok dev =>
      match UsbMscDevice.readSector lba sector (dev, w) with
      | (.error _, _, w) => (failed, w)
      | (.ok original, s) =>
          match UsbMscDevice.writeSector lba testPattern s with
          | (.error _, _, w) => (failed, w)
          | (.ok (), s) =>
              match UsbMscDevice.readSector lba sector (UsbMscDevice.flush s).2 with
              | (.error _, _, w) => (failed, w)
              | (.ok readback, s) =>
                  -- Restore the original sector.
                  let s := (UsbMscDevice.flush (UsbMscDevice.writeSector lba original s).2).2
                  (⟨slotId, lba, readback == testPattern, readback.take 32⟩, s.2)

/-- The first drive the test takes: the block size is right and there is a
block behind the MBR. -/
def testTarget (probes : List MscProbe) : Option MscProbe :=
  probes.find? fun p => p.capacity.any fun c => c.blockSize == 512 && decide (1 < c.totalBlocks)

/-! ## The installer -/

/-- `struct BaseOffsetDevice`: the sectors of a device from `base` on. -/
structure BaseOffsetDevice (D : Type) where
  inner : D
  base : Nat
  sectors : Nat
  sectors_lt : sectors < 2 ^ 64

namespace BaseOffsetDevice

variable {D : Type} [BlockDevice D] {α : Type}

/-- A call on the device behind the offset. -/
def onInner (m : DevM D α) : DevM (BaseOffsetDevice D) α := fun d =>
  let (r, inner) := m d.inner
  (r, { d with inner })

/-- A call on one sector, within the sectors of the device. -/
def within (lba : Nat) (m : Nat → DevM D α) : DevM (BaseOffsetDevice D) α := fun d =>
  if d.sectors ≤ lba then (.error .io, d) else onInner (m (d.base + lba)) d

instance : BlockDevice (BaseOffsetDevice D) where
  sectorCount d := d.sectors
  sectorCount_lt d := d.sectors_lt
  readSector lba := within lba BlockDevice.readSector
  writeSector lba x := within lba fun lba => BlockDevice.writeSector lba x
  flush := onInner BlockDevice.flush

end BaseOffsetDevice

/-- `TBLSBOOT` -/
def bootMagic : List Byte := [0x54, 0x42, 0x4C, 0x53, 0x42, 0x4F, 0x4F, 0x54]

def hasBootMagic (mbr : List Byte) : Bool := (mbr.drop 0x1B0).take 8 == bootMagic

/-- One step of the xorshift in `make_random_sys_guid`. -/
def xorshift (x : UInt64) : UInt64 :=
  let x := x ^^^ (x <<< 13)
  let x := x ^^^ (x >>> 7)
  x ^^^ (x <<< 17)

/-- `make_random_sys_guid`, from the time-stamp counter. -/
def makeRandomSysGuid (tsc : UInt64) : List Byte :=
  let x := xorshift (tsc ^^^ 0xCAFEBABEDEADBEEF)
  let y := xorshift x
  leBytes 8 x.toNat ++ leBytes 8 y.toNat

/-- `struct InstallReport`, less its message. -/
structure InstallReport where
  targetSlot : Byte
  sectorsCopied : Nat
  volumeSectors : Nat
  newSysGuid : List Byte
  verifyMbrOk : Bool
  verifyMountOk : Bool
  deriving DecidableEq, Repr

/-- An install under way. -/
structure Installing where
  report : InstallReport
  ide : IdeBus
  wire : Wire
  /-- `MSC_TAG` -/
  mscTag : Nat

/-- A step of the installer, which returns with the report as it stands where
it stops. -/
abbrev InstallM (α : Type) := Fallible Unit Installing α

namespace Installing

def record (f : InstallReport → InstallReport) : InstallM Unit := fun s =>
  (.ok (), { s with report := f s.report })

/-- A call on a drive the installer has opened. -/
def onDevice {α : Type} (d : UsbMscDevice) (m : DeviceM α) :
    InstallM (Except StoreError α × UsbMscDevice) := fun s =>
  match m (d, s.wire) with
  | (r, d, wire) => (.ok (r, d), { s with wire })

/-- The calls of the store on `BaseOffsetDevice`, whatever they come to. -/
def storeCalls (base sectors : Nat) : List DiskCall → UsbMscDevice → InstallM UsbMscDevice
  | [], d => pure d
  | c :: cs, d => do
      let (_, d) ← onDevice d (UsbBootDisk.perform base sectors c)
      storeCalls base sectors cs d

/-- `read_sector_at` on the primary master, for the sectors of a chunk. -/
def readPrefix (newSysGuid : List Byte) : List Nat → InstallM (List Byte)
  | [] => pure []
  | lba :: lbas => fun s =>
      match readSectorAt .primaryMaster lba s.ide with
      | (.error _, ide) => (.error (), { s with ide })
      | (.ok bytes, ide) =>
          let bytes := if lba = 0 then
            bytes.take 0x1DC ++ newSysGuid ++ bytes.drop (0x1DC + 16) else bytes
          (do let rest ← readPrefix newSysGuid lbas; pure (bytes ++ rest) : InstallM (List Byte))
            { s with ide }

/-- `msc_write_blocks`, with the next tag of its counter. -/
def writeBlocks (slotId : Byte) (lba blocks : Nat) (data : List Byte) : InstallM Unit := fun s =>
  let after := { s with mscTag := nextTag s.mscTag }
  match mscWriteBlocks slotId lba blocks data s.mscTag s.wire with
  | (.error _, wire) => (.error (), { after with wire })
  | (.ok (), wire) =>
      (.ok (), { after with wire, report := { s.report with sectorsCopied := lba + blocks } })

/-- `CHUNK_SECTORS` -/
abbrev chunkSectors : Nat := 64

/-- A round of the copy loop. -/
def copyChunk (slotId : Byte) (dataLba : Nat) (newSysGuid : List Byte) (lba : Nat) :
    InstallM Unit := do
  let n := min chunkSectors (dataLba - lba)
  let chunk ← readPrefix newSysGuid ((List.range n).map (lba + ·))
  writeBlocks slotId lba n chunk

/-- The LBAs at which the copy loop starts a round. -/
def chunkStarts (dataLba : Nat) : List Nat :=
  (List.range ((dataLba + (chunkSectors - 1)) / chunkSectors)).map (· * chunkSectors)

/-- `refuse_if_same_disk` -/
def refuseIfSameDisk (booted : List Byte) : DeviceM Bool := fun s =>
  match UsbMscDevice.readSector 0 sector s with
  | (.error _, s) => (.ok false, s) -- Can't read; trust the caller's filtering.
  | (.ok buf, s) => (.ok (hasBootMagic buf && guidOf buf == booted), s)

/-- The least a volume has to hold. -/
abbrev minVolumeSectors : Nat := (Journal.firstDataPage + 1) * pageSectors

/-- What the store asks of the device that it formats, and of the one it
mounts, and whether it gets through. -/
structure StoreRuns where
  format : List DiskCall
  formatted : Bool
  mount : List DiskCall
  mounted : Bool

/-- What is checked of the new system. -/
def verify (probes : List MscProbe) (slotId : Byte) (dataLba volumeSectors : Nat)
    (newSysGuid : List Byte) (runs : StoreRuns) : InstallM Unit :=
  match UsbMscDevice.open probes slotId with
  | .error _ => Fallible.throw ()
  | .ok dev => do
      match ← onDevice dev (UsbMscDevice.readSector 0 sector) with
      | (.error _, _) => Fallible.throw ()
      | (.ok mbr, dev) =>
          let ok := hasBootMagic mbr && guidOf mbr == newSysGuid
          record fun r => { r with verifyMbrOk := ok }
          if !ok then Fallible.throw () else do
          let _ ← storeCalls dataLba volumeSectors runs.mount dev
          record fun r => { r with verifyMountOk := runs.mounted }

/-- The installer behind the copy. -/
def formatVolume (probes : List MscProbe) (slotId : Byte) (dataLba : Nat)
    (newSysGuid : List Byte) (runs : StoreRuns) (dev : UsbMscDevice) : InstallM Unit := do
  let (_, dev) ← onDevice dev UsbMscDevice.flush
  let volumeSectors := dev.sectors - dataLba
  record fun r => { r with volumeSectors }
  let _ ← storeCalls dataLba volumeSectors runs.format dev
  if !runs.formatted then Fallible.throw () else
    verify probes slotId dataLba volumeSectors newSysGuid runs

/-- `install_to_usb`, from the target it opens on. -/
def install (probes : List MscProbe) (slotId : Byte) (dataLba : Nat)
    (booted newSysGuid : List Byte) (runs : StoreRuns) : InstallM Unit :=
  match UsbMscDevice.open probes slotId with
  | .error _ => Fallible.throw ()
  | .ok dev =>
      if dev.sectors < dataLba + minVolumeSectors then Fallible.throw () else do
      let (same, dev) ← onDevice dev (refuseIfSameDisk booted)
      if same == .ok true then Fallible.throw () else do
      (chunkStarts dataLba).forM (copyChunk slotId dataLba newSysGuid)
      formatVolume probes slotId dataLba newSysGuid runs dev

end Installing

/-- `install_to_usb`: the report, and the buses and the tag counter after
it. -/
def installToUsb (probes : List MscProbe) (slotId : Byte) (dataLba : Nat) (booted : List Byte)
    (tsc : UInt64) (runs : Installing.StoreRuns) (ide : IdeBus) (w : Wire) (mscTag : Nat) :
    Installing :=
  let newSysGuid := makeRandomSysGuid tsc
  (Installing.install probes slotId dataLba booted newSysGuid runs
    ⟨⟨slotId, 0, 0, newSysGuid, false, false⟩, ide, w, mscTag⟩).2

end TablesOS
