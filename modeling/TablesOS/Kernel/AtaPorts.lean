import TablesOS.Engine.Block

/-!
# The ATA driver at its ports (`ata.rs`)

The driver as it talks to the registers of the primary channel, and a drive
behind them. The drive takes a command, is busy for a number of status reads of
its own choosing, with whatever it likes in the other bits, and then moves a
sector through the data port. A command that reaches it while it is busy it may
take or ignore. `Ports` is the driver with its drive, and a block device.
-/

namespace TablesOS

namespace Pio

abbrev stBsy : Byte := 0x80
abbrev stDrdy : Byte := 0x40
abbrev stDrq : Byte := 0x08
abbrev stErr : Byte := 0x01

/-- `DRIVE_MASTER_LBA` -/
abbrev driveMasterLba : Byte := 0xE0

/-! ## Sectors as words -/

/-- `chunk[0] as u16 | ((chunk[1] as u16) << 8)` -/
def wordOf (lo hi : Byte) : UInt16 := lo.toUInt16 ||| hi.toUInt16 <<< 8

/-- `[w as u8, (w >> 8) as u8]` -/
def bytesOf (w : UInt16) : List Byte := [w.toUInt8, (w >>> 8).toUInt8]

/-- `buf.chunks_exact(2)`, each as a word. -/
def sectorWords (x : Sector) : List UInt16 :=
  (List.range 256).map fun i => wordOf (x.get (2 * i)) (x.get (2 * i + 1))

/-- `buf.chunks_exact_mut(2)`, filled from words. -/
def ofWords (ws : List UInt16) : Sector := (Buf.zero sectorSize).put 0 (ws.flatMap bytesOf)

/-! ## The drive -/

/-- What a drive that is not busy is about to do. -/
inductive Phase where
  /-- It waits for a command, the last of which may have ended with an error. -/
  | ready (failed : Bool)
  /-- It hands over the words of a sector. -/
  | sending (words : List UInt16)
  /-- It takes the words of a sector, and has these. -/
  | taking (lba : Nat) (words : List UInt16)
  deriving DecidableEq, Repr

/-- The status when the drive is not busy. -/
def Phase.status : Phase → Byte
  | .ready false => 0x50
  | .ready true => 0x51
  | .sending _ => 0x58
  | .taking _ _ => 0x58

/-- A drive on the primary channel, as master. -/
structure Drive where
  sectors : Nat
  /-- What it answers to IDENTIFY. -/
  ident : List UInt16
  medium : Medium Sector
  device : Byte
  seccount : Byte
  lba0 : Byte
  lba1 : Byte
  lba2 : Byte
  phase : Phase
  /-- Reads of the status for which it stays busy. -/
  busy : Nat
  /-- Commands taken and sectors written, and reads of the status, so far. -/
  steps : Nat
  polls : Nat
  /-- For how long each step keeps it busy, and which steps fail. -/
  delay : Nat → Nat
  fails : Nat → Bool
  /-- Whether it takes a command that comes while it is busy. -/
  heeds : Nat → Bool
  /-- The bits beside the busy one. -/
  junk : Nat → Byte

namespace Drive

/-- The address in the registers. -/
def address (d : Drive) : Nat :=
  d.lba0.toNat + 2 ^ 8 * d.lba1.toNat + 2 ^ 16 * d.lba2.toNat + 2 ^ 24 * (d.device.toNat % 16)

/-- Take a step: the drive is busy for a while and then in `phase`, or has failed. -/
def step (d : Drive) (phase : Phase) (medium : Medium Sector) : Drive :=
  let after := { d with steps := d.steps + 1, busy := d.busy + d.delay d.steps }
  if d.fails d.steps then { after with phase := .ready true } else { after with phase, medium }

/-- A command that the drive takes. -/
def obey (c : Byte) (d : Drive) : Drive :=
  if c = 0xEC then d.step (.sending d.ident) d.medium
  else if c = 0xE7 then d.step (.ready false) d.medium.flush
  else if d.seccount ≠ 1 ∨ d.sectors ≤ d.address then d.step (.ready true) d.medium
  else if c = 0x20 then d.step (.sending (sectorWords (d.medium.view d.address))) d.medium
  else if c = 0x30 then d.step (.taking d.address []) d.medium
  else d.step (.ready true) d.medium

end Drive

/-! ## Ports -/

abbrev PortM (α : Type) := Fallible StoreError Drive α

/-- `status.read()` -/
def readStatus : PortM Byte := fun d =>
  match d.busy with
  | 0 => (.ok d.phase.status, { d with polls := d.polls + 1 })
  | b + 1 => (.ok (stBsy ||| d.junk d.polls &&& 0x7E), { d with busy := b, polls := d.polls + 1 })

/-- A write to a register, which a busy drive ignores. -/
def writeReg (f : Drive → Drive) : PortM Unit := fun d =>
  (.ok (), if d.busy = 0 then f d else d)

/-- `command.write(c)` -/
def command (c : Byte) : PortM Unit := fun d =>
  (.ok (), if d.busy = 0 ∨ d.heeds d.steps then d.obey c else d)

/-- `data.read()` -/
def readData : PortM UInt16 := fun d =>
  match d.phase with
  | .sending [] => (.ok 0xFFFF, d)
  | .sending [w] => (.ok w, { d with phase := .ready false })
  | .sending (w :: ws) => (.ok w, { d with phase := .sending ws })
  | _ => (.ok 0xFFFF, d)

/-- `data.write(w)` -/
def writeData (w : UInt16) : PortM Unit := fun d =>
  match d.phase with
  | .taking lba ws =>
      if ws.length + 1 < 256 then (.ok (), { d with phase := .taking lba (ws ++ [w]) })
      else (.ok (), d.step (.ready false) (d.medium.write lba (ofWords (ws ++ [w]))))
  | _ => (.ok (), d)

/-! ## The driver -/

/-- `let _ = status.read()`, four times. -/
def pause : PortM Unit := (List.range 4).forM fun _ => do
  let _ ← readStatus
  pure ()

/-- The rounds that `poll` and `flush` wait at most. -/
abbrev spinLimit : Nat := 10000000

/-- The loop of `poll`. -/
def pollLoop : Nat → PortM Unit
  | 0 => Fallible.throw .io
  | n + 1 => do
      let s ← readStatus
      if s &&& stErr ≠ 0 then Fallible.throw .io
      else if s &&& stBsy = 0 ∧ s &&& stDrq ≠ 0 then pure ()
      else if s &&& stBsy = 0 ∧ s &&& stDrdy ≠ 0 then pure ()
      else pollLoop n

/-- `poll` -/
def poll : PortM Unit := do
  pause
  pollLoop (spinLimit + 1)

/-- `select` -/
def select (lba : Nat) (count : Byte) : PortM Unit := do
  writeReg fun d => { d with device := driveMasterLba ||| (UInt8.ofNat (lba / 2 ^ 24) &&& 0x0F) }
  pause
  writeReg fun d => { d with seccount := count }
  writeReg fun d => { d with lba0 := UInt8.ofNat lba }
  writeReg fun d => { d with lba1 := UInt8.ofNat (lba / 2 ^ 8) }
  writeReg fun d => { d with lba2 := UInt8.ofNat (lba / 2 ^ 16) }

/-- The words of the data port, one after the other. -/
def readWords : Nat → PortM (List UInt16)
  | 0 => pure []
  | n + 1 => do
      let w ← readData
      let ws ← readWords n
      pure (w :: ws)

/-- `read_sector` and `read_boot_sector` behind their checks, at an absolute LBA. -/
def readAbsolute (lba : Nat) : PortM Sector := do
  select lba 1
  command 0x20 -- READ SECTORS
  poll
  let ws ← readWords 256
  pure (ofWords ws)

/-- The loop of `flush`. -/
def flushLoop : Nat → PortM Unit
  | 0 => Fallible.throw .io
  | n + 1 => do
      let s ← readStatus
      if s &&& stBsy = 0 then
        if s &&& stErr ≠ 0 then Fallible.throw .io else pure ()
      else flushLoop n

/-- `flush` -/
def flushCache : PortM Unit := do
  command 0xE7 -- CACHE FLUSH
  flushLoop (spinLimit + 1)

/-- `write_sector` behind its check. -/
def writeAbsolute (lba : Nat) (x : Sector) : PortM Unit := do
  select lba 1
  command 0x30 -- WRITE SECTORS
  poll
  (sectorWords x).forM writeData
  flushCache

/-- `struct Ata` with the drive its ports lead to. -/
structure Ports where
  drive : Drive
  base : Nat
  sectors : Nat
  sectors_lt : sectors < 2 ^ 64

namespace Ports

def onDrive {α : Type} (m : PortM α) : DevM Ports α := fun p =>
  let (r, drive) := m p.drive
  (r, { p with drive })

/-- A call on one sector of the volume. -/
def within {α : Type} (lba : Nat) (m : Nat → PortM α) : DevM Ports α := fun p =>
  if p.sectors ≤ lba then (.error .io, p) else onDrive (m (p.base + lba)) p

instance : BlockDevice Ports where
  sectorCount p := p.sectors
  sectorCount_lt p := p.sectors_lt
  readSector lba := within lba readAbsolute
  writeSector lba x := within lba fun lba => writeAbsolute lba x
  flush := onDrive flushCache

end Ports

/-- `id[60] as u64 | ((id[61] as u64) << 16)` -/
def capacityWords (id : List UInt16) : Nat := (id.getD 60 0).toNat + 2 ^ 16 * (id.getD 61 0).toNat

theorem capacityWords_lt (id : List UInt16) : capacityWords id < 2 ^ 32 := by
  have h60 := (id.getD 60 0).toNat_lt
  have h61 := (id.getD 61 0).toNat_lt
  unfold capacityWords
  omega

/-- The identification of the drive. -/
def identify : PortM (List UInt16) := do
  writeReg fun d => { d with device := driveMasterLba }
  pause
  writeReg fun d => { d with seccount := 0 }
  writeReg fun d => { d with lba0 := 0 }
  writeReg fun d => { d with lba1 := 0 }
  writeReg fun d => { d with lba2 := 0 }
  command 0xEC -- IDENTIFY
  let s ← readStatus
  if s = 0 then Fallible.throw .io else do -- no device
  poll
  readWords 256

/-- `probe`: the volume is the disk less the boot region. -/
def probePorts (base : Nat) (d : Drive) : Option Ports :=
  match identify d with
  | (.ok id, drive) => some ⟨drive, base, capacityWords id - base, by
      have := capacityWords_lt id
      omega⟩
  | (.error _, _) => none

end Pio

end TablesOS
