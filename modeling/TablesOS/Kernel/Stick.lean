import TablesOS.Base.Dialog
import TablesOS.Kernel.UsbDisk

/-!
# A stick on the bus, and the driver at work on it (`usb/xhci.rs`)

The driver is written against a plan of what becomes of its transfers. Here is a
device that makes that plan: a stick that speaks Bulk-Only Transport. It waits
for a command block, moves data, and owes a status. Which writes it refuses, and
which status transfers are spoilt at the first try, is left to it. A bus has a
stick at every slot index; one that is `dead` never answers. The driver on a bus
is a block device, with and without the boot region in front.
-/

namespace TablesOS

namespace Usb

open Medium

/-! ## The stick -/

/-- Where a stick is in a command. -/
inductive Stick.Stage where
  /-- It waits for a command block. -/
  | waiting
  /-- It has bytes for the host, who expects `wanted`, and a status behind them. -/
  | sending (bytes : List Byte) (wanted tag : Nat) (status : Byte)
  /-- It takes blocks. -/
  | taking (lba blocks tag : Nat)
  /-- It refuses what it is sent: the transfer ends with `cc`. -/
  | refusing (cc : Byte) (wanted tag : Nat)
  /-- It owes a status; the first transfer of it may be `spoilt`. -/
  | owing (tag residue : Nat) (status : Byte) (spoilt : Option Byte)
  /-- It does not answer. -/
  | dead
  deriving DecidableEq, Repr

/-- A stick with blocks of 512 bytes. -/
structure Stick where
  sectors : Nat
  /-- What it answers to INQUIRY. -/
  inquiry : List Byte
  medium : Medium Sector
  stage : Stick.Stage
  /-- Commands taken so far. -/
  steps : Nat
  /-- The commands that write or synchronize that it refuses. -/
  refuses : Nat → Option Byte
  /-- The commands whose status is spoilt at the first try. -/
  spoils : Nat → Option Byte

/-- `u32::from_be_bytes` and `u16::from_be_bytes` -/
def ofBe (bytes : List Byte) : Nat := ofLe bytes.reverse

def toBe (k v : Nat) : List Byte := (leBytes k v).reverse

/-- Bytes as a sector. -/
def asSector (bytes : List Byte) : Sector := (Buf.zero sectorSize).put 0 bytes

/-- Sectors from `lba` on. -/
def blocksAt (V : Nat → Sector) (lba blocks : Nat) : List Byte :=
  (List.range blocks).flatMap fun i => (V (lba + i)).toList

/-- The writes of a run of blocks, first one first. -/
def blockWrites (lba : Nat) (bytes : List Byte) (blocks : Nat) : List (Nat × Sector) :=
  (List.range blocks).map fun i =>
    (lba + i, asSector ((bytes.drop (i * sectorSize)).take sectorSize))

namespace Stick

def write (m : Medium Sector) (ws : List (Nat × Sector)) : Medium Sector :=
  ws.foldl (fun m w => m.write w.1 w.2) m

/-- The command is over but for its status. -/
def owe (s : Stick) (tag residue : Nat) (status : Byte) : Stick :=
  { s with stage := .owing tag residue status (s.spoils s.steps), steps := s.steps + 1 }

/-- Bytes for the host, or right to the status if the host wants none. -/
def send (s : Stick) (bytes : List Byte) (wanted tag : Nat) (status : Byte) : Stick :=
  if wanted = 0 then s.owe tag 0 status
  else { s with stage := .sending (bytes.take wanted) wanted tag status }

/-- A command block, with the number of bytes that the host is about to move. -/
def obey (cb : List Byte) (wanted tag : Nat) (s : Stick) : Stick :=
  let lba := ofBe ((cb.drop 2).take 4)
  let blocks := ofBe ((cb.drop 7).take 2)
  let op := cb.getD 0 0
  if op = 0x00 then s.owe tag wanted 0
  else if op = 0x12 then s.send (s.inquiry.take (cb.getD 4 0).toNat) wanted tag 0
  else if op = 0x25 then s.send (toBe 4 (s.sectors - 1) ++ toBe 4 sector) wanted tag 0
  else if op = 0x28 then
    if lba + blocks ≤ s.sectors then s.send (blocksAt s.medium.view lba blocks) wanted tag 0
    else s.send [] wanted tag 1
  else if op = 0x2A then
    match s.refuses s.steps with
    | some cc => { s with stage := .refusing cc wanted tag }
    | none =>
        if lba + blocks ≤ s.sectors ∧ wanted = blocks * sector then
          { s with stage := .taking lba blocks tag }
        else { s with stage := .refusing 6 wanted tag }
  else if op = 0x35 then
    match s.refuses s.steps with
    | some _ => s.owe tag wanted 1
    | none => { s with medium := s.medium.flush }.owe tag wanted 0
  else s.send [] wanted tag 1

/-- A bulk transfer out of the host. -/
def takes (bytes : List Byte) (s : Stick) : Fate × Stick :=
  match s.stage with
  | .waiting =>
      if bytes.length = cbwLen ∧ ofLe (bytes.take 4) = cbwSig then
        (.event 1 bytes, s.obey ((bytes.drop 15).take (bytes.getD 14 0).toNat)
          (ofLe ((bytes.drop 8).take 4)) (ofLe ((bytes.drop 4).take 4)))
      else (.event 6 [], s)
  | .taking lba blocks tag =>
      (.event 1 bytes,
        { s with medium := write s.medium (blockWrites lba bytes blocks) }.owe tag 0 0)
  | .refusing cc wanted tag => (.event cc [], s.owe tag wanted 1)
  | _ => (.timeout, s)

/-- A bulk transfer into the host. -/
def gives (length : Nat) (s : Stick) : Fate × Stick :=
  match s.stage with
  | .sending bytes wanted tag status =>
      (.event (if length ≤ bytes.length then 1 else 13) (bytes.take length),
        s.owe tag (wanted - bytes.length) status)
  | .owing tag residue status none =>
      (.event 1 (leBytes 4 cswSig ++ leBytes 4 tag ++ leBytes 4 residue ++ [status]),
        { s with stage := .waiting })
  | .owing tag residue status (some cc) =>
      (.event cc [], { s with stage := .owing tag residue status none })
  | _ => (.timeout, s)

end Stick

/-! ## The bus -/

/-- The stick at each slot index. -/
abbrev Sticks := Nat → Stick

/-- What the driver asks for. -/
inductive Ask where
  | out (slotIdx : Nat) (bytes : List Byte)
  | inn (slotIdx : Nat) (length : Nat)
  | reset (slotIdx : Nat) (dirIn : Bool)
  deriving DecidableEq, Repr

/-- A transfer as what was asked for and what came of it. -/
def Xfer.said : Xfer → Ask × Option Fate
  | .out slotIdx bytes fate => (.out slotIdx bytes, some fate)
  | .inn slotIdx length fate => (.inn slotIdx length, some fate)
  | .reset slotIdx dirIn => (.reset slotIdx dirIn, none)

def Sticks.answer (bus : Sticks) : Ask → Fate × Sticks
  | .out i bytes => (((bus i).takes bytes).1, upd bus i ((bus i).takes bytes).2)
  | .inn i length => (((bus i).gives length).1, upd bus i ((bus i).gives length).2)
  | .reset _ _ => (.timeout, bus)

/-- An endpoint that the driver resets is one of the controller: no stick hears of it. -/
def Sticks.partner : Partner Sticks Ask Fate where
  hear bus _ := bus
  answer := Sticks.answer

/-- A run of the driver on the bus, with at most `n` transfers. -/
def onSticksFor {β : Type} (n : Nat) (devices : XhciState) (m : Wire → β × Wire) (bus : Sticks) :
    β × Sticks :=
  Sticks.partner.converse n .timeout
    (fun plan => ((m ⟨plan, 0, [], devices⟩).1, (m ⟨plan, 0, [], devices⟩).2.log.map Xfer.said))
    bus

/-- The transfers that one call makes at most. -/
abbrev callTransfers : Nat := 16

/-- One call of the driver on the bus. -/
def onSticks {β : Type} (devices : XhciState) (m : Wire → β × Wire) (bus : Sticks) : β × Sticks :=
  onSticksFor callTransfers devices m bus

/-- A command on the bus. -/
def MscM.onBus {α : Type} (devices : XhciState) (m : MscM α) : Fallible String Sticks α :=
  onSticks devices m

/-! ## Block devices -/

/-- A call on the device. -/
def DeviceM.onWire {α : Type} (m : DeviceM α) (dev : UsbMscDevice) (w : Wire) :
    (Except StoreError α × UsbMscDevice) × Wire :=
  (((m (dev, w)).1, (m (dev, w)).2.1), (m (dev, w)).2.2)

/-- A call on the device, on a bus. -/
def DeviceM.onBus {α : Type} (m : DeviceM α) (devices : XhciState) (dev : UsbMscDevice)
    (bus : Sticks) : (Except StoreError α × UsbMscDevice) × Sticks :=
  onSticks devices (m.onWire dev) bus

/-- `UsbMscDevice` on its bus. -/
structure UsbDrive where
  dev : UsbMscDevice
  devices : XhciState
  bus : Sticks

namespace UsbDrive

def call {α : Type} (m : DeviceM α) : DevM UsbDrive α := fun d =>
  let r := m.onBus d.devices d.dev d.bus
  (r.1.1, { d with dev := r.1.2, bus := r.2 })

instance : BlockDevice UsbDrive where
  -- A `u64`.
  sectorCount d := d.dev.sectors % 2 ^ 64
  sectorCount_lt _ := Nat.mod_lt _ (Nat.two_pow_pos 64)
  readSector lba := do
    let bytes ← call (UsbMscDevice.readSector lba sector)
    pure (asSector bytes)
  writeSector lba x := call (UsbMscDevice.writeSector lba x.toList)
  flush := call UsbMscDevice.flush

end UsbDrive

/-- `BootDisk::Usb` on its bus. -/
structure UsbVolume where
  disk : UsbBootDisk
  devices : XhciState
  bus : Sticks

namespace UsbVolume

def perform (c : DiskCall) : DevM UsbVolume (List Byte) := fun v =>
  let r := (UsbBootDisk.perform v.disk.base v.disk.sectors c).onBus v.devices v.disk.dev v.bus
  (r.1.1, { v with disk := { v.disk with dev := r.1.2 }, bus := r.2 })

/-- `read_boot_sector` -/
def readBootSector : DevM UsbVolume Sector := do
  let bytes ← perform (.readBoot sector)
  pure (asSector bytes)

instance : BlockDevice UsbVolume where
  -- A `u64`.
  sectorCount v := v.disk.sectors % 2 ^ 64
  sectorCount_lt _ := Nat.mod_lt _ (Nat.two_pow_pos 64)
  readSector lba := do
    let bytes ← perform (.read lba sector)
    pure (asSector bytes)
  writeSector lba x := do
    let _ ← perform (.write lba x.toList)
    pure ()
  flush := do
    let _ ← perform .flush
    pure ()

end UsbVolume

end Usb

end TablesOS
