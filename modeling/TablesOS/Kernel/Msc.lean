import TablesOS.Base.Fallible
import TablesOS.Kernel.Descriptors

/-!
# Mass storage over bulk transfers (`usb/xhci.rs`)

A SCSI command is three bulk transfers: the command block out, the data in
either direction, the status in. What controller and device do with each
transfer is a `Fate`, and a run is taken against a plan of fates, one for each
transfer the driver will make: any behaviour of the other side, however it
reacts to what it is sent, is some plan. The log keeps what was sent and what
came of it.
-/

namespace TablesOS

namespace Usb

/-- What becomes of one bulk transfer. The residual length that a Transfer
Event reports is what was not moved. -/
inductive Fate where
  /-- No event before the deadline. -/
  | timeout
  /-- A Transfer Event with this completion code; these bytes were moved. Of a
  transfer out only their number matters. -/
  | event (cc : Byte) (moved : List Byte)
  deriving DecidableEq, Repr

/-- The endpoints of one device: slot index, bulk-IN and bulk-OUT index. -/
structure Pipe where
  slotIdx : Nat
  bulkInIdx : Nat
  bulkOutIdx : Nat
  deriving DecidableEq, Repr

/-- A transfer the driver made, or an endpoint it reset. -/
inductive Xfer where
  | out (slotIdx : Nat) (bytes : List Byte) (fate : Fate)
  | inn (slotIdx : Nat) (length : Nat) (fate : Fate)
  | reset (slotIdx : Nat) (dirIn : Bool)
  deriving DecidableEq, Repr

/-- The driver's side of the bus. -/
structure Wire where
  fate : Nat → Fate
  /-- Bulk transfers made so far. -/
  next : Nat
  log : List Xfer
  devices : XhciState

abbrev MscM (α : Type) := Fallible String Wire α

/-- `bulk_transfer`: post, ring, wait for the event. -/
def transfer (x : Fate → Xfer) : MscM (Byte × List Byte) := fun w =>
  let f := w.fate w.next
  let w := { w with next := w.next + 1, log := w.log ++ [x f] }
  match f with
  | .timeout => (.error "event-ring deadline elapsed", w)
  | .event cc moved => (.ok (cc, moved), w)

/-- A buffer after the device has sent `moved` into it. -/
def fill (buf moved : List Byte) : List Byte :=
  moved.take buf.length ++ buf.drop moved.length

def bulkOut (pipe : Pipe) (bytes : List Byte) : MscM Byte := do
  let (cc, _) ← transfer (.out pipe.slotIdx bytes)
  pure cc

def bulkIn (pipe : Pipe) (buf : List Byte) : MscM (Byte × List Byte) := do
  let (cc, moved) ← transfer (.inn pipe.slotIdx buf.length)
  pure (cc, fill buf moved)

/-- `reset_bulk_endpoint`: best effort, its own outcome is dropped. -/
def resetBulkEndpoint (pipe : Pipe) (dirIn : Bool) : MscM Unit := fun w =>
  (.ok (), { w with log := w.log ++ [.reset pipe.slotIdx dirIn] })

/-- `CBW_SIG` -/
abbrev cbwSig : Nat := 0x43425355

/-- `CSW_SIG` -/
abbrev cswSig : Nat := 0x53425355

/-- `CBW_LEN` -/
abbrev cbwLen : Nat := 31

/-- `CSW_LEN` -/
abbrev cswLen : Nat := 13

/-- `struct MscOutcome` -/
structure MscOutcome where
  scsiStatus : Byte
  residue : Nat
  deriving DecidableEq, Repr

/-- The `data` argument of `msc_command`. -/
inductive DataStage where
  | none
  | read (length : Nat)
  | write (bytes : List Byte)

namespace DataStage

def length : DataStage → Nat
  | none => 0
  | read length => length
  | write bytes => bytes.length

def dirIn : DataStage → Bool
  | none => false
  | read _ => true
  | write _ => false

end DataStage

/-- The command block wrapper. -/
def cbw (tag : Nat) (data : DataStage) (lun : Byte) (cb : List Byte) : List Byte :=
  leBytes 4 cbwSig ++ leBytes 4 tag ++ leBytes 4 data.length ++
    [if data.dirIn then 0x80 else 0x00, lun, UInt8.ofNat cb.length] ++ cb ++
    List.replicate (16 - cb.length) 0

/-- The data stage of `msc_command`: the buffer after it. -/
def dataStage (pipe : Pipe) : DataStage → MscM (List Byte)
  | .none => pure []
  | .read length => do
      let (cc, buf) ← bulkIn pipe (List.replicate length 0)
      if cc ≠ 1 ∧ cc ≠ 13 then resetBulkEndpoint pipe true
      pure buf
  | .write bytes => do
      let cc ← bulkOut pipe bytes
      if cc ≠ 1 ∧ cc ≠ 13 then resetBulkEndpoint pipe false
      pure bytes

/-- The status stage of `msc_command`: the buffer it leaves, after at most one
retry into the same buffer. -/
def statusStage (pipe : Pipe) : MscM (List Byte) := do
  let (cc, csw) ← bulkIn pipe (List.replicate cswLen 0)
  if cc = 1 ∨ cc = 13 then pure csw else do
  resetBulkEndpoint pipe true
  let (cc, csw) ← bulkIn pipe csw
  if cc = 1 ∨ cc = 13 then pure csw else do
  resetBulkEndpoint pipe true
  Fallible.throw "CSW transfer xHCI cc != Success/Short Packet"

/-- What `msc_command` makes of the status wrapper. -/
def readCsw (csw : List Byte) (tag : Nat) : Except String MscOutcome :=
  if ofLe (csw.take 4) ≠ cswSig then .error "bad CSW signature"
  else if ofLe ((csw.drop 4).take 4) ≠ tag then .error "CSW tag mismatch"
  else .ok ⟨csw.getD 12 0, ofLe ((csw.drop 8).take 4)⟩

/-- A computed `Result` as a step. -/
def liftExcept {α : Type} : Except String α → MscM α
  | .ok a => pure a
  | .error e => Fallible.throw e

/-- `msc_command`: with the outcome, the data buffer as the command left it. -/
def mscCommand (pipe : Pipe) (lun : Byte) (cb : List Byte) (data : DataStage) (tag : Nat) :
    MscM (MscOutcome × List Byte) :=
  if cb = [] ∨ 16 < cb.length then Fallible.throw "invalid SCSI CB length" else do
    let cc ← bulkOut pipe (cbw tag data lun cb)
    if cc ≠ 1 then
      resetBulkEndpoint pipe false
      Fallible.throw "CBW transfer xHCI cc != Success"
    else
      let buf ← dataStage pipe data
      let csw ← statusStage pipe
      let outcome ← liftExcept (readCsw csw tag)
      pure (outcome, buf)

/-- The command block of READ(10) and WRITE(10). -/
def rw10 (opcode : Byte) (lba blocks : Nat) : List Byte :=
  [opcode, 0, UInt8.ofNat (lba / 2 ^ 24), UInt8.ofNat (lba / 2 ^ 16), UInt8.ofNat (lba / 2 ^ 8),
    UInt8.ofNat lba, 0, UInt8.ofNat (blocks / 2 ^ 8), UInt8.ofNat blocks, 0]

/-- `scsi_read10` -/
def scsiRead10 (pipe : Pipe) (lun : Byte) (lba blocks blockSize tag : Nat) :
    MscM (Byte × List Byte) := do
  let (outcome, buf) ← mscCommand pipe lun (rw10 0x28 lba blocks) (.read (blocks * blockSize)) tag
  pure (outcome.scsiStatus, if outcome.scsiStatus = 0 then buf else [])

/-- `scsi_write10` -/
def scsiWrite10 (pipe : Pipe) (lun : Byte) (lba blocks blockSize : Nat) (data : List Byte)
    (tag : Nat) : MscM Byte :=
  if data.length < blocks * blockSize then
    Fallible.throw "WRITE(10): payload smaller than declared transfer length"
  else do
    let (outcome, _) ← mscCommand pipe lun (rw10 0x2A lba blocks)
      (.write (data.take (blocks * blockSize))) tag
    pure outcome.scsiStatus

/-- `SECTOR` -/
abbrev sector : Nat := 512

/-- The lookup that every call starts with. -/
def resolve (slotId : Byte) : MscM Pipe := fun w =>
  match mscResolveBulk w.devices slotId with
  | .ok (slotIdx, bulkInIdx, bulkOutIdx) => (.ok ⟨slotIdx, bulkInIdx, bulkOutIdx⟩, w)
  | .error e => (.error e, w)

/-- `msc_read_sector`, into a buffer of `len` bytes. -/
def mscReadSector (slotId : Byte) (lba len tag : Nat) : MscM (List Byte) := do
  let pipe ← resolve slotId
  let (status, bytes) ← scsiRead10 pipe 0 lba 1 sector tag
  if status ≠ 0 then Fallible.throw "READ(10) CSW status != 0"
  else if bytes.length < len then Fallible.throw "READ(10) returned short data"
  else pure (bytes.take len)

/-- One attempt of `msc_write_sector`, with its outcome in hand. -/
def writeAttempt (pipe : Pipe) (lba : Nat) (data : List Byte) (tag : Nat) :
    MscM (Except String Unit) := fun w =>
  match scsiWrite10 pipe 0 lba 1 sector data tag w with
  | (.ok status, w) => (.ok (if status = 0 then .ok () else
      .error "WRITE(10) CSW status != 0"), w)
  | (.error e, w) => (.ok (.error e), w)

/-- `msc_write_sector`: a second attempt if the first one failed. -/
def mscWriteSector (slotId : Byte) (lba : Nat) (data : List Byte) (tag : Nat) : MscM Unit := do
  let pipe ← resolve slotId
  match ← writeAttempt pipe lba data tag with
  | .ok () => pure ()
  | .error _ => do
      let last ← writeAttempt pipe lba data tag
      liftExcept last

/-- `msc_sync_cache` -/
def mscSyncCache (slotId : Byte) (tag : Nat) : MscM Unit := do
  let pipe ← resolve slotId
  let (outcome, _) ← mscCommand pipe 0 [0x35, 0, 0, 0, 0, 0, 0, 0, 0, 0] .none tag
  if outcome.scsiStatus ≠ 0 then Fallible.throw "SYNCHRONIZE CACHE CSW status != 0"

/-- `msc_write_blocks`; the source's tag comes from a global counter. -/
def mscWriteBlocks (slotId : Byte) (lba blocks : Nat) (data : List Byte) (tag : Nat) :
    MscM Unit := do
  let pipe ← resolve slotId
  let status ← scsiWrite10 pipe 0 lba blocks sector data tag
  if status ≠ 0 then Fallible.throw "WRITE(10) CSW status != 0"

end Usb

end TablesOS
