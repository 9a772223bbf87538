import TablesOS.Kernel.Install

/-!
# The screens that reach other disks (`ui.rs`)

Keys and clicks on the way to a disk that is not the mounted volume: the drive
list, the xHCI screen with the pipeline and the write test, and the picker and
the confirmation of the installer. The other screens work on the store, and
whatever is pressed there comes to calls on the boot disk; those can happen at
any time, so they are events of their own. Each event finds the buses in any
state.
-/

namespace TablesOS

open Usb

inductive Key where
  | up
  | down
  | enter
  | esc
  | char (c : Char)
  deriving DecidableEq, Repr

/-- A letter key, in either case. -/
def Key.isLetter (k : Key) (c : Char) : Bool :=
  match k with
  | .char c' => c' == c || c' == c.toUpper
  | _ => false

/-- `enum Screen`, as far as other disks are reached from it. -/
inductive Screen where
  | list
  | drives
  | pci
  | xhci
  /-- The slots offered, and the one under the cursor. -/
  | createOsPick (candidates : List Byte) (sel : Nat)
  /-- The confirmation of `Action::CreateOs`. -/
  | confirmCreateOs (slotId : Byte)
  | installResult (report : InstallReport)
  deriving DecidableEq, Repr

/-- `struct App`, as far as disks go, with what the driver has on record of the
drives and the counter of its tags. -/
structure App where
  disk : BootDisk
  bootedSysGuid : List Byte
  dataLba : Nat
  probes : List MscProbe
  mscTag : Nat
  /-- The top screen first. -/
  stack : List Screen

/-- What a key press finds around it. -/
structure Surroundings where
  ide : Nat → Option (List Byte)
  /-- The bus of the drives on record. -/
  wire : Wire
  /-- The bus and the record of each xHCI controller, once the pipeline has
  gone over it up to the probe. -/
  controllers : List Wire
  /-- The device under the cursor of the PCI screen is an xHCI controller that
  answers. -/
  inspected : Bool
  tsc : UInt64
  runs : Installing.StoreRuns
  /-- The drive behind the slot is the disk the system was booted from. -/
  holdsBooted : Byte → Bool

inductive Event where
  /-- The store calls its device. -/
  | disk (c : DiskCall) (b : Buses)
  | key (k : Key) (s : Surroundings)
  /-- `set_cursor` -/
  | cursor (i : Nat)

namespace App

/-- The app that `ui::run` starts with. -/
def start (disk : BootDisk) (guid : List Byte) (dataLba : Nat) (probes : List MscProbe) : App :=
  ⟨disk, guid, dataLba, probes, 0x5AC00000, [.list]⟩

def top (app : App) : Screen := app.stack.headD .list

def push (scr : Screen) (app : App) : App := { app with stack := scr :: app.stack }

def pop (app : App) : App :=
  if 1 < app.stack.length then { app with stack := app.stack.tail } else app

def popToList (app : App) : App := { app with stack := app.stack.dropWhile (· ≠ .list) }

/-- The screen that is handed back to the top. -/
def replaceTop (scr : Screen) (app : App) : App := { app with stack := scr :: app.stack.tail }

/-- What one call put on the bus. -/
def sentSince (w w' : Wire) : List Traffic := (w'.log.drop w.log.length).map .usb

/-- `probe_mass_storage` on one controller: the record is replaced when it
gets through. -/
def probeController (w : Wire) (app : App) : App × List Traffic :=
  match probeDrives w with
  | (.error _, w') => (app, sentSince w w')
  | (.ok probes, w') => ({ app with probes }, sentSince w w')

/-- `autopilot_usb_drives` -/
def autopilotUsbDrives : List Wire → App → App × List Traffic
  | [], app => (app, [])
  | w :: ws, app =>
      let (app, sent) := probeController w app
      let (app, more) := autopilotUsbDrives ws app
      (app, sent ++ more)

/-- `ata::enumerate_drives` and the autopilot. -/
def lookAround (s : Surroundings) (app : App) : App × List Traffic :=
  let ide := (enumerateDrives (.idle s.ide)).log.map Traffic.ide
  let (app, usb) := app.autopilotUsbDrives s.controllers
  (app, ide ++ usb)

/-- The drives that the picker offers. -/
def candidates (app : App) : List Byte :=
  ((usbDrivesWithSlots app.probes app.bootedSysGuid).filter fun p => !p.2).map (·.1)

/-- `[w]` on the xHCI screen. -/
def writeTest (s : Surroundings) (app : App) : List Traffic :=
  match testTarget app.probes with
  | none => []
  | some p => sentSince s.wire (runWriteTest app.probes p.slotId 1 s.wire).2

/-- `Action::CreateOs` -/
def createOs (slotId : Byte) (s : Surroundings) (app : App) : App × List Traffic :=
  let done := installToUsb app.probes slotId app.dataLba app.bootedSysGuid s.tsc s.runs
    (.idle s.ide) s.wire app.mscTag
  (({ app with mscTag := done.mscTag }).popToList.push (.installResult done.report),
    done.ide.log.map .ide ++ sentSince s.wire done.wire)

def keyList (k : Key) (s : Surroundings) (app : App) : App × List Traffic :=
  if k.isLetter 'd' then
    let (app, sent) := app.lookAround s
    (app.push .drives, sent)
  else if k.isLetter 'p' then (app.push .pci, [])
  else if k.isLetter 'n' then
    let (app, sent) := app.autopilotUsbDrives s.controllers
    (if app.candidates = [] then app else app.push (.createOsPick app.candidates 0), sent)
  else (app, [])

def keyDrives (k : Key) (s : Surroundings) (app : App) : App × List Traffic :=
  if k = .esc then (app.pop, [])
  else if k.isLetter 'r' then app.lookAround s
  else (app, [])

def keyPci (k : Key) (s : Surroundings) (app : App) : App × List Traffic :=
  if k = .esc then (app.pop, [])
  else if k = .enter ∧ s.inspected then (app.push .xhci, [])
  else (app, [])

/-- The keys before `[m]` bring the record to where the probe finds it. -/
def keyXhci (k : Key) (s : Surroundings) (app : App) : App × List Traffic :=
  if k = .esc then (app.pop, [])
  else if k.isLetter 'm' then app.probeController s.wire
  else if k.isLetter 'w' then (app, app.writeTest s)
  else (app, [])

def keyCreateOsPick (candidates : List Byte) (sel : Nat) (k : Key) (app : App) : App :=
  let sel := min sel (candidates.length - 1)
  let sel' := match k with
    | .up => sel - 1
    | .down => if sel + 1 < candidates.length then sel + 1 else sel
    | _ => sel
  let app := app.replaceTop (.createOsPick candidates sel')
  match k with
  | .esc => app.pop
  | .enter =>
      match candidates[sel]? with
      | none => app
      | some slotId => app.push (.confirmCreateOs slotId)
  | _ => app

def keyConfirm (slotId : Byte) (k : Key) (s : Surroundings) (app : App) : App × List Traffic :=
  match k with
  | .esc => (app.pop, [])
  | .enter => app.pop.createOs slotId s
  | _ => (app, [])

/-- `on_key` -/
def onKey (k : Key) (s : Surroundings) (app : App) : App × List Traffic :=
  match app.top with
  | .list => app.keyList k s
  | .drives => app.keyDrives k s
  | .pci => app.keyPci k s
  | .xhci => app.keyXhci k s
  | .createOsPick candidates sel => (app.keyCreateOsPick candidates sel k, [])
  | .confirmCreateOs slotId => app.keyConfirm slotId k s
  | .installResult _ =>
      (if k = .esc ∨ k = .enter then app.popToList else app, [])

/-- `set_cursor` -/
def setCursor (i : Nat) (app : App) : App :=
  match app.top with
  | .createOsPick candidates _ => app.replaceTop (.createOsPick candidates i)
  | _ => app

/-- One event: the app after it, and what was sent to disks. -/
def step (app : App) : Event → App × List Traffic
  | .disk c b =>
      match app.disk.call c b with
      | (_, disk, sent) => ({ app with disk }, sent)
  | .key k s => app.onKey k s
  | .cursor i => (app.setCursor i, [])

/-- The app after a run. -/
def after (app : App) : List Event → App
  | [] => app
  | e :: es => (app.step e).1.after es

end App

end TablesOS
