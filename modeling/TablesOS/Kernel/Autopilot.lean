import TablesOS.Kernel.Descriptors
import Mathlib.Logic.Function.Basic

/-!
# The bring-up pipeline (`usb/xhci.rs`)

`autopilot_usb_drives` takes a controller from its ports to its drives, in
stages that each keep a list: the ports walked and the slots enabled, the
devices addressed, their configurations, their endpoints, the mass-storage
probes. A stage is told nothing by the ones before it but those lists, and has
its own way to tell what is done already. What the hardware answers in a run
is an argument of the run; the port registers are its state.
-/

namespace TablesOS

namespace Usb

namespace Autopilot

/-! ## Ports -/

/-- `PORTSC_CCS`, bit 0: a device is connected. -/
def portscCcs : UInt32 := 1

/-- `PORTSC_PED`, bit 1: the port is enabled. -/
def portscPed : UInt32 := 2

/-- What a port and the command ring answer in one run. -/
structure PortReply where
  /-- The reset is over before the deadline. -/
  resetDone : Bool
  /-- PORTSC, once the driver has asked for a reset. -/
  portscAfter : UInt32
  /-- Completion code and slot of Enable Slot, if it is answered. -/
  enableSlot : Option (Byte × Byte)
  deriving DecidableEq, Repr

structure PortReport where
  port : Byte
  portscBefore : UInt32
  portscAfter : UInt32
  message : String
  deriving DecidableEq, Repr

structure SlotReport where
  port : Byte
  speed : Byte
  completionCode : Byte
  slotId : Byte
  deriving DecidableEq, Repr

structure EnumResult where
  ports : List PortReport
  slots : List SlotReport
  deriving DecidableEq, Repr

/-- The commands of the first two stages. -/
inductive BringUpCommand where
  | enableSlot (port : Byte)
  | addressDevice (slotId : Byte)
  deriving DecidableEq, Repr

/-- A port is looked at and, if need be, reset: what PORTSC reads in the end,
the report, and the speed of the device if the port is enabled. -/
def walkPort (port : Byte) (portsc : UInt32) (r : PortReply) :
    UInt32 × PortReport × Option Byte :=
  if portsc &&& portscCcs = 0 then (portsc, ⟨port, portsc, portsc, "no device"⟩, none)
  else if portsc &&& portscPed = 0 ∧ r.resetDone = false then
    (r.portscAfter, ⟨port, portsc, r.portscAfter, "reset timed out"⟩, none)
  else
    let after := if portsc &&& portscPed = 0 then r.portscAfter else portsc
    let msg := if portsc &&& portscPed = 0 then "reset; " else "auto-enabled; "
    let speed := ((after >>> 10) &&& 0xF).toUInt8
    if after &&& portscPed = 0 then
      (after, ⟨port, portsc, after, msg ++ "PED never set"⟩, none)
    else (after, ⟨port, portsc, after, msg ++ "PED=1 speed=" ++ toString speed.toNat⟩, some speed)

/-- The report on Enable Slot, with zeros where it was not answered. -/
def slotReport (port speed : Byte) : Option (Byte × Byte) → SlotReport
  | some (completionCode, slotId) => ⟨port, speed, completionCode, slotId⟩
  | none => ⟨port, speed, 0, 0⟩

/-- `1..=info.max_ports` -/
def portNumbers (maxPorts : Byte) : List Nat := List.range' 1 maxPorts.toNat

/-- The locals of `reset_and_enable_slots`, the port registers, and the
commands issued. -/
structure PortWalk where
  portsc : Nat → UInt32
  ports : List PortReport
  slots : List SlotReport
  commands : List BringUpCommand

/-- One round of its loop. -/
def portRound (replies : Nat → PortReply) (w : PortWalk) (port : Nat) : PortWalk :=
  let (after, report, speed) := walkPort (UInt8.ofNat port) (w.portsc port) (replies port)
  let w := { w with portsc := Function.update w.portsc port after, ports := w.ports ++ [report] }
  match speed with
  | none => w
  | some speed =>
      { w with
        slots := w.slots ++ [slotReport (UInt8.ofNat port) speed (replies port).enableSlot]
        commands := w.commands ++ [.enableSlot (UInt8.ofNat port)] }

/-! ## The pipeline -/

/-- What Address Device and the device descriptor came to. -/
structure AddressReply where
  /-- The completion code of Address Device, if it is answered. -/
  completion : Option Byte
  /-- The descriptor was fetched, and whole. -/
  described : Bool
  deriving DecidableEq, Repr

/-- What the hardware answers in one run. -/
structure Replies where
  port : Nat → PortReply
  address : Byte → AddressReply
  config : Nat → List Byte
  configure : Nat → Byte × Byte

/-- A controller that has been brought up. -/
structure Session where
  portsc : Nat → UInt32
  enumeration : Option EnumResult
  xhci : XhciState

/-- `reset_and_enable_slots` -/
def resetAndEnableSlots (maxPorts : Byte) (replies : Nat → PortReply) (s : Session) :
    Session × List BringUpCommand :=
  let w := (portNumbers maxPorts).foldl (portRound replies) ⟨s.portsc, [], [], []⟩
  ({ s with portsc := w.portsc, enumeration := some ⟨w.ports, w.slots⟩ }, w.commands)

/-- One round of `address_enabled_slots`; `known` is `st.addressed` as the loop
finds it. -/
def addressRound (known : List AddressedDevice) (replies : Byte → AddressReply)
    (acc : XhciState × List BringUpCommand) (report : SlotReport) :
    XhciState × List BringUpCommand :=
  if report.slotId = 0 ∨ report.completionCode ≠ 1 then acc
  -- Already addressed in a previous invocation.
  else if known.any (·.slotId == report.slotId) then acc
  else
    let reply := replies report.slotId
    let described := reply.completion == some 1 && reply.described
    (addressSlot report.slotId report.port report.speed reply.completion.isSome described acc.1,
      acc.2 ++ [.addressDevice report.slotId])

/-- `address_enabled_slots` -/
def addressEnabledSlots (replies : Byte → AddressReply) (s : Session) :
    Session × List BringUpCommand :=
  match s.enumeration with
  | none => (s, [])
  | some e =>
      let (xhci, commands) := e.slots.foldl (addressRound s.xhci.addressed replies) (s.xhci, [])
      ({ s with xhci }, commands)

/-- `fetch_configurations` -/
def fetchConfigurations (bytes : Nat → List Byte) (st : XhciState) : XhciState :=
  (List.range st.addressed.length).foldl (fun st i => fetchConfiguration i (bytes i) st) st

/-- `autopilot_usb_drives`, for one controller: what it leaves, and the Enable
Slot and Address Device commands it has issued. -/
def autopilotUsbDrives (maxPorts : Byte) (r : Replies) (s : Session) :
    Session × List BringUpCommand :=
  let (s, enabled) := resetAndEnableSlots maxPorts r.port s
  let (s, addressed) := addressEnabledSlots r.address s
  let xhci := fetchConfigurations r.config s.xhci
  let xhci := configureEndpoints r.configure xhci
  let xhci := probeMassStorage xhci
  ({ s with xhci }, enabled ++ addressed)

end Autopilot

end Usb

end TablesOS
