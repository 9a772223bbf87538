import TablesOS.Kernel.Descriptors

/-!
# Several controllers, one record (`usb/xhci.rs`)

The pipeline is called with the registers of one controller at a time and
keeps what it finds in a record made by the first bring-up that succeeds. A
request takes its ring, its event ring and its device from the record, and its
doorbell and its dequeue register from the argument. Controllers are told
apart by the base of their registers, and every port, slot and device carries
the controller it was found on; the source has no such field.
-/

namespace TablesOS

namespace Usb

/-- `struct XhciInfo`, as far as the stages look at it. -/
structure XhciInfo where
  mmioBase : Nat
  mmioAccessible : Bool
  deriving DecidableEq, Repr

/-- `struct SlotReport` -/
structure SlotReport where
  port : Byte
  speed : Byte
  completionCode : Byte
  slotId : Byte
  foundOn : Nat
  deriving DecidableEq, Repr

/-- One command or transfer: the controllers behind the ring it is posted on,
the doorbell rung, the event ring drained and the dequeue register written,
and those that the records in it were found on. -/
structure Request where
  ring : Nat
  doorbell : Nat
  eventRing : Nat
  dequeue : Nat
  records : List Nat
  deriving DecidableEq, Repr

/-- The content of `STATE`. -/
structure Driver where
  /-- The controller of the bring-up: both rings and the contexts are its. -/
  info : XhciInfo
  enumeration : Option (List SlotReport)
  devices : XhciState
  slotsOn : List Nat
  addressedOn : List Nat
  deriving DecidableEq, Repr

/-- The record a bring-up makes. -/
def Driver.fresh (info : XhciInfo) : Driver := ⟨info, none, XhciState.fresh, [], []⟩

/-- Where the records about a slot were found. -/
def Driver.foundOn (d : Driver) (slotId : Byte) : List Nat :=
  (d.devices.slots.zip d.slotsOn).filterMap
      (fun p => if p.1.slotId = slotId then some p.2 else none) ++
    (d.devices.addressed.zip d.addressedOn).filterMap
      (fun p => if p.1.slotId = slotId then some p.2 else none)

def Driver.request (d : Driver) (info : XhciInfo) (records : List Nat) : Request where
  ring := d.info.mmioBase
  doorbell := info.mmioBase
  eventRing := d.info.mmioBase
  dequeue := info.mmioBase
  records := records

/-! ## Stages -/

/-- The loop every stage is: an item that there is work for takes one request
and however many more its answers lead to, all made alike, and is then
recorded. -/
def sweep {ι : Type} (info : XhciInfo) (work : Driver → ι → Option (List Nat))
    (more : ι → Nat) (act : ι → Driver → Driver) : List ι → Driver → Driver × List Request
  | [], d => (d, [])
  | i :: is, d =>
      match work d i with
      | none => sweep info work more act is d
      | some records =>
          let rest := sweep info work more act is (act i d)
          (rest.1, List.replicate (more i + 1) (d.request info records) ++ rest.2)

/-- A port with a device that came out of its reset enabled, and the answer to
Enable Slot, unless none arrived. -/
structure EnabledPort where
  port : Byte
  speed : Byte
  answer : Option (Byte × Byte)
  more : Nat
  deriving DecidableEq, Repr

/-- What came of Address Device and the device descriptor. -/
structure AddressAnswer where
  answered : Bool
  described : Bool
  more : Nat
  deriving DecidableEq, Repr

/-- The stages of the pipeline, with what controller and devices answer; the
answers of a loop are by item. -/
inductive Stage where
  | resetAndEnableSlots (ports : List EnabledPort)
  | addressEnabledSlots (answers : Nat → AddressAnswer)
  | fetchConfigurations (answers : Nat → List Byte) (more : Nat → Nat)
  | configureEndpoints (answers : Nat → Byte × Byte) (more : Nat → Nat)
  | probeMassStorage (more : MscTarget → Nat)
  | probeHidMouse (setProtocol : Bool) (more : Nat)

/-- A round of `reset_and_enable_slots` on an enabled port of `info`. -/
def reportPort (info : XhciInfo) (p : EnabledPort) (d : Driver) : Driver :=
  let (completionCode, slotId) := p.answer.getD (0, 0)
  { d with
    enumeration := some (d.enumeration.getD [] ++
      [⟨p.port, p.speed, completionCode, slotId, info.mmioBase⟩]) }

/-- The reports `address_enabled_slots` does not skip, numbered. -/
def freshReports (d : Driver) : List (SlotReport × Nat) :=
  ((d.enumeration.getD []).filter fun r => r.slotId != 0 && r.completionCode == 1 &&
    !d.devices.addressed.any (·.slotId == r.slotId)).zipIdx

/-- A round of `address_enabled_slots`. -/
def addressReport (answers : Nat → AddressAnswer) (r : SlotReport × Nat) (d : Driver) : Driver :=
  let a := answers r.2
  { d with
    devices := addressSlot r.1.slotId r.1.port r.1.speed a.answered a.described d.devices
    slotsOn := if a.answered then d.slotsOn ++ [r.1.foundOn] else d.slotsOn
    addressedOn := d.addressedOn ++ [r.1.foundOn] }

/-- The device at `i` still lacks its configuration. -/
def fetchWork (d : Driver) (i : Nat) : Option (List Nat) :=
  d.devices.addressed[i]?.bind fun a =>
    if a.described && a.config.isNone && (d.devices.slotIndex a.slotId).isSome then
      some (d.foundOn a.slotId)
    else none

/-- The device at `i` still lacks its endpoints. -/
def configureWork (d : Driver) (i : Nat) : Option (List Nat) :=
  d.devices.addressed[i]?.bind fun a =>
    if a.setConfigCc = 1 then none else
    a.config.bind fun cfg => cfg.interfaces.head?.bind fun interface =>
      if (d.devices.slotIndex a.slotId).isSome && interface.endpoints.filterMap setUp ≠ [] then
        some (d.foundOn a.slotId)
      else none

/-- The slot `probe_hid_mouse` binds. -/
def mouseTarget (st : XhciState) : Option Byte :=
  if st.mouse.isSome then none else
  (st.addressed.findSome? (·.candidate Interface.isBootMouse)).bind fun c =>
    (st.slotIndex c.1).bind fun slotIdx =>
      ((st.endpointsAt slotIdx).findIdx? EndpointState.isInterruptIn).map fun _ => c.1

/-- A stage on the record, called with the registers of `info`. -/
def Stage.perform (info : XhciInfo) (d : Driver) : Stage → Driver × List Request
  | resetAndEnableSlots ports =>
      sweep info (fun _ _ => some []) EnabledPort.more (reportPort info) ports
        { d with enumeration := some [] }
  | addressEnabledSlots answers =>
      sweep info (fun _ r => some [r.1.foundOn]) (fun r => (answers r.2).more)
        (addressReport answers) (freshReports d) d
  | fetchConfigurations answers more =>
      sweep info fetchWork more
        (fun i d => { d with devices := fetchConfiguration i (answers i) d.devices })
        (List.range d.devices.addressed.length) d
  | configureEndpoints answers more =>
      sweep info configureWork more
        (fun i d => { d with
          devices := configureDevice i (answers i).1 (answers i).2 d.devices })
        (List.range d.devices.addressed.length) d
  | probeMassStorage more =>
      let (d', requests) := sweep info (fun d t => some (d.foundOn t.slotId)) more (fun _ d => d)
        (mscTargets d.devices) d
      ({ d' with devices := Usb.probeMassStorage d'.devices }, requests)
  | probeHidMouse setProtocol more =>
      let (d', requests) := sweep info (fun d slotId => some (d.foundOn slotId)) (fun _ => more)
        (fun _ d => d) (mouseTarget d.devices).toList d
      ({ d' with devices := Usb.probeHidMouse setProtocol d'.devices }, requests)

/-- The stage finds nothing to do. -/
def Stage.Idle (d : Driver) : Stage → Prop
  | resetAndEnableSlots ports => ports = []
  | addressEnabledSlots _ => freshReports d = []
  | fetchConfigurations _ _ => ∀ i < d.devices.addressed.length, fetchWork d i = none
  | configureEndpoints _ _ => ∀ i < d.devices.addressed.length, configureWork d i = none
  | probeMassStorage _ => mscTargets d.devices = []
  | probeHidMouse _ _ => mouseTarget d.devices = none

/-! ## Calls -/

/-- What the rest of the system calls: the pipeline with the registers of the
controller at hand, and the I/O on what it has found, which takes them from
the record. -/
inductive DriverCall where
  | bringUp (info : XhciInfo) (started : Bool)
  | stage (info : XhciInfo) (s : Stage)
  | driveIo (slotId : Byte) (more : Nat)
  | pollMouse (posts : Bool) (more : Nat)

/-- `STATE`, and the requests made so far. -/
structure UsbSystem where
  driver : Option Driver
  trace : List Request

/-- The slots an I/O call talks to. -/
def DriverCall.ioSlots (st : XhciState) : DriverCall → List Byte
  | driveIo slotId _ =>
      match mscResolveBulk st slotId with
      | .ok _ => [slotId]
      | .error _ => []
  | pollMouse posts _ => if posts then (st.mouse.map (·.slotId)).toList else []
  | _ => []

/-- I/O on a slot, with the registers in the record. -/
def Driver.io (d : Driver) (slots : List Byte) (more : Nat) : Driver × List Request :=
  sweep d.info (fun d slotId => some (d.foundOn slotId)) (fun _ => more) (fun _ d => d) slots d

/-- One call. -/
def UsbSystem.call (s : UsbSystem) (c : DriverCall) : UsbSystem :=
  match s.driver, c with
  | none, .bringUp info started =>
      if info.mmioAccessible && started then { s with driver := some (Driver.fresh info) } else s
  | some d, .stage info stage =>
      if info.mmioAccessible then
        let (d', requests) := stage.perform info d
        { driver := some d', trace := s.trace ++ requests }
      else s
  | some d, .driveIo slotId more =>
      { s with trace := s.trace ++ (d.io ((DriverCall.driveIo slotId more).ioSlots d.devices)
        more).2 }
  | some d, .pollMouse posts more =>
      { s with trace := s.trace ++ (d.io ((DriverCall.pollMouse posts more).ioSlots d.devices)
        more).2 }
  | some _, .bringUp _ _ => s
  | none, _ => s

/-- What one controller and its devices answer to the whole pipeline. -/
structure PipelineAnswers where
  started : Bool
  ports : List EnabledPort
  address : Nat → AddressAnswer
  configuration : Nat → List Byte
  configure : Nat → Byte × Byte

/-- `autopilot_usb_drives`, on one controller. -/
def autopilot (info : XhciInfo) (a : PipelineAnswers) : List DriverCall :=
  [.bringUp info a.started, .stage info (.resetAndEnableSlots a.ports),
    .stage info (.addressEnabledSlots a.address),
    .stage info (.fetchConfigurations a.configuration fun _ => 0),
    .stage info (.configureEndpoints a.configure fun _ => 0),
    .stage info (.probeMassStorage fun _ => 0)]

/-- A run from the boot on. -/
def UsbSystem.run (calls : List DriverCall) : UsbSystem :=
  calls.foldl UsbSystem.call ⟨none, []⟩

end Usb

end TablesOS
