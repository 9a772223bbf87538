import TablesOS.Base.Bytes
import TablesOS.Base.Outcome

/-!
# USB devices as the driver records them (`usb/xhci.rs`)

Three walks over a configuration descriptor: `parse_configuration` makes
interface records of its bytes, `configure_endpoints` sets up the endpoints of
the first record, and the two probes look for a record of their class and then
pick endpoints among those set up. What the controller and the device answer
(completion codes, descriptor bytes) is an argument of each step.
-/

namespace TablesOS

namespace Usb

/-- `struct Endpoint` -/
structure Endpoint where
  address : Byte
  directionIn : Bool
  number : Byte
  /-- 0 control, 1 isochronous, 2 bulk, 3 interrupt. -/
  transferType : Byte
  maxPacketSize : Nat
  interval : Byte
  deriving DecidableEq, Repr

/-- `struct Interface` -/
structure Interface where
  number : Byte
  altSetting : Byte
  cls : Byte
  subclass : Byte
  protocol : Byte
  endpoints : List Endpoint
  deriving DecidableEq, Repr

/-- `struct Configuration` -/
structure Configuration where
  totalLength : Nat
  numInterfaces : Byte
  configValue : Byte
  attributes : Byte
  maxPowerMa : Nat
  interfaces : List Interface
  deriving DecidableEq, Repr

/-! ## Parsing -/

/-- `u16::from_le_bytes` at `o`. -/
def le16 (b : List Byte) (o : Nat) : Nat := (b.getD o 0).toNat + 256 * (b.getD (o + 1) 0).toNat

/-- An interface descriptor (type 4, at least nine bytes). -/
def parseInterface (b : List Byte) : Interface where
  number := b.getD 2 0
  altSetting := b.getD 3 0
  cls := b.getD 5 0
  subclass := b.getD 6 0
  protocol := b.getD 7 0
  endpoints := []

/-- An endpoint descriptor (type 5, at least seven bytes). -/
def parseEndpoint (b : List Byte) : Endpoint where
  address := b.getD 2 0
  directionIn := b.getD 2 0 &&& 0x80 ≠ 0
  number := b.getD 2 0 &&& 0x0F
  transferType := b.getD 3 0 &&& 0x03
  maxPacketSize := le16 b 4 % 0x800
  interval := b.getD 6 0

/-- The loop of `parse_configuration` over what is left of the buffer, with
the interface being filled in and those finished. Each round takes at least
one byte, so the length of the buffer is fuel enough. -/
def walk : Nat → List Byte → Option Interface → List Interface → List Interface
  | fuel + 1, len :: dtype :: rest, current, interfaces =>
      let b := len :: dtype :: rest
      if len = 0 ∨ b.length < len.toNat then interfaces ++ current.toList
      else if dtype = 4 ∧ 9 ≤ len then
        walk fuel (b.drop len.toNat) (some (parseInterface b)) (interfaces ++ current.toList)
      else if dtype = 5 ∧ 7 ≤ len then
        walk fuel (b.drop len.toNat)
          (current.map fun it => { it with endpoints := it.endpoints ++ [parseEndpoint b] })
          interfaces
      else walk fuel (b.drop len.toNat) current interfaces
  | _, _, current, interfaces => interfaces ++ current.toList

/-- `parse_configuration` -/
def parseConfiguration (b : List Byte) : Option Configuration :=
  if b.length < 9 ∨ b.getD 0 0 < 9 ∨ b.getD 1 0 ≠ 2 then none else
  some
    { totalLength := le16 b 2
      numInterfaces := b.getD 4 0
      configValue := b.getD 5 0
      attributes := b.getD 7 0
      maxPowerMa := (b.getD 8 0).toNat * 2
      interfaces := walk b.length (b.drop 9) none [] }

/-! The same walk by position, with every index checked: a byte outside the
buffer is a panic, and so is not ending. -/

/-- `b[i]` -/
def byteAt (b : List Byte) (i : Nat) : Outcome Empty Byte := Outcome.unwrap b[i]?

/-- `u16::from_le_bytes([b[i], b[i + 1]])` -/
def le16At (b : List Byte) (i : Nat) : Outcome Empty Nat := do
  let lo ← byteAt b i
  let hi ← byteAt b (i + 1)
  pure (lo.toNat + 256 * hi.toNat)

def interfaceAt (b : List Byte) (pos : Nat) : Outcome Empty Interface := do
  let number ← byteAt b (pos + 2)
  let altSetting ← byteAt b (pos + 3)
  let cls ← byteAt b (pos + 5)
  let subclass ← byteAt b (pos + 6)
  let protocol ← byteAt b (pos + 7)
  pure ⟨number, altSetting, cls, subclass, protocol, []⟩

def endpointAt (b : List Byte) (pos : Nat) : Outcome Empty Endpoint := do
  let address ← byteAt b (pos + 2)
  let attributes ← byteAt b (pos + 3)
  let packet ← le16At b (pos + 4)
  let interval ← byteAt b (pos + 6)
  pure ⟨address, address &&& 0x80 ≠ 0, address &&& 0x0F, attributes &&& 0x03, packet % 0x800,
    interval⟩

/-- The loop of `parse_configuration`, at `pos`. -/
def walkAt (b : List Byte) :
    Nat → Nat → Option Interface → List Interface → Outcome Empty (List Interface)
  | 0, _, _, _ => .diverge
  | fuel + 1, pos, current, interfaces =>
      if b.length < pos + 2 then pure (interfaces ++ current.toList) else do
      let len ← byteAt b pos
      if len = 0 ∨ b.length < pos + len.toNat then pure (interfaces ++ current.toList) else do
      let dtype ← byteAt b (pos + 1)
      if dtype = 4 ∧ 9 ≤ len then do
        let it ← interfaceAt b pos
        walkAt b fuel (pos + len.toNat) (some it) (interfaces ++ current.toList)
      else if dtype = 5 ∧ 7 ≤ len then
        match current with
        | none => walkAt b fuel (pos + len.toNat) none interfaces
        | some it => do
            let ep ← endpointAt b pos
            walkAt b fuel (pos + len.toNat) (some { it with endpoints := it.endpoints ++ [ep] })
              interfaces
      else walkAt b fuel (pos + len.toNat) current interfaces

/-- `parse_configuration`, with every index checked. -/
def parseConfigurationAt (b : List Byte) : Outcome Empty (Option Configuration) :=
  if b.length < 9 then pure none else do
  let length ← byteAt b 0
  let type ← byteAt b 1
  if length < 9 ∨ type ≠ 2 then pure none else do
  let totalLength ← le16At b 2
  let numInterfaces ← byteAt b 4
  let configValue ← byteAt b 5
  let attributes ← byteAt b 7
  let maxPower ← byteAt b 8
  let interfaces ← walkAt b (b.length + 1) 9 none []
  pure (some ⟨totalLength, numInterfaces, configValue, attributes, maxPower.toNat * 2, interfaces⟩)

/-! ## The driver's record of slots and devices -/

/-- `struct EndpointState`, without its transfer ring. -/
structure EndpointState where
  address : Byte
  dci : Byte
  transferType : Byte
  maxPacketSize : Nat
  directionIn : Bool
  deriving DecidableEq, Repr

/-- `struct SlotResources`, without its memory. -/
structure SlotResources where
  slotId : Byte
  port : Byte
  speed : Byte
  endpoints : List EndpointState
  deriving DecidableEq, Repr

/-- `struct AddressedDevice`, as far as the later steps read it. -/
structure AddressedDevice where
  slotId : Byte
  port : Byte
  speed : Byte
  /-- A device descriptor was fetched. -/
  described : Bool
  config : Option Configuration
  configureEndpointCc : Byte
  setConfigCc : Byte
  deriving DecidableEq, Repr

/-- `struct MouseDevice`, without its buffer and counters. -/
structure MouseDevice where
  slotIdx : Nat
  epIdx : Nat
  slotId : Byte
  reportLen : Nat
  deriving DecidableEq, Repr

/-- What a mass-storage probe was made of. -/
structure MscTarget where
  slotId : Byte
  interfaceNumber : Byte
  slotIdx : Nat
  bulkInIdx : Nat
  bulkOutIdx : Nat
  deriving DecidableEq, Repr

/-- `struct XhciState`, as far as devices go. -/
structure XhciState where
  slots : List SlotResources
  addressed : List AddressedDevice
  msc : List MscTarget
  mouse : Option MouseDevice
  deriving DecidableEq, Repr

/-- The record a bring-up starts with. -/
def XhciState.fresh : XhciState := ⟨[], [], [], none⟩

/-- `st.slots.iter().position(|s| s.slot_id == slot_id)` -/
def XhciState.slotIndex (st : XhciState) (slotId : Byte) : Option Nat :=
  st.slots.findIdx? (·.slotId == slotId)

/-- The endpoints of the slot at an index. -/
def XhciState.endpointsAt (st : XhciState) (slotIdx : Nat) : List EndpointState :=
  (st.slots[slotIdx]?).elim [] (·.endpoints)

/-- One round of `address_enabled_slots`: a slot enabled on a port is recorded;
its resources are kept when Address Device was answered. -/
def addressSlot (slotId port speed : Byte) (answered described : Bool) (st : XhciState) :
    XhciState :=
  { st with
    slots := if answered then st.slots ++ [⟨slotId, port, speed, []⟩] else st.slots
    addressed := st.addressed ++
      [⟨slotId, port, speed, answered && described, none, 0, 0⟩] }

/-- One round of `fetch_configurations`, on the device at `i`, that read
`bytes`. -/
def fetchConfiguration (i : Nat) (bytes : List Byte) (st : XhciState) : XhciState :=
  match st.addressed[i]? with
  | none => st
  | some d =>
      if d.described && d.config.isNone && (st.slotIndex d.slotId).isSome then
        let d' := { d with config := parseConfiguration bytes }
        { st with addressed := st.addressed.set i d' }
      else st

/-- `xhci_ep_type` -/
def xhciEpType (transferType : Byte) (directionIn : Bool) : Byte :=
  if transferType = 0 then 4
  else if transferType = 1 then (if directionIn then 5 else 1)
  else if transferType = 2 then (if directionIn then 6 else 2)
  else if transferType = 3 then (if directionIn then 7 else 3)
  else 0

/-- The state `configure_endpoints` makes of an endpoint descriptor. -/
def setUp (ep : Endpoint) : Option EndpointState :=
  if xhciEpType ep.transferType ep.directionIn = 0 then none else
  some
    { address := ep.address
      dci := 2 * ep.number + (if ep.directionIn then 1 else 0)
      transferType := ep.transferType
      maxPacketSize := ep.maxPacketSize
      directionIn := ep.directionIn }

/-- One round of `configure_endpoints`, on the device at `i`: `cfgEpCc` is the
completion code of Configure Endpoint and `setCc` the one of
SET_CONFIGURATION, 0 where none arrived. -/
def configureDevice (i : Nat) (cfgEpCc setCc : Byte) (st : XhciState) : XhciState :=
  match st.addressed[i]? with
  | none => st
  | some d =>
      if d.setConfigCc = 1 then st else
      match d.config with
      | none => st
      | some cfg =>
          match cfg.interfaces with
          | [] => st
          | interface :: _ =>
              match st.slotIndex d.slotId with
              | none => st
              | some slotIdx =>
                  -- Use the first interface's first alt setting (alt 0).
                  let newEndpoints := interface.endpoints.filterMap setUp
                  if newEndpoints = [] then st else
                  let setCc := if cfgEpCc = 1 then setCc else 0
                  let d' := { d with configureEndpointCc := cfgEpCc, setConfigCc := setCc }
                  { st with
                    slots := st.slots.modify slotIdx fun s =>
                      if cfgEpCc = 1 then { s with endpoints := newEndpoints } else s
                    addressed := st.addressed.set i d' }

/-- `configure_endpoints` -/
def configureEndpoints (answers : Nat → Byte × Byte) (st : XhciState) : XhciState :=
  (List.range st.addressed.length).foldl
    (fun st i => configureDevice i (answers i).1 (answers i).2 st) st

/-! ## The two probes -/

/-- A HID boot mouse. -/
def Interface.isBootMouse (ifd : Interface) : Bool :=
  ifd.cls == 0x03 && ifd.subclass == 0x01 && ifd.protocol == 0x02

/-- SCSI over Bulk-Only Transport. -/
def Interface.isMassStorage (ifd : Interface) : Bool :=
  ifd.cls == 0x08 && ifd.subclass == 0x06 && ifd.protocol == 0x50

def EndpointState.isInterruptIn (e : EndpointState) : Bool :=
  e.directionIn && e.transferType == 3

def EndpointState.isBulkIn (e : EndpointState) : Bool :=
  e.directionIn && e.transferType == 2

def EndpointState.isBulkOut (e : EndpointState) : Bool :=
  !e.directionIn && e.transferType == 2

/-- The first interface of a configured device that matches, with the slot of
the device. -/
def AddressedDevice.candidate (P : Interface → Bool) (d : AddressedDevice) :
    Option (Byte × Byte) :=
  if d.setConfigCc = 1 then
    d.config.bind fun c => (c.interfaces.find? P).map fun ifd => (d.slotId, ifd.number)
  else none

/-- `probe_hid_mouse`: `setProtocol` says whether SET_PROTOCOL was answered. -/
def probeHidMouse (setProtocol : Bool) (st : XhciState) : XhciState :=
  if st.mouse.isSome then st else
  match st.addressed.findSome? (·.candidate Interface.isBootMouse) with
  | none => st
  | some (slotId, _) =>
      match st.slotIndex slotId with
      | none => st
      | some slotIdx =>
          match (st.endpointsAt slotIdx).findIdx? EndpointState.isInterruptIn with
          | none => st
          | some epIdx =>
              if !setProtocol then st else
              let maxPacketSize := (((st.endpointsAt slotIdx)[epIdx]?).elim 0
                (·.maxPacketSize))
              { st with
                mouse := some ⟨slotIdx, epIdx, slotId, min (max maxPacketSize 4) 8⟩ }

/-- `msc_resolve_bulk` -/
def mscResolveBulk (st : XhciState) (slotId : Byte) : Except String (Nat × Nat × Nat) :=
  match st.slotIndex slotId with
  | none => .error "no such slot"
  | some slotIdx =>
      match (st.endpointsAt slotIdx).findIdx? EndpointState.isBulkIn with
      | none => .error "slot has no bulk IN endpoint"
      | some bulkInIdx =>
          match (st.endpointsAt slotIdx).findIdx? EndpointState.isBulkOut with
          | none => .error "slot has no bulk OUT endpoint"
          | some bulkOutIdx => .ok (slotIdx, bulkInIdx, bulkOutIdx)

/-- The devices `probe_mass_storage` talks to, and the endpoints it uses. -/
def mscTargets (st : XhciState) : List MscTarget :=
  (st.addressed.filterMap (·.candidate Interface.isMassStorage)).filterMap fun c =>
    match mscResolveBulk st c.1 with
    | .error _ => none
    | .ok (slotIdx, bulkInIdx, bulkOutIdx) =>
        some ⟨c.1, c.2, slotIdx, bulkInIdx, bulkOutIdx⟩

/-- `probe_mass_storage`: a probe is recorded for every target, whatever the
commands to it came to. -/
def probeMassStorage (st : XhciState) : XhciState := { st with msc := mscTargets st }

/-! ## Runs -/

/-- One step of the pipeline. The controller hands out slot ids that are not
in use. -/
inductive Step : XhciState → XhciState → Prop
  | address {st : XhciState} (slotId port speed : Byte) (answered described : Bool)
      (fresh : ∀ d ∈ st.addressed, d.slotId ≠ slotId) :
      Step st (addressSlot slotId port speed answered described st)
  | fetch {st : XhciState} (i : Nat) (bytes : List Byte) :
      Step st (fetchConfiguration i bytes st)
  | configure {st : XhciState} (answers : Nat → Byte × Byte) :
      Step st (configureEndpoints answers st)
  | probeMouse {st : XhciState} (setProtocol : Bool) : Step st (probeHidMouse setProtocol st)
  | probeMsc {st : XhciState} : Step st (probeMassStorage st)

/-- The records the pipeline can come to, in any order of steps. -/
inductive Reachable : XhciState → Prop
  | fresh : Reachable XhciState.fresh
  | step {st st' : XhciState} : Reachable st → Step st st' → Reachable st'

end Usb

end TablesOS
