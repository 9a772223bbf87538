import TablesOS.Kernel.Descriptors
import TablesOS.Kernel.TrbRing
import Mathlib.Logic.Function.Basic

/-!
# The input context of a device (`usb/xhci.rs`)

What the controller is told about a device is a buffer of 33 entries: which
contexts a command is about, the context of the slot, and one for each of its
endpoints. `build_slot_resources` fills in the first three; `configure_endpoints`
takes the same buffer, writes an entry for each endpoint of the interface at a
place computed from the endpoint's address, and patches the slot context. Beside
it the driver keeps a record of each endpoint with the ring it allocated for it.
-/

namespace TablesOS

namespace Usb

/-! ## The buffer -/

/-- The buffer, by the double word. -/
abbrev InputContext := Nat → UInt32

/-- `entry_size / 4` -/
def entryWords (csz64 : Bool) : Nat := if csz64 then 16 else 8

/-- Where double word `k` of an entry is. -/
def wordIndex (csz64 : Bool) (entry k : Nat) : Nat := entryWords csz64 * entry + k

namespace InputContext

/-- What `alloc_dma` leaves. -/
def zeroed : InputContext := fun _ => 0

def dword (c : InputContext) (csz64 : Bool) (entry k : Nat) : UInt32 :=
  c (wordIndex csz64 entry k)

def write (c : InputContext) (csz64 : Bool) (entry k : Nat) (v : UInt32) : InputContext :=
  Function.update c (wordIndex csz64 entry k) v

/-- A `u64`, least half first. -/
def write64 (c : InputContext) (csz64 : Bool) (entry k : Nat) (v : UInt64) : InputContext :=
  (c.write csz64 entry k v.toUInt32).write csz64 entry (k + 1) (v >>> 32).toUInt32

/-- The `u64` there. -/
def qword (c : InputContext) (csz64 : Bool) (entry k : Nat) : UInt64 :=
  (c.dword csz64 entry k).toUInt64 ||| ((c.dword csz64 entry (k + 1)).toUInt64 <<< 32)

/-- The loop that zeroes an entry. -/
def zeroEntry (c : InputContext) (csz64 : Bool) (entry : Nat) : InputContext :=
  (List.range (entryWords csz64)).foldl (fun c k => c.write csz64 entry k 0) c

end InputContext

/-- Speed, bits 20..24 of the slot context's first double word. -/
def slotSpeed (dw0 : UInt32) : UInt32 := (dw0 >>> 20) &&& 0xF

/-- Root Hub Port Number, bits 16..24 of its second. -/
def slotPort (dw1 : UInt32) : UInt32 := (dw1 >>> 16) &&& 0xFF

/-! ## A device as it is addressed -/

/-- `struct EndpointState`, with its transfer ring. -/
structure EndpointRecord extends EndpointState where
  trRing : UInt64
  position : RingPosition
  deriving DecidableEq, Repr

/-- `struct SlotResources`, as far as its contexts go. -/
structure SlotContexts where
  slotId : Byte
  port : Byte
  speed : Byte
  inputCtx : InputContext
  endpoints : List EndpointRecord

/-- `build_slot_resources`, with the control endpoint's ring at `trRing`. -/
def buildSlotResources (csz64 : Bool) (slotId port speed : Byte) (maxPkt : UInt16)
    (trRing : UInt64) : SlotContexts :=
  let inputCtx := InputContext.zeroed
    |>.write csz64 0 0 0
    |>.write csz64 0 1 0b11
    |>.write csz64 1 0 (field speed.toUInt32 20 ||| field 1 27)
    |>.write csz64 1 1 (field port.toUInt32 16)
    |>.write csz64 1 2 0
    |>.write csz64 1 3 0
    |>.write csz64 2 0 0
    |>.write csz64 2 1 (field 3 1 ||| field 4 3 ||| field maxPkt.toUInt32 16)
    |>.write64 csz64 2 2 (trRing ||| 1)
    |>.write csz64 2 4 8
  ⟨slotId, port, speed, inputCtx, []⟩

/-! ## Endpoints -/

/-- The loop of `xhci_interval`, with `left` rounds to go until `n` is 10. -/
def intervalLoop (microframes : UInt32) : Nat → Byte → Byte
  | 0, n => n
  | left + 1, n =>
      if (1 : UInt32) <<< (n + 1).toUInt32 ≤ microframes then intervalLoop microframes left (n + 1)
      else n

/-- `xhci_interval` -/
def xhciInterval (speed transferType bInterval : Byte) : Byte :=
  if transferType ≠ 3 ∧ transferType ≠ 1 then 0
  else if speed = 1 ∨ speed = 2 then
    max 3 (min (intervalLoop ((max bInterval 1).toUInt32 * 8) 10 0) 10)
  else min (max bInterval 1 - 1) 15

/-- Interrupt and isochronous endpoints. -/
def isPeriodic (transferType : Byte) : Bool := transferType == 3 || transferType == 1

/-- The index of an endpoint's context in the device context. -/
def Endpoint.dci (ep : Endpoint) : Byte := 2 * ep.number + (if ep.directionIn then 1 else 0)

/-- The five double words an endpoint context is given. -/
def fillEntry (csz64 : Bool) (speed : Byte) (ep : Endpoint) (epType : Byte) (tr : UInt64)
    (entry : Nat) (c : InputContext) : InputContext :=
  let interval := xhciInterval speed ep.transferType ep.interval
  let maxPacket := UInt32.ofNat ep.maxPacketSize
  let esit := if isPeriodic ep.transferType then maxPacket else 0
  c.zeroEntry csz64 entry
    |>.write csz64 entry 0 (field interval.toUInt32 16)
    |>.write csz64 entry 1 (field 3 1 ||| field epType.toUInt32 3 ||| field maxPacket 16)
    |>.write64 csz64 entry 2 (tr ||| 1)
    |>.write csz64 entry 4 (maxPacket ||| field esit 16)

/-- The locals of the loop over the endpoints, and how many rings it has
allocated. -/
structure Filling where
  inputCtx : InputContext
  newEndpoints : List EndpointRecord
  maxDci : Byte
  addFlags : UInt32
  rings : Nat

/-- Before the loop: A0 is set. -/
def Filling.start (c : InputContext) : Filling := ⟨c, [], 1, 1, 0⟩

/-- One round of the loop; `alloc` is where the rings come to be. -/
def fillEndpoint (csz64 : Bool) (speed : Byte) (alloc : Nat → UInt64) (f : Filling)
    (ep : Endpoint) : Filling :=
  let epType := xhciEpType ep.transferType ep.directionIn
  -- Skip "Not Valid" combos.
  if epType = 0 then f else
  let tr := alloc f.rings
  { inputCtx := fillEntry csz64 speed ep epType tr (ep.dci.toNat + 1) f.inputCtx
    newEndpoints := f.newEndpoints ++
      [{ address := ep.address
         dci := ep.dci
         transferType := ep.transferType
         maxPacketSize := ep.maxPacketSize
         directionIn := ep.directionIn
         trRing := tr
         position := .fresh }]
    maxDci := if f.maxDci < ep.dci then ep.dci else f.maxDci
    addFlags := f.addFlags ||| field 1 ep.dci.toUInt32
    rings := f.rings + 1 }

/-- The loop of `configure_endpoints` over the endpoints of an interface. -/
def fillEndpoints (csz64 : Bool) (speed : Byte) (alloc : Nat → UInt64) (c : InputContext)
    (it : Interface) : Filling :=
  it.endpoints.foldl (fillEndpoint csz64 speed alloc) (.start c)

/-- Context Entries of the slot context, "without disturbing Speed / Hub /
Route String". -/
def bumpEntries (dw0 : UInt32) (maxDci : Byte) : UInt32 :=
  (dw0 &&& ~~~(field 0x1F 27)) ||| field maxDci.toUInt32 27

/-- The input control context and the slot context, once the loop is through. -/
def closeContext (csz64 : Bool) (f : Filling) : InputContext :=
  let c := (f.inputCtx.write csz64 0 0 0).write csz64 0 1 f.addFlags
  c.write csz64 1 0 (bumpEntries (c.dword csz64 1 0) f.maxDci)

/-- What `configure_endpoints` makes of a slot for an interface, the Configure
Endpoint command having been answered with `cfgEpCc` (0 where no answer came).
`none` where there is no endpoint to set up: no command is issued. -/
def configureSlot (csz64 : Bool) (alloc : Nat → UInt64) (res : SlotContexts) (it : Interface)
    (cfgEpCc : Byte) : Option SlotContexts :=
  let f := fillEndpoints csz64 res.speed alloc res.inputCtx it
  if f.newEndpoints.isEmpty then none else
  some
    { res with
      inputCtx := closeContext csz64 f
      endpoints := if cfgEpCc = 1 then f.newEndpoints else res.endpoints }

end Usb

end TablesOS
