import TablesOS.Base.Bytes

/-!
# Driver and controller over the rings (`usb/xhci.rs`)

The driver is synchronous: it posts one transfer or command, rings the
doorbell and waits. Its code is a `Script`, so that where a buffer is released
and which request follows a failed one can be read off the source. The
controller is the other party of a step relation. It may complete what is
posted at any time, long after the driver has stopped waiting; what the driver
sees of it is one event ring.

A transfer descriptor here is everything one doorbell is rung for: a Normal
TRB, or Setup, Data and Status. `id` stands for the address of its last TRB,
which is what the controller puts into the `parameter` field of the event.
-/

namespace TablesOS

namespace Usb

/-- A slot and the context index of an endpoint in it. -/
structure EndpointId where
  slotId : Byte
  dci : Byte
  deriving DecidableEq, Repr

/-- A transfer descriptor, and the buffers its TRBs name. -/
structure Td where
  id : Nat
  ep : EndpointId
  buffers : List Nat
  deriving DecidableEq, Repr

/-- What the controller makes of an endpoint's ring. A doorbell starts a
stopped endpoint and is ignored by one that is halted or disabled. -/
inductive RingState where
  | disabled
  | running
  | halted
  | stopped
  deriving DecidableEq, Repr

/-- An endpoint's ring: what is posted and neither completed nor skipped. -/
structure TransferRing where
  state : RingState
  queue : List Td
  deriving DecidableEq, Repr

/-- Commands, as far as they concern rings. -/
inductive Command where
  /-- Address Device and Configure Endpoint: fresh rings for these endpoints. -/
  | wire (eps : List EndpointId)
  | resetEndpoint (ep : EndpointId)
  | setTrDequeue (ep : EndpointId)
  /-- Enable Slot and Evaluate Context. -/
  | other
  deriving DecidableEq, Repr

/-- `struct Event` -/
structure Event where
  trbType : Byte
  completionCode : Byte
  slotId : Byte
  /-- The TRB that the event is for. -/
  parameter : Nat
  transferLength : Nat
  deriving DecidableEq, Repr

/-- `struct MouseDevice`, as far as the rings go. -/
structure BoundMouse where
  ep : EndpointId
  reportBuf : Nat
  armed : Bool
  needsReset : Bool
  deriving DecidableEq, Repr

/-! ## The driver's code -/

/-- Driver code that comes to an `α`. A wait is answered with an event or, at
its deadline, with nothing. -/
inductive Script (α : Type) : Type where
  | ret (a : α)
  /-- `DmaBuffer::new`, `alloc_dma` -/
  | alloc (k : Nat → Script α)
  /-- A `DmaBuffer` is dropped. -/
  | free (b : Nat) (k : Script α)
  /-- Post a transfer descriptor, ring, and wait for a Transfer Event. -/
  | transfer (ep : EndpointId) (buffers : List Nat) (k : Option Event → Script α)
  /-- Post a command, ring, and wait for a Command Completion Event. -/
  | command (c : Command) (k : Option Event → Script α)
  /-- Consume every event that is ready. -/
  | drainAll (k : Script α)
  /-- Record the mouse, with its report buffer. -/
  | bindMouse (ep : EndpointId) (reportBuf : Nat) (k : Script α)
  /-- `arm_mouse` -/
  | armMouse (k : Script α)
  /-- Read the mouse record. -/
  | mouse (k : Option BoundMouse → Script α)
  /-- Clear `needs_reset` and `armed`. -/
  | mouseReset (k : Script α)

namespace Script

variable {α β : Type}

def bind : Script α → (α → Script β) → Script β
  | ret a, f => f a
  | alloc k, f => alloc fun b => (k b).bind f
  | free b k, f => free b (k.bind f)
  | transfer ep buffers k, f => transfer ep buffers fun r => (k r).bind f
  | command c k, f => command c fun r => (k r).bind f
  | drainAll k, f => drainAll (k.bind f)
  | bindMouse ep reportBuf k, f => bindMouse ep reportBuf (k.bind f)
  | armMouse k, f => armMouse (k.bind f)
  | mouse k, f => mouse fun m => (k m).bind f
  | mouseReset k, f => mouseReset (k.bind f)

instance : Monad Script where
  pure := ret
  bind := bind

end Script

/-- Success or Short Packet. -/
def Event.accepted (e : Event) : Bool := e.completionCode == 1 || e.completionCode == 13

/-- A command and its wait. -/
def issue (c : Command) : Script (Option Event) := .command c .ret

/-- `control_transfer_once`, on the control endpoint of a slot, with or
without a data stage. -/
def controlTransferOnce (slotId : Byte) (data : Bool) : Script (Option Event) :=
  if data then
    .alloc fun buf => .transfer ⟨slotId, 1⟩ [buf] fun r => .free buf (.ret r)
  else .transfer ⟨slotId, 1⟩ [] .ret

/-- `control_transfer`: `attempts` more after the first. -/
def controlTransfer (slotId : Byte) (data : Bool) : Nat → Script (Option Event)
  | 0 => controlTransferOnce slotId data
  | attempts + 1 => do
      match ← controlTransferOnce slotId data with
      | none => pure none
      | some e =>
          if e.accepted then pure (some e) else do
          let _ ← issue (.resetEndpoint ⟨slotId, 1⟩)
          let _ ← issue (.setTrDequeue ⟨slotId, 1⟩)
          controlTransfer slotId data attempts

/-- `bulk_transfer` -/
def bulkTransfer (ep : EndpointId) (buf : Nat) : Script (Option Event) :=
  .transfer ep [buf] .ret

/-- `reset_bulk_endpoint` -/
def resetBulk (ep : EndpointId) : Script Unit := do
  let _ ← issue (.resetEndpoint ep)
  let _ ← issue (.setTrDequeue ep)
  pure ()

/-- The status stage of `msc_command`: `tries` more after the first. -/
def cswStage (bulkIn : EndpointId) (csw : Nat) : Nat → Script Unit
  | 0 => do
      match ← bulkTransfer bulkIn csw with
      | none => pure ()
      | some e => if e.accepted then pure () else resetBulk bulkIn
  | tries + 1 => do
      match ← bulkTransfer bulkIn csw with
      | none => pure ()
      | some e =>
          if e.accepted then pure () else do
          resetBulk bulkIn
          cswStage bulkIn csw tries

/-- The data stage of `msc_command`; it answers whether to go on. -/
def mscDataStage (bulkIn bulkOut : EndpointId) : Option (Nat × Bool) → Script Bool
  | none => pure true
  | some (buf, dirIn) => do
      let ep := if dirIn then bulkIn else bulkOut
      match ← bulkTransfer ep buf with
      | none => pure false
      | some e =>
          if e.accepted then pure true else do
          resetBulk ep
          pure true

/-- `msc_command`: both wrappers are dropped on every way out. -/
def mscScript (bulkIn bulkOut : EndpointId) (data : Option (Nat × Bool)) : Script Unit :=
  .alloc fun cbw => do
    match ← bulkTransfer bulkOut cbw with
    | none => .free cbw (pure ())
    | some e =>
        if e.completionCode ≠ 1 then do
          resetBulk bulkOut
          .free cbw (pure ())
        else do
          if ← mscDataStage bulkIn bulkOut data then
            .alloc fun csw => do
              cswStage bulkIn csw 1
              .free csw (.free cbw (pure ()))
          else .free cbw (pure ())

/-- A SCSI command: `scsi_read10` and its siblings own the data buffer. -/
def scsiScript (bulkIn bulkOut : EndpointId) : Option Bool → Script Unit
  | none => mscScript bulkIn bulkOut none
  | some dirIn => .alloc fun buf => do
      mscScript bulkIn bulkOut (some (buf, dirIn))
      .free buf (pure ())

/-- The end of `probe_hid_mouse`: the report buffer stays. -/
def bindMouseScript (ep : EndpointId) : Script Unit :=
  .mouse fun m =>
    if m.isSome then pure ()
    else .alloc fun reportBuf => .bindMouse ep reportBuf (.armMouse (pure ()))

/-- `poll_mouse_delta` -/
def pollMouseScript : Script Unit :=
  .mouse fun
    | none => pure ()
    | some m =>
        if m.needsReset then do
          resetBulk m.ep
          .mouseReset (.drainAll (.armMouse (pure ())))
        else .drainAll (.armMouse (pure ()))

/-- The calls that make requests. -/
inductive RingCall where
  /-- `issue_enable_slot`, `issue_address_device`, `evaluate_max_packet`, the
  Configure Endpoint command. -/
  | command (c : Command)
  | control (slotId : Byte) (data : Bool)
  | scsi (bulkIn bulkOut : EndpointId) (dirIn : Option Bool)
  | bindMouse (ep : EndpointId)
  | pollMouse
  deriving DecidableEq, Repr

def RingCall.script : RingCall → Script Unit
  | command c => do
      let _ ← issue c
      pure ()
  | control slotId data => do
      let _ ← controlTransfer slotId data 2
      pure ()
  | scsi bulkIn bulkOut dirIn => scsiScript bulkIn bulkOut dirIn
  | bindMouse ep => bindMouseScript ep
  | pollMouse => pollMouseScript

/-! ## Driver and controller together -/

/-- Where the driver is. -/
inductive Control where
  | at (p : Script Unit)
  /-- In `drain_event`, for events of type `want`; `own` was posted. -/
  | wait (want : Byte) (own : Nat) (k : Option Event → Script Unit)

/-- Both parties, and what is between them. -/
structure Bus where
  control : Control
  mouse : Option BoundMouse
  /-- The first number not used for a request or a buffer. -/
  next : Nat
  released : List Nat
  rings : EndpointId → TransferRing
  commands : List (Nat × Command)
  events : List Event
  /-- For every wait that was answered, what was posted and what the event
  was for. -/
  answered : List (Nat × Nat)

/-- A controller that has been started and knows no device. -/
def Bus.fresh : Bus where
  control := .at (.ret ())
  mouse := none
  next := 0
  released := []
  rings _ := ⟨.disabled, []⟩
  commands := []
  events := []
  answered := []

/-- `is_mouse_slot`, of a Transfer Event. -/
def Bus.isMouseEvent (s : Bus) (e : Event) : Bool :=
  e.trbType == 32 && s.mouse.any (·.ep.slotId == e.slotId)

/-- `service_mouse` -/
def Bus.serviceMouse (s : Bus) (e : Event) : Option BoundMouse :=
  s.mouse.map fun m =>
    if e.accepted then { m with armed := false } else { m with armed := false, needsReset := true }

/-- The ring of an endpoint after a doorbell. -/
def TransferRing.ring (r : TransferRing) (td : Td) : TransferRing where
  state := if r.state = .stopped then .running else r.state
  queue := r.queue ++ [td]

/-- One more transfer descriptor on a ring, and the doorbell. -/
def Bus.post (s : Bus) (td : Td) : EndpointId → TransferRing :=
  fun ep => if ep = td.ep then (s.rings ep).ring td else s.rings ep

/-- What a command that succeeds does to the ring of an endpoint. -/
def Command.effect (c : Command) (ep : EndpointId) (r : TransferRing) : TransferRing :=
  match c with
  | wire eps => if ep ∈ eps then ⟨.running, []⟩ else r
  | resetEndpoint ep' =>
      if ep = ep' ∧ r.state = .halted then { r with state := .stopped } else r
  | setTrDequeue ep' => if ep = ep' ∧ r.state = .stopped then { r with queue := [] } else r
  | other => r

/-- Who moves. -/
inductive Act where
  | begin (c : RingCall)
  | driver
  | deadline
  | controller
  deriving DecidableEq, Repr

/-- One step of either party. -/
inductive Bus.Step : Bus → Act → Bus → Prop
  | begin {s : Bus} (c : RingCall) (h : s.control = .at (.ret ())) :
      Step s (.begin c) { s with control := .at c.script }
  | alloc {s : Bus} {k : Nat → Script Unit} (h : s.control = .at (.alloc k)) :
      Step s .driver { s with control := .at (k s.next), next := s.next + 1 }
  | free {s : Bus} {b : Nat} {k : Script Unit} (h : s.control = .at (.free b k)) :
      Step s .driver { s with control := .at k, released := b :: s.released }
  | transfer {s : Bus} {ep : EndpointId} {buffers : List Nat} {k : Option Event → Script Unit}
      (h : s.control = .at (.transfer ep buffers k)) :
      Step s .driver { s with
        control := .wait 32 s.next k
        next := s.next + 1
        rings := s.post ⟨s.next, ep, buffers⟩ }
  | command {s : Bus} {c : Command} {k : Option Event → Script Unit}
      (h : s.control = .at (.command c k)) :
      Step s .driver { s with
        control := .wait 33 s.next k
        next := s.next + 1
        commands := s.commands ++ [(s.next, c)] }
  | drained {s : Bus} {k : Script Unit} (h : s.control = .at (.drainAll k)) (he : s.events = []) :
      Step s .driver { s with control := .at k }
  | drainMouse {s : Bus} {k : Script Unit} {e : Event} {es : List Event}
      (h : s.control = .at (.drainAll k)) (he : s.events = e :: es)
      (hm : s.isMouseEvent e = true) :
      Step s .driver { s with events := es, mouse := s.serviceMouse e }
  | drainDrop {s : Bus} {k : Script Unit} {e : Event} {es : List Event}
      (h : s.control = .at (.drainAll k)) (he : s.events = e :: es)
      (hm : s.isMouseEvent e = false) :
      Step s .driver { s with events := es }
  | bindMouse {s : Bus} {ep : EndpointId} {reportBuf : Nat} {k : Script Unit}
      (h : s.control = .at (.bindMouse ep reportBuf k)) :
      Step s .driver { s with control := .at k, mouse := some ⟨ep, reportBuf, false, false⟩ }
  | armMouse {s : Bus} {k : Script Unit} {m : BoundMouse} (h : s.control = .at (.armMouse k))
      (hm : s.mouse = some m) (ha : m.armed = false) :
      Step s .driver { s with
        control := .at k
        mouse := some { m with armed := true }
        next := s.next + 1
        rings := s.post ⟨s.next, m.ep, [m.reportBuf]⟩ }
  | armedMouse {s : Bus} {k : Script Unit} (h : s.control = .at (.armMouse k))
      (hm : ∀ m, s.mouse = some m → m.armed = true) :
      Step s .driver { s with control := .at k }
  | mouse {s : Bus} {k : Option BoundMouse → Script Unit} (h : s.control = .at (.mouse k)) :
      Step s .driver { s with control := .at (k s.mouse) }
  | mouseReset {s : Bus} {k : Script Unit} (h : s.control = .at (.mouseReset k)) :
      Step s .driver { s with
        control := .at k
        mouse := s.mouse.map fun m => { m with armed := false, needsReset := false } }
  | service {s : Bus} {want : Byte} {own : Nat} {k : Option Event → Script Unit} {e : Event}
      {es : List Event} (h : s.control = .wait want own k) (he : s.events = e :: es)
      (hm : s.isMouseEvent e = true) :
      Step s .driver { s with events := es, mouse := s.serviceMouse e }
  | answer {s : Bus} {want : Byte} {own : Nat} {k : Option Event → Script Unit} {e : Event}
      {es : List Event} (h : s.control = .wait want own k) (he : s.events = e :: es)
      (hm : s.isMouseEvent e = false) (ht : e.trbType = want) :
      Step s .driver { s with
        control := .at (k (some e))
        events := es
        answered := (own, e.parameter) :: s.answered }
  | skip {s : Bus} {want : Byte} {own : Nat} {k : Option Event → Script Unit} {e : Event}
      {es : List Event} (h : s.control = .wait want own k) (he : s.events = e :: es)
      (hm : s.isMouseEvent e = false) (ht : e.trbType ≠ want) :
      Step s .driver { s with events := es }
  | deadline {s : Bus} {want : Byte} {own : Nat} {k : Option Event → Script Unit}
      (h : s.control = .wait want own k) (he : s.events = []) :
      Step s .deadline { s with control := .at (k none) }
  /-- The descriptor at the head of a running ring is done with: an error
  leaves it there and halts the endpoint. -/
  | complete {s : Bus} (ep : EndpointId) {td : Td} {tds : List Td} (cc : Byte) (length : Nat)
      (hr : s.rings ep = ⟨.running, td :: tds⟩) :
      Step s .controller { s with
        rings := fun ep' =>
          if ep' = ep then
            if cc = 1 ∨ cc = 13 then ⟨.running, tds⟩ else ⟨.halted, td :: tds⟩
          else s.rings ep'
        events := s.events ++ [⟨32, cc, ep.slotId, td.id, length⟩] }
  | execute {s : Bus} {id : Nat} {c : Command} {cs : List (Nat × Command)} (cc slotId : Byte)
      (hc : s.commands = (id, c) :: cs) :
      Step s .controller { s with
        rings := fun ep => if cc = 1 then c.effect ep (s.rings ep) else s.rings ep
        commands := cs
        events := s.events ++ [⟨33, cc, slotId, id, 0⟩] }
  /-- A Port Status Change Event, or another of that kind. -/
  | notify {s : Bus} (e : Event) (h : e.trbType ≠ 32 ∧ e.trbType ≠ 33) :
      Step s .controller { s with events := s.events ++ [e] }

end Usb

end TablesOS
