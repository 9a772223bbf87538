import TablesOS.Kernel.Rings

/-!
# Mouse reports (`usb/xhci.rs`)

A bound mouse has one interrupt endpoint and one report buffer. The controller
writes a report into the buffer when it completes a TRB of that endpoint, and
puts an event on the event ring, which it shares with every disk and every
command. Whoever drains the ring comes upon it: a wait for something else sets
the report aside, a poll does so too, recovers the endpoint if a completion was
an error, posts the next TRB and returns what was set aside.

The driver is a program counter and the record of the mouse; it takes one step
at a time, and between any two of them the controller may complete a TRB, carry
out a command or announce something else. TRBs of the endpoint are counted from
when the mouse was bound: `posted` by the driver, `dequeue` the controller's
place. Of the other traffic only its events are left, which may come at any
time; none of them is a Transfer Event of the mouse's slot.
-/

namespace TablesOS

namespace Usb

/-! ## What a report says -/

/-- `struct MouseDelta` -/
structure MouseDelta where
  dx : Int
  dy : Int
  left : Bool
  right : Bool
  deriving DecidableEq, Repr

/-- `(b as i8) as i32` -/
def signedByte (b : Byte) : Int := if b.toNat < 128 then b.toNat else (b.toNat : Int) - 256

/-- The buttons, dX and dY of a boot-protocol report. A byte that the device
did not send says nothing. -/
def reportDelta (bytes : List Byte) : MouseDelta where
  dx := signedByte (bytes.getD 1 0)
  dy := signedByte (bytes.getD 2 0)
  left := bytes.getD 0 0 &&& 0x01 ≠ 0
  right := bytes.getD 0 0 &&& 0x02 ≠ 0

/-- Success or Short Packet. -/
def isReport (cc : Byte) : Bool := cc == 1 || cc == 13

/-! ## Both parties -/

/-- `struct MouseDevice`, without where it is. -/
structure MouseRecord where
  armed : Bool
  needsReset : Bool
  accumDx : Int
  accumDy : Int
  buttons : Byte
  dirty : Bool
  deriving DecidableEq, Repr

/-- What comes after a wait: nothing that concerns the mouse, or the next
step of `reset_bulk_endpoint` in a poll. -/
inductive AfterWait where
  | idle
  | setDequeue
  | clear
  deriving DecidableEq, Repr

/-- The loops that consume events: the one of `drain_event`, and the one of
`poll_mouse_delta`. -/
inductive EventLoop where
  | wait (want : Byte) (after : AfterWait)
  | drain
  deriving DecidableEq, Repr

/-- Where the driver is. -/
inductive MousePc where
  | idle
  /-- `probe_hid_mouse` has recorded the mouse and is about to arm it. -/
  | bind
  /-- `poll_mouse_delta` is about to reset the endpoint, -/
  | reset
  /-- to move its dequeue pointer, -/
  | setDequeue
  /-- and to clear the flags. -/
  | clear
  | events (l : EventLoop)
  /-- In `service_mouse`, with the completion code of the event consumed. -/
  | service (cc : Byte) (l : EventLoop)
  | arm
  | deliver
  deriving DecidableEq, Repr

def AfterWait.pc : AfterWait → MousePc
  | idle => .idle
  | setDequeue => .setDequeue
  | clear => .clear

/-- The commands of `reset_bulk_endpoint`; the second names the place that the
next TRB will have. -/
inductive RecoveryCommand where
  | resetEndpoint
  | setTrDequeue (target : Nat)
  deriving DecidableEq, Repr

structure MouseBus where
  pc : MousePc
  slotId : Byte
  mouse : MouseRecord
  posted : Nat
  /-- What the polls have returned, `None` left out. -/
  returned : List MouseDelta
  state : RingState
  dequeue : Nat
  /-- The TRB at `dequeue` has been completed, with an error. -/
  failed : Bool
  buffer : List Byte
  commands : List RecoveryCommand
  events : List Event
  /-- The reports completed with Success or Short Packet. -/
  completed : List (List Byte)
  deriving DecidableEq, Repr

namespace MouseBus

/-- A Transfer Event of the mouse's slot. -/
def isMouseEvent (s : MouseBus) (e : Event) : Bool := e.trbType == 32 && e.slotId == s.slotId

/-- Report TRBs the controller has been given and has neither completed nor
been moved past. -/
def outstanding (s : MouseBus) : Nat := s.posted - s.dequeue - s.failed.toNat

/-! ## The driver -/

/-- `service_mouse`, after it has found the mouse. -/
def serviceMouse (m : MouseRecord) (buffer : List Byte) (cc : Byte) : MouseRecord :=
  if isReport cc then
    { m with
      armed := false
      accumDx := m.accumDx + signedByte (buffer.getD 1 0)
      accumDy := m.accumDy + signedByte (buffer.getD 2 0)
      buttons := buffer.getD 0 0
      dirty := true }
  else { m with armed := false, needsReset := true }

/-- `arm_mouse`. The doorbell starts a stopped endpoint at its dequeue
pointer. -/
def armMouse (s : MouseBus) : MouseBus :=
  if s.mouse.armed then s else
  { s with
    mouse := { s.mouse with armed := true }
    posted := s.posted + 1
    state := if s.state = .stopped then .running else s.state
    failed := if s.state = .stopped then false else s.failed }

/-- The end of `poll_mouse_delta`. -/
def deliver (s : MouseBus) : MouseBus :=
  if s.mouse.dirty then
    { s with
      mouse := { s.mouse with accumDx := 0, accumDy := 0, dirty := false }
      returned := s.returned ++
        [⟨s.mouse.accumDx, s.mouse.accumDy, s.mouse.buttons &&& 0x01 ≠ 0,
          s.mouse.buttons &&& 0x02 ≠ 0⟩] }
  else s

/-- One round of an event loop. `none` where `drain_event` goes on spinning. -/
def eventRound (s : MouseBus) (l : EventLoop) : Option MouseBus :=
  match s.events with
  | [] =>
      match l with
      | .drain => some { s with pc := .arm }
      | .wait _ _ => none
  | e :: es =>
      if s.isMouseEvent e then some { s with events := es, pc := .service e.completionCode l }
      else
        match l with
        | .drain => some { s with events := es }
        | .wait want after =>
            if e.trbType = want then some { s with events := es, pc := after.pc }
            else some { s with events := es }

/-- The driver's next step. -/
def driverStep (s : MouseBus) : Option MouseBus :=
  match s.pc with
  | .idle => none
  | .bind => some { s.armMouse with pc := .idle }
  | .reset => some
      { s with commands := s.commands ++ [.resetEndpoint], pc := .events (.wait 33 .setDequeue) }
  | .setDequeue => some
      { s with
        commands := s.commands ++ [.setTrDequeue s.posted]
        pc := .events (.wait 33 .clear) }
  | .clear => some
      { s with
        mouse := { s.mouse with needsReset := false, armed := false }
        pc := .events .drain }
  | .events l => s.eventRound l
  | .service cc l => some { s with mouse := serviceMouse s.mouse s.buffer cc, pc := .events l }
  | .arm => some { s.armMouse with pc := .deliver }
  | .deliver => some { s.deliver with pc := .idle }

/-! ## The controller -/

/-- The device has sent `bytes`, or something went wrong: the TRB at the
dequeue pointer of a running endpoint is completed. An error leaves it there and
halts the endpoint. -/
def complete (s : MouseBus) (cc : Byte) (bytes : List Byte) : Option MouseBus :=
  if s.state = .running ∧ s.dequeue < s.posted ∧ bytes.length ≤ s.buffer.length then
    let event : Event := ⟨32, cc, s.slotId, s.dequeue, s.buffer.length - bytes.length⟩
    let s := { s with
      buffer := bytes ++ s.buffer.drop bytes.length
      events := s.events ++ [event] }
    some (if isReport cc then
        { s with dequeue := s.dequeue + 1, completed := s.completed ++ [bytes] }
      else { s with state := .halted, failed := true })
  else none

/-- What a command that succeeds does to the endpoint. -/
def carryOut (s : MouseBus) : RecoveryCommand → MouseBus
  | .resetEndpoint => if s.state = .halted then { s with state := .stopped } else s
  | .setTrDequeue target =>
      if s.state = .stopped then { s with dequeue := target, failed := false } else s

/-- The next command is carried out, or refused with the code `cc`. -/
def execute (s : MouseBus) (cc : Byte) : Option MouseBus :=
  match s.commands with
  | [] => none
  | c :: cs =>
      let s := { s with commands := cs, events := s.events ++ [⟨33, cc, s.slotId, 0, 0⟩] }
      some (if cc = 1 then s.carryOut c else s)

/-! ## Runs -/

/-- Who moves. -/
inductive Move where
  /-- `poll_mouse_delta` is called. -/
  | poll
  /-- A disk or a command waits for an event of type `want`. -/
  | wait (want : Byte)
  | driver
  /-- The deadline of `drain_event`. -/
  | deadline
  | complete (cc : Byte) (bytes : List Byte)
  | execute (cc : Byte)
  /-- An event of the other traffic. -/
  | notify (e : Event)
  deriving DecidableEq, Repr

def step (s : MouseBus) : Move → Option MouseBus
  | .poll =>
      if s.pc = .idle then
        some { s with pc := if s.mouse.needsReset then .reset else .events .drain }
      else none
  | .wait want => if s.pc = .idle then some { s with pc := .events (.wait want .idle) } else none
  | .driver => s.driverStep
  | .deadline =>
      match s.pc with
      | .events (.wait _ after) => if s.events = [] then some { s with pc := after.pc } else none
      | _ => none
  | .complete cc bytes => s.complete cc bytes
  | .execute cc => s.execute cc
  | .notify e => if s.isMouseEvent e then none else some { s with events := s.events ++ [e] }

/-- The mouse has just been recorded: its endpoint's ring is as
`configure_endpoints` made it, and what is on the event ring is not about it. -/
structure JustBound (s : MouseBus) : Prop where
  pc : s.pc = .bind
  mouse : s.mouse = ⟨false, false, 0, 0, 0, false⟩
  ring : s.state = .running ∧ s.failed = false ∧ s.dequeue = s.posted
  commands : s.commands = []
  events : ∀ e ∈ s.events, s.isMouseEvent e = false
  completed : s.completed = []
  returned : s.returned = []

/-- The moves of a run, one after the other. -/
def run (s : MouseBus) : List Move → Option MouseBus
  | [] => some s
  | a :: as => (s.step a).bind fun s' => run s' as

end MouseBus

end Usb

end TablesOS
