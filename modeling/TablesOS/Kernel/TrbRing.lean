import TablesOS.Kernel.Rings
import Mathlib.Logic.Function.Basic

/-!
# TRB rings in memory (`usb/xhci.rs`)

A ring is 256 TRBs of four words. On the command ring and on the transfer rings
the driver writes and the controller reads; the last TRB is a Link back to the
first. On the event ring the controller writes and the driver reads. Who owns a
TRB is told by its cycle bit alone, and each word is a write of its own that
the other party may see before the next one.
-/

namespace TablesOS

namespace Usb

structure Trb where
  parameter : UInt64
  status : UInt32
  control : UInt32
  deriving DecidableEq, Repr

namespace Trb

/-- What `alloc_dma` leaves. -/
def zero : Trb := ⟨0, 0, 0⟩

/-- Bit 0 of the control word. -/
def cycle (t : Trb) : UInt32 := t.control &&& 1

/-- Bits 10..16 of the control word. -/
def trbType (t : Trb) : UInt32 := (t.control >>> 10) &&& 0x3F

/-- Toggle Cycle, of a Link TRB. -/
def toggles (t : Trb) : Bool := t.control &&& 2 != 0

end Trb

/-- `value << shift`, in a control word. -/
def field (value shift : UInt32) : UInt32 := value <<< shift

/-- The TRBs of a ring. -/
abbrev TrbMemory := Nat → Trb

/-- A ring of the driver's as it sets it up: zeros, and a Link with Toggle
Cycle and its own cycle bit set. -/
def newRing (base : UInt64) : TrbMemory :=
  Function.update (fun _ => .zero) 255 ⟨base, 0, field 6 10 ||| field 1 1 ||| 1⟩

/-! ## The driver's side of the command and transfer rings -/

/-- `cmd_enqueue` and `cmd_pcs`, or `tr_enqueue` and `tr_pcs`. -/
structure RingPosition where
  enqueue : Nat
  pcs : Byte
  deriving DecidableEq, Repr

def RingPosition.fresh : RingPosition := ⟨0, 1⟩

/-- The words of a TRB, without its cycle bit. -/
structure TrbWords where
  parameter : UInt64
  status : UInt32
  flags : UInt32
  deriving DecidableEq, Repr

/-- The TRB with the producer's cycle bit. -/
def TrbWords.trb (w : TrbWords) (pcs : Byte) : Trb :=
  ⟨w.parameter, w.status, w.flags ||| pcs.toUInt32⟩

/-- The control word of the Link as it is handed over. -/
def linkControl (ctl : UInt32) (pcs : Byte) : UInt32 := (ctl &&& ~~~1) ||| pcs.toUInt32

/-- The next position. In front of the Link it hands the Link over, wraps, and
changes the cycle. -/
def advance (m : TrbMemory) (p : RingPosition) : TrbMemory × RingPosition :=
  if p.enqueue + 1 = 255 then
    (Function.update m 255 { m 255 with control := linkControl (m 255).control p.pcs },
      ⟨0, p.pcs ^^^ 1⟩)
  else (m, ⟨p.enqueue + 1, p.pcs⟩)

/-- `advance_cmd_enqueue` -/
def advanceCmdEnqueue : TrbMemory → RingPosition → TrbMemory × RingPosition := advance

/-- `advance_tr_enqueue` -/
def advanceTrEnqueue : TrbMemory → RingPosition → TrbMemory × RingPosition := advance

/-- A TRB at the enqueue position, and the next position. -/
def post (m : TrbMemory) (p : RingPosition) (w : TrbWords) : TrbMemory × RingPosition :=
  advance (Function.update m p.enqueue (w.trb p.pcs)) p

/-- What the driver posts. -/
inductive Posting where
  | enableSlot
  | addressDevice (inputCtx : UInt64) (slotId : Byte)
  | configureEndpoint (inputCtx : UInt64) (slotId : Byte)
  | evaluateContext (inputCtx : UInt64) (slotId : Byte)
  | resetEndpoint (slotId dci : Byte)
  | setTrDequeue (dequeue : UInt64) (slotId dci : Byte)
  | setup (packet : UInt64) (isIn : Bool) (length : UInt16)
  | data (buf : UInt64) (isIn : Bool) (length : UInt16)
  | status (isIn : Bool) (length : UInt16)
  | normal (buf : UInt64) (length : UInt32)
  deriving DecidableEq, Repr

/-- A command TRB of type `ty`, for an endpoint of a slot. -/
def commandFlags (ty : UInt32) (slotId dci : Byte) : UInt32 :=
  field ty 10 ||| field dci.toUInt32 16 ||| field slotId.toUInt32 24

/-- `trt`, `dir` and `status_dir`. -/
def transferType (isIn : Bool) (length : UInt16) : UInt32 :=
  if length = 0 then 0 else if isIn then 3 else 2

def dataDir (isIn : Bool) : UInt32 := if isIn then 1 else 0

def statusDir (isIn : Bool) (length : UInt16) : UInt32 :=
  if isIn && length > 0 then 0 else 1

/-- The words that `issue_enable_slot`, `issue_address_device`,
`configure_endpoints`, `evaluate_max_packet`, `reset_endpoint`,
`set_tr_dequeue_raw`, `control_transfer_once` and `post_normal_trb` write. -/
def Posting.words : Posting → TrbWords
  | enableSlot => ⟨0, 0, field 9 10⟩
  | addressDevice inputCtx slotId => ⟨inputCtx, 0, commandFlags 11 slotId 0⟩
  | configureEndpoint inputCtx slotId => ⟨inputCtx, 0, commandFlags 12 slotId 0⟩
  | evaluateContext inputCtx slotId => ⟨inputCtx, 0, commandFlags 13 slotId 0⟩
  | resetEndpoint slotId dci => ⟨0, 0, commandFlags 14 slotId dci⟩
  | setTrDequeue dequeue slotId dci => ⟨dequeue, 0, commandFlags 16 slotId dci⟩
  | setup packet isIn length =>
      ⟨packet, 8, field 1 6 ||| field 2 10 ||| field (transferType isIn length) 16⟩
  | data buf isIn length => ⟨buf, length.toUInt32, field 3 10 ||| field (dataDir isIn) 16⟩
  | status isIn length => ⟨0, 0, field 1 5 ||| field 4 10 ||| field (statusDir isIn length) 16⟩
  | normal buf length => ⟨buf, length, field 1 2 ||| field 1 5 ||| field 1 10⟩

/-- `issue_enable_slot`, up to the doorbell, with its own copy of the wrap. -/
def issueEnableSlot (m : TrbMemory) (p : RingPosition) : TrbMemory × RingPosition :=
  post m p Posting.enableSlot.words

/-- `post_normal_trb`, with its own copy of the wrap. -/
def postNormalTrb (m : TrbMemory) (p : RingPosition) (buf : UInt64) (length : UInt32) :
    TrbMemory × RingPosition :=
  post m p (Posting.normal buf length).words

/-- The other commands, up to the doorbell. -/
def postCommand (m : TrbMemory) (p : RingPosition) (w : TrbWords) : TrbMemory × RingPosition :=
  advanceCmdEnqueue (Function.update m p.enqueue (w.trb p.pcs)) p

/-- One stage of `control_transfer_once`. -/
def postStage (m : TrbMemory) (p : RingPosition) (w : TrbWords) : TrbMemory × RingPosition :=
  advanceTrEnqueue (Function.update m p.enqueue (w.trb p.pcs)) p

/-- The code that posts each. -/
def Posting.run (p : Posting) (m : TrbMemory) (pos : RingPosition) :
    TrbMemory × RingPosition :=
  match p with
  | enableSlot => issueEnableSlot m pos
  | normal buf length => postNormalTrb m pos buf length
  | setup .. | data .. | status .. => postStage m pos p.words
  | addressDevice .. | configureEndpoint .. | evaluateContext .. | resetEndpoint ..
  | setTrDequeue .. => postCommand m pos p.words

/-! ## The two parties at one ring -/

/-- How far the driver is in posting: which words it has written. -/
inductive Writing where
  | idle
  | begun (w : TrbWords)
  | parameter (w : TrbWords)
  | status (w : TrbWords)
  /-- The control word is written, and the position not yet advanced. -/
  | control
  deriving DecidableEq, Repr

/-- Where the controller reads, and the cycle it expects. -/
structure DequeuePointer where
  index : Nat
  ccs : UInt32
  deriving DecidableEq, Repr

/-- A ring between driver and controller. `posted`, `fetched` and the two
counts of the Link are what has happened so far. -/
structure Channel where
  memory : TrbMemory
  position : RingPosition
  writing : Writing
  dequeue : DequeuePointer
  posted : List Trb
  fetched : List Trb
  /-- How often the driver has handed the Link over. -/
  links : Nat
  /-- How often the controller has followed it. -/
  followed : Nat

def Channel.fresh (base : UInt64) : Channel where
  memory := newRing base
  position := .fresh
  writing := .idle
  dequeue := ⟨0, 1⟩
  posted := []
  fetched := []
  links := 0
  followed := 0

/-- TRBs, the Link among them, that the controller has been given and not
consumed. -/
def Channel.outstanding (s : Channel) : Nat :=
  (s.posted.length - s.fetched.length) + (s.links - s.followed)

/-- What the next post gives it: the TRB, and the Link in front of the wrap. -/
def Channel.handsOver (s : Channel) : Nat := if s.position.enqueue + 1 = 255 then 2 else 1

/-- The TRB at the enqueue position. -/
def Channel.slot (s : Channel) : Trb := s.memory s.position.enqueue

/-- One write of the driver. The ring has 256 TRBs, and the driver never has
more outstanding. -/
inductive Channel.Post : Channel → Channel → Prop
  | begin {s : Channel} (p : Posting) (h : s.writing = .idle)
      (room : s.outstanding + s.handsOver ≤ 256) :
      Post s { s with writing := .begun p.words }
  | writeParameter {s : Channel} {w : TrbWords} (h : s.writing = .begun w) :
      Post s { s with
        writing := .parameter w
        memory := Function.update s.memory s.position.enqueue
          { s.slot with parameter := w.parameter } }
  | writeStatus {s : Channel} {w : TrbWords} (h : s.writing = .parameter w) :
      Post s { s with
        writing := .status w
        memory := Function.update s.memory s.position.enqueue
          { s.slot with status := w.status } }
  | writeControl {s : Channel} {w : TrbWords} (h : s.writing = .status w) :
      Post s { s with
        writing := .control
        memory := Function.update s.memory s.position.enqueue
          { s.slot with control := (w.trb s.position.pcs).control }
        posted := s.posted ++ [w.trb s.position.pcs] }
  | advance {s : Channel} (h : s.writing = .control) :
      Post s { s with
        writing := .idle
        memory := (Usb.advance s.memory s.position).1
        position := (Usb.advance s.memory s.position).2
        links := if s.position.enqueue + 1 = 255 then s.links + 1 else s.links }

/-- One TRB consumed by the controller. -/
inductive Channel.Consume (base : UInt64) : Channel → Channel → Prop
  /-- It takes a TRB that is not a Link. -/
  | fetch {s : Channel} (hc : (s.memory s.dequeue.index).cycle = s.dequeue.ccs)
      (ht : (s.memory s.dequeue.index).trbType ≠ 6) :
      Consume base s { s with
        dequeue := { s.dequeue with index := s.dequeue.index + 1 }
        fetched := s.fetched ++ [s.memory s.dequeue.index] }
  /-- It follows a Link to the TRB at the address in it. -/
  | follow {s : Channel} (hc : (s.memory s.dequeue.index).cycle = s.dequeue.ccs)
      (ht : (s.memory s.dequeue.index).trbType = 6) :
      Consume base s { s with
        dequeue :=
          { index := ((s.memory s.dequeue.index).parameter - base).toNat / 16
            ccs := if (s.memory s.dequeue.index).toggles then s.dequeue.ccs ^^^ 1
              else s.dequeue.ccs }
        followed := s.followed + 1 }

/-- The channel when the code that posts `p` has run. -/
def Channel.after (s : Channel) (p : Posting) : Channel where
  memory := (p.run s.memory s.position).1
  position := (p.run s.memory s.position).2
  writing := .idle
  dequeue := s.dequeue
  posted := s.posted ++ [p.words.trb s.position.pcs]
  fetched := s.fetched
  links := if s.position.enqueue + 1 = 255 then s.links + 1 else s.links
  followed := s.followed

/-- Either party moves. -/
inductive Channel.Step (base : UInt64) (s s' : Channel) : Prop
  | driver (h : s.Post s')
  | controller (h : s.Consume base s')

/-! ## The event ring -/

/-- `struct Event`, from the words of an event TRB. -/
def Trb.event (t : Trb) : Event where
  trbType := t.trbType.toUInt8
  completionCode := ((t.status >>> 24) &&& 0xFF).toUInt8
  slotId := ((t.control >>> 24) &&& 0xFF).toUInt8
  parameter := t.parameter.toNat
  transferLength := (t.status &&& 0x00FFFFFF).toNat

/-- `event_dequeue` and `event_ccs` -/
structure EventPosition where
  dequeue : Nat
  ccs : Byte
  deriving DecidableEq, Repr

def EventPosition.fresh : EventPosition := ⟨0, 1⟩

def EventPosition.next (p : EventPosition) : EventPosition :=
  if p.dequeue + 1 = 256 then ⟨0, p.ccs ^^^ 1⟩ else ⟨p.dequeue + 1, p.ccs⟩

/-- The value written to ERDP, with EHB. -/
def EventPosition.erdp (base : Nat) (p : EventPosition) : Nat := (base + p.dequeue * 16) ||| 8

/-- How far the driver is in consuming: which words it has read. -/
inductive Reading where
  | idle
  | control (control : UInt32)
  | status (control status : UInt32)
  | parameter (t : Trb)
  deriving DecidableEq, Repr

/-- The event ring between controller and driver. -/
structure EventChannel where
  memory : TrbMemory
  /-- The controller's place and cycle, and the event it is writing there. -/
  enqueue : Nat
  pcs : Byte
  filling : Option Trb
  position : EventPosition
  reading : Reading
  erdp : Nat
  written : List Trb
  consumed : List Event

/-- ERDP is first written without EHB. -/
def EventChannel.fresh (base : Nat) : EventChannel where
  memory := fun _ => .zero
  enqueue := 0
  pcs := 1
  filling := none
  position := .fresh
  reading := .idle
  erdp := base
  written := []
  consumed := []

/-- The place of ERDP. -/
def EventChannel.erdpIndex (base : Nat) (s : EventChannel) : Nat := (s.erdp - base) / 16

/-- One write of the controller. It stops in front of ERDP, and it writes the
cycle bit last. -/
inductive EventChannel.Produce (base : Nat) : EventChannel → EventChannel → Prop
  | fill {s : EventChannel} (t : Trb) (h : s.filling = none) (ht : t.cycle = s.pcs.toUInt32)
      (room : (s.enqueue + 1) % 256 ≠ s.erdpIndex base) :
      Produce base s { s with
        filling := some t
        memory := Function.update s.memory s.enqueue
          { s.memory s.enqueue with parameter := t.parameter, status := t.status } }
  | commit {s : EventChannel} {t : Trb} (h : s.filling = some t) :
      Produce base s { s with
        filling := none
        memory := Function.update s.memory s.enqueue
          { s.memory s.enqueue with control := t.control }
        enqueue := if s.enqueue + 1 = 256 then 0 else s.enqueue + 1
        pcs := if s.enqueue + 1 = 256 then s.pcs ^^^ 1 else s.pcs
        written := s.written ++ [t] }

/-- One access of the driver in `try_consume_event`, when the cycle matches. -/
inductive EventChannel.Take (base : Nat) : EventChannel → EventChannel → Prop
  | readControl {s : EventChannel} (h : s.reading = .idle)
      (hc : (s.memory s.position.dequeue).cycle.toUInt8 = s.position.ccs) :
      Take base s { s with reading := .control (s.memory s.position.dequeue).control }
  | readStatus {s : EventChannel} {c : UInt32} (h : s.reading = .control c) :
      Take base s { s with reading := .status c (s.memory s.position.dequeue).status }
  | readParameter {s : EventChannel} {c st : UInt32} (h : s.reading = .status c st) :
      Take base s { s with
        reading := .parameter ⟨(s.memory s.position.dequeue).parameter, st, c⟩ }
  | release {s : EventChannel} {t : Trb} (h : s.reading = .parameter t) :
      Take base s { s with
        reading := .idle
        position := s.position.next
        erdp := s.position.next.erdp base
        consumed := s.consumed ++ [t.event] }

/-- Either party moves. -/
inductive EventChannel.Step (base : Nat) (s s' : EventChannel) : Prop
  | controller (h : s.Produce base s')
  | driver (h : s.Take base s')

end Usb

end TablesOS
