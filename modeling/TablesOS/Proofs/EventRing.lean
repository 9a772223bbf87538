import TablesOS.Proofs.RingAgreement

/-!
# The driver reads every event

The event ring is a ring of 256 places without a Link, with the parties
changed: the controller writes and the driver reads. The driver reads the
control word first and the rest once its cycle matches, and gives the place
back through ERDP when it has all of it; the controller stops in front of
ERDP. So what the driver puts together from its three reads is one event, the
next one.
-/

namespace TablesOS

namespace Usb

open CycleBit

/-- What the controller has written of an event that it has not handed over. -/
def EventChannel.Filling (s : EventChannel) : Prop :=
  ∀ t, s.filling = some t → t.cycle = s.pcs.toUInt32 ∧
    s.memory s.enqueue = { t with control := (s.memory s.enqueue).control } ∧
    s.written.length < s.consumed.length + 255

/-- What the driver has read of the event in its place. -/
def EventChannel.ReadSoFar (s : EventChannel) : Prop :=
  match s.reading with
  | .idle => True
  | .control c => s.consumed.length < s.written.length ∧
      c = (s.memory s.position.dequeue).control
  | .status c st => s.consumed.length < s.written.length ∧
      c = (s.memory s.position.dequeue).control ∧ st = (s.memory s.position.dequeue).status
  | .parameter t => s.consumed.length < s.written.length ∧ t = s.memory s.position.dequeue

structure EventsAgreed (base : Nat) (s : EventChannel) : Prop where
  ring : Holds 256 s.memory (fun i => (s.memory i).phase) s.written s.consumed.length
  consumed : s.consumed = (s.written.take s.consumed.length).map Trb.event
  controller : s.enqueue = s.written.length % 256 ∧ s.pcs = pcsOf (bit 256 s.written.length)
  filling : s.Filling
  room : s.written.length ≤ s.consumed.length + 255
  driver : s.position = ⟨s.consumed.length % 256, pcsOf (bit 256 s.consumed.length)⟩
  erdp : s.erdpIndex base = s.consumed.length % 256
  readSoFar : s.ReadSoFar

section

variable {base : Nat} {s s' : EventChannel}

theorem cycle_byte_iff (t : Trb) (b : Bool) : t.cycle.toUInt8 = pcsOf b ↔ t.phase = b := by
  rw [Trb.phase]
  rcases cycle_bit t with h | h <;> cases b <;> simp [h]

/-- The cycle in the driver's place matches exactly if an event is there. -/
theorem EventsAgreed.ready (h : EventsAgreed base s) :
    (s.memory s.position.dequeue).cycle.toUInt8 = s.position.ccs ↔
      s.consumed.length < s.written.length := by
  rw [h.driver, cycle_byte_iff]
  exact h.ring.ready (by omega)

theorem EventsAgreed.next (h : EventsAgreed base s)
    (hlt : s.consumed.length < s.written.length) :
    s.memory s.position.dequeue = s.written.get ⟨s.consumed.length, hlt⟩ := by
  rw [h.driver]
  exact h.ring.next hlt

/-- The controller writes beside the place that the driver reads. -/
theorem EventsAgreed.apart (h : EventsAgreed base s) (hlt : s.consumed.length < s.written.length) :
    s.position.dequeue ≠ s.enqueue := by
  have hroom := h.room
  rw [h.driver, h.controller.1]
  exact place_ne hlt (by omega)

/-- Every state that the two parties can come to. -/
def EventChannel.Reachable (base : Nat) : EventChannel → Prop :=
  Relation.ReflTransGen (EventChannel.Step base) (EventChannel.fresh base)

end

/-! ## Both directions -/

end Usb

end TablesOS
