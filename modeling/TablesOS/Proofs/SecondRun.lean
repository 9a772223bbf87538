import TablesOS.Kernel.Autopilot
import TablesOS.Proofs.Interfaces
import Mathlib.Data.List.Nodup
import Mathlib.Data.List.Range

/-!
# Running the bring-up pipeline again

Each step of the pipeline is meant to be idempotent. The stage that addresses
devices asks whether a slot has been addressed, and later stages ask whether a
device is configured; but the stage that enables slots asks only the port, and
a port that is still enabled, as the first run leaves it, gets another slot. No
list knows that slot, and so the device is addressed again and recorded twice.
The second run leaves things alone exactly if no port has a device and is
enabled, be it from before or by the reset the run tries.
-/

namespace TablesOS

namespace Usb

namespace Autopilot

/-! ## What is recorded -/

/-- The slots and devices on record, as the stage that addresses them writes
them: their slot, port and speed, and whether a descriptor was fetched. -/
def recorded (st : XhciState) : List (Byte × Byte × Byte) × List (Byte × Byte × Byte × Bool) :=
  (st.slots.map fun r => (r.slotId, r.port, r.speed),
    st.addressed.map fun d => (d.slotId, d.port, d.speed, d.described))

theorem map_set_same {α β : Type} (f : α → β) {l : List α} {i : Nat} {a b : α} (h : l[i]? = some a)
    (hf : f b = f a) : (l.set i b).map f = l.map f := by
  rw [List.map_set, hf]
  refine List.ext_getElem? fun j => ?_
  rw [List.getElem?_set]
  split
  · next hij =>
      subst hij
      rw [List.getElem?_map, h]
      simp [(List.getElem?_eq_some_iff.mp h).1]
  · rfl

/-! ## The later stages leave the record as it is -/

theorem recorded_fetch (i : Nat) (bytes : List Byte) (st : XhciState) :
    recorded (fetchConfiguration i bytes st) = recorded st := by
  rw [fetchConfiguration]
  cases hd : st.addressed[i]? with
  | none => rfl
  | some d =>
      simp only
      split
      · exact Prod.ext rfl (map_set_same _ hd rfl)
      · rfl

theorem recorded_configure (i : Nat) (cfgEpCc setCc : Byte) (st : XhciState) :
    recorded (configureDevice i cfgEpCc setCc st) = recorded st := by
  rw [configureDevice]
  cases hd : st.addressed[i]? with
  | none => rfl
  | some d =>
      simp only
      split
      · rfl
      · split
        · rfl
        · split
          · rfl
          · split
            · rfl
            · split
              · rfl
              · refine Prod.ext (map_modify_same _ (fun s => ?_) _ _) (map_set_same _ hd rfl)
                split <;> rfl

theorem recorded_foldl {β : Type} (f : XhciState → β → XhciState)
    (hf : ∀ st b, recorded (f st b) = recorded st) (bs : List β) (st : XhciState) :
    recorded (bs.foldl f st) = recorded st := by
  induction bs generalizing st with
  | nil => rfl
  | cons b bs ih => rw [List.foldl_cons, ih, hf]

/-! ## The walk over the ports -/

/-- The port has a device, and it is enabled or becomes so by a reset. -/
def GetsSlot (portsc : UInt32) (r : PortReply) : Prop :=
  portsc &&& portscCcs ≠ 0 ∧
    (portsc &&& portscPed ≠ 0 ∨ r.resetDone = true ∧ r.portscAfter &&& portscPed ≠ 0)

instance (portsc : UInt32) (r : PortReply) : Decidable (GetsSlot portsc r) :=
  inferInstanceAs (Decidable (_ ∧ _))

theorem walkPort_gets {port : Byte} {portsc : UInt32} {r : PortReply} (h : GetsSlot portsc r) :
    ∃ after report speed, walkPort port portsc r = (after, report, some speed) := by
  obtain ⟨hccs, hped⟩ := h
  rw [walkPort, if_neg hccs]
  by_cases hon : portsc &&& portscPed = 0
  · obtain ⟨hdone, hafter⟩ := hped.resolve_left (not_not_intro hon)
    simp only [hon, hdone, if_true]
    rw [if_neg (by simp), if_neg hafter]
    exact ⟨_, _, _, rfl⟩
  · simp only [hon, if_false]
    rw [if_neg (by simp)]
    exact ⟨_, _, _, rfl⟩

theorem walkPort_other {port : Byte} {portsc : UInt32} {r : PortReply} (h : ¬ GetsSlot portsc r) :
    (walkPort port portsc r).2.2 = none := by
  rw [walkPort]
  split
  · rfl
  · next hccs =>
      split
      · rfl
      · next hreset =>
          by_cases hon : portsc &&& portscPed = 0
          · have hafter : r.portscAfter &&& portscPed = 0 := by
              by_contra hne
              have hdone : r.resetDone = true := by
                simpa [hon] using hreset
              exact h ⟨hccs, .inr ⟨hdone, hne⟩⟩
            simp [hon, hafter]
          · exact absurd ⟨hccs, .inl hon⟩ h

theorem portRound_portsc (replies : Nat → PortReply) (w : PortWalk) (port : Nat) :
    (portRound replies w port).portsc = Function.update w.portsc port
      (walkPort (UInt8.ofNat port) (w.portsc port) (replies port)).1 := by
  rw [portRound]
  rcases walkPort (UInt8.ofNat port) (w.portsc port) (replies port) with ⟨after, report, speed⟩
  cases speed <;> rfl

theorem slotReport_port (port speed : Byte) (reply : Option (Byte × Byte)) :
    (slotReport port speed reply).port = port := by
  cases reply <;> rfl

theorem portRound_gets {replies : Nat → PortReply} {w : PortWalk} {port : Nat}
    (h : GetsSlot (w.portsc port) (replies port)) :
    (portRound replies w port).commands = w.commands ++ [.enableSlot (UInt8.ofNat port)] ∧
      (portRound replies w port).slots.map (·.port) =
        w.slots.map (·.port) ++ [UInt8.ofNat port] := by
  obtain ⟨after, report, speed, hwalk⟩ := @walkPort_gets (UInt8.ofNat port) _ _ h
  rw [portRound, hwalk]
  refine ⟨rfl, ?_⟩
  simp only [List.map_append, List.map_cons, List.map_nil, slotReport_port]

theorem portRound_other {replies : Nat → PortReply} {w : PortWalk} {port : Nat}
    (h : ¬ GetsSlot (w.portsc port) (replies port)) :
    (portRound replies w port).commands = w.commands ∧
      (portRound replies w port).slots = w.slots := by
  have hwalk := @walkPort_other (UInt8.ofNat port) _ _ h
  rw [portRound]
  generalize walkPort (UInt8.ofNat port) (w.portsc port) (replies port) = out at hwalk
  obtain ⟨after, report, speed⟩ := out
  cases hwalk
  exact ⟨rfl, rfl⟩

/-- The ports that get a slot. -/
def getting (portsc : Nat → UInt32) (replies : Nat → PortReply) (ports : List Nat) : List Nat :=
  ports.filter fun p => GetsSlot (portsc p) (replies p)

/-- What the walk has done when it is over. Each port is read before it is
written. -/
structure Walked (replies : Nat → PortReply) (ports : List Nat) (w w' : PortWalk) : Prop where
  commands : w'.commands =
    w.commands ++ (getting w.portsc replies ports).map fun p => .enableSlot (UInt8.ofNat p)
  slots : w'.slots.map (·.port) =
    w.slots.map (·.port) ++ (getting w.portsc replies ports).map UInt8.ofNat

theorem ports_walked (replies : Nat → PortReply) {ports : List Nat} (hports : ports.Nodup)
    (w : PortWalk) : Walked replies ports w (ports.foldl (portRound replies) w) := by
  induction ports generalizing w with
  | nil => exact ⟨(List.append_nil _).symm, (List.append_nil _).symm⟩
  | cons port ports ih =>
      obtain ⟨hnew, hrest⟩ := List.nodup_cons.mp hports
      obtain ⟨hcommands, hslots⟩ := ih hrest (portRound replies w port)
      have hother : ∀ p ∈ ports, (portRound replies w port).portsc p = w.portsc p := by
        intro p hp
        rw [portRound_portsc]
        exact Function.update_of_ne (fun heq : p = port => hnew (heq ▸ hp)) _ _
      have hgetting : getting (portRound replies w port).portsc replies ports =
          getting w.portsc replies ports :=
        List.filter_congr fun p hp => by rw [hother p hp]
      rw [hgetting] at hcommands hslots
      constructor
      · rw [List.foldl_cons, hcommands, getting, getting, List.filter_cons]
        by_cases h : GetsSlot (w.portsc port) (replies port)
        · simp [h, (portRound_gets h).1]
        · simp [h, (portRound_other h).1]
      · rw [List.foldl_cons, hslots, getting, getting, List.filter_cons]
        by_cases h : GetsSlot (w.portsc port) (replies port)
        · simp [h, (portRound_gets h).2]
        · simp [h, (portRound_other h).2]

/-! ## One run -/

theorem portNumbers_nodup (maxPorts : Byte) : (portNumbers maxPorts).Nodup :=
  List.nodup_range'

/-- The commands of a run begin with an Enable Slot for each port that gets
one. -/
theorem autopilot_commands (maxPorts : Byte) (r : Replies) (s : Session) :
    ∃ more, (autopilotUsbDrives maxPorts r s).2 =
      ((getting s.portsc r.port (portNumbers maxPorts)).map fun p =>
        .enableSlot (UInt8.ofNat p)) ++ more := by
  have hwalked := ports_walked r.port (portNumbers_nodup maxPorts) ⟨s.portsc, [], [], []⟩
  refine ⟨(addressEnabledSlots r.address (resetAndEnableSlots maxPorts r.port s).1).2, ?_⟩
  show (resetAndEnableSlots maxPorts r.port s).2 ++ _ = _
  exact congrArg (· ++ _) hwalked.commands

/-- No port gets a slot: nothing is addressed, and the record stays. -/
theorem autopilot_quiet {maxPorts : Byte} {r : Replies} {s : Session}
    (h : getting s.portsc r.port (portNumbers maxPorts) = []) :
    (autopilotUsbDrives maxPorts r s).2 = [] ∧
      recorded (autopilotUsbDrives maxPorts r s).1.xhci = recorded s.xhci := by
  have hwalked := ports_walked r.port (portNumbers_nodup maxPorts) ⟨s.portsc, [], [], []⟩
  obtain ⟨hcommands, hslots⟩ := hwalked
  rw [h] at hcommands hslots
  have hempty := List.map_eq_nil_iff.mp hslots
  have haddress : addressEnabledSlots r.address (resetAndEnableSlots maxPorts r.port s).1 =
      ((resetAndEnableSlots maxPorts r.port s).1, []) := by
    simp only [addressEnabledSlots, resetAndEnableSlots, hempty, List.foldl_nil]
  constructor
  · show (resetAndEnableSlots maxPorts r.port s).2 ++
      (addressEnabledSlots r.address (resetAndEnableSlots maxPorts r.port s).1).2 = []
    rw [haddress]
    exact congrArg (· ++ []) hcommands
  · show recorded (probeMassStorage (configureEndpoints r.configure (fetchConfigurations r.config
      (addressEnabledSlots r.address (resetAndEnableSlots maxPorts r.port s).1).1.xhci))) = _
    rw [haddress]
    show recorded (configureEndpoints r.configure (fetchConfigurations r.config s.xhci)) = _
    rw [configureEndpoints, recorded_foldl _ fun st i => recorded_configure i _ _ st,
      fetchConfigurations, recorded_foldl _ fun st i => recorded_fetch i _ st]

/-! ## The second run -/

/-- The second of two runs issues no Enable Slot and no Address Device and
leaves the record as it was exactly if no port has a device and is enabled, by
the first run or by the reset that the second tries. -/
theorem second_run_iff (maxPorts : Byte) (r₁ r₂ : Replies) (s₀ : Session) :
    let s₁ := (autopilotUsbDrives maxPorts r₁ s₀).1
    ((autopilotUsbDrives maxPorts r₂ s₁).2 = [] ∧
        recorded (autopilotUsbDrives maxPorts r₂ s₁).1.xhci = recorded s₁.xhci) ↔
      ∀ port ∈ portNumbers maxPorts, ¬ GetsSlot (s₁.portsc port) (r₂.port port) := by
  intro s₁
  have hgetting : getting s₁.portsc r₂.port (portNumbers maxPorts) = [] ↔
      ∀ port ∈ portNumbers maxPorts, ¬ GetsSlot (s₁.portsc port) (r₂.port port) := by
    rw [getting, List.filter_eq_nil_iff]
    simp
  rw [← hgetting]
  constructor
  · rintro ⟨hnone, -⟩
    obtain ⟨more, hcommands⟩ := autopilot_commands maxPorts r₂ s₁
    rw [hnone] at hcommands
    exact List.map_eq_nil_iff.mp (List.append_eq_nil_iff.mp hcommands.symm).1
  · exact autopilot_quiet

/-- A controller with one port that has a device, not reset yet. -/
def onePort : Session := ⟨fun _ => 0xE01, none, .fresh⟩

/-- The device is a high-speed one; Enable Slot gives it `slotId`. -/
def oneDevice (slotId : Byte) : Replies where
  port _ := ⟨true, 0xE03, some (1, slotId)⟩
  address _ := ⟨some 1, true⟩
  config _ := []
  configure _ := (0, 0)

/-- The second run finds slot 1 on record, but the controller has given it
slot 2. -/
theorem second_run_addresses_again :
    (autopilotUsbDrives 1 (oneDevice 1) onePort).1.portsc 1 &&& portscCcs ≠ 0 ∧
      recorded (autopilotUsbDrives 1 (oneDevice 1) onePort).1.xhci =
        ([(1, 1, 3)], [(1, 1, 3, true)]) ∧
      (autopilotUsbDrives 1 (oneDevice 2) (autopilotUsbDrives 1 (oneDevice 1) onePort).1).2 =
        [.enableSlot 1, .addressDevice 2] ∧
      recorded (autopilotUsbDrives 1 (oneDevice 2)
          (autopilotUsbDrives 1 (oneDevice 1) onePort).1).1.xhci =
        ([(1, 1, 3), (2, 1, 3)], [(1, 1, 3, true), (2, 1, 3, true)]) :=
  ⟨by decide, by decide, by decide, by decide⟩

end Autopilot

end Usb

end TablesOS
