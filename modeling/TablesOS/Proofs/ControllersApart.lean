import Mathlib.Data.List.Induction
import TablesOS.Kernel.Controllers

/-!
# When controllers are kept apart

Everything a stage posts carries the controller of the record on one side and
the controller it was called with on the other, so a request is sound exactly
when the two agree, and a stage is harmless on a foreign record exactly when
it finds nothing to do. The run lemma needs the converse as well: the record
stays of one controller as long as every call was one of the two.
-/

namespace TablesOS

namespace Usb

/-- The ring, the doorbell, the event ring and the records of a request are
all one controller's. -/
def Request.Apart (r : Request) : Prop :=
  r.doorbell = r.ring ∧ r.eventRing = r.doorbell ∧ r.dequeue = r.eventRing ∧
    ∀ f ∈ r.records, f = r.doorbell

/-- Everything in the record was found on its controller. -/
structure Driver.Own (d : Driver) : Prop where
  slots : ∀ f ∈ d.slotsOn, f = d.info.mmioBase
  addressed : ∀ f ∈ d.addressedOn, f = d.info.mmioBase
  enumeration : ∀ r ∈ d.enumeration.getD [], r.foundOn = d.info.mmioBase

variable {d d' : Driver} {info : XhciInfo}

theorem Driver.Own.foundOn (h : d.Own) (slotId : Byte) :
    ∀ f ∈ d.foundOn slotId, f = d.info.mmioBase := by
  have hzip : ∀ {α : Type} (g : α → Byte) (xs : List α) (on : List Nat),
      (∀ f ∈ on, f = d.info.mmioBase) →
      ∀ f ∈ (xs.zip on).filterMap (fun p => if g p.1 = slotId then some p.2 else none),
        f = d.info.mmioBase := by
    intro α g xs on hon f hf
    obtain ⟨p, hp, hsome⟩ := List.mem_filterMap.mp hf
    by_cases hslot : g p.1 = slotId
    · rw [if_pos hslot] at hsome
      cases hsome
      exact hon _ (List.of_mem_zip hp).2
    · rw [if_neg hslot] at hsome
      cases hsome
  intro f hf
  rcases List.mem_append.mp hf with hf | hf
  · exact hzip _ _ _ h.slots f hf
  · exact hzip _ _ _ h.addressed f hf

theorem request_apart (hinfo : info.mmioBase = d.info.mmioBase) {records : List Nat}
    (hrec : ∀ f ∈ records, f = d.info.mmioBase) : (d.request info records).Apart :=
  ⟨hinfo, hinfo.symm, hinfo, fun f hf => (hrec f hf).trans hinfo.symm⟩

theorem request_not_apart (hinfo : info.mmioBase ≠ d.info.mmioBase) (records : List Nat) :
    ¬ (d.request info records).Apart :=
  fun h => hinfo h.1

/-! ## The loop -/

section Sweep

variable {ι : Type} {work : Driver → ι → Option (List Nat)} {more : ι → Nat}
  {act : ι → Driver → Driver}

/-- On the record of its own controller. -/
theorem sweep_own (hinfo : info.mmioBase = d.info.mmioBase)
    (P : ι → Prop)
    (hwork : ∀ d i records, P i → d.Own → info.mmioBase = d.info.mmioBase →
      work d i = some records → ∀ f ∈ records, f = d.info.mmioBase)
    (hact : ∀ i d, P i → d.Own → info.mmioBase = d.info.mmioBase →
      (act i d).Own ∧ (act i d).info = d.info)
    (l : List ι) (hl : ∀ i ∈ l, P i) (h : d.Own) :
    (sweep info work more act l d).1.Own ∧ (sweep info work more act l d).1.info = d.info ∧
      ∀ r ∈ (sweep info work more act l d).2, r.Apart := by
  induction l generalizing d with
  | nil => exact ⟨h, rfl, fun r hr => by cases hr⟩
  | cons i l ih =>
      have hl' : ∀ j ∈ l, P j := fun j hj => hl j (List.mem_cons_of_mem _ hj)
      unfold sweep
      cases hw : work d i with
      | none => exact ih hinfo hl' h
      | some records =>
          obtain ⟨hown, hsame⟩ := hact i d (hl i List.mem_cons_self) h hinfo
          obtain ⟨hown', hsame', hrest⟩ := ih (by rw [hsame]; exact hinfo) hl' hown
          refine ⟨hown', hsame'.trans hsame, fun r hr => ?_⟩
          rcases List.mem_append.mp hr with hr | hr
          · rw [List.eq_of_mem_replicate hr]
            exact request_apart hinfo (hwork d i records (hl i List.mem_cons_self) h hinfo hw)
          · exact hrest r hr

/-- A loop that only talks to slots on record. -/
theorem sweep_found (hinfo : info.mmioBase = d.info.mmioBase) (slot : ι → Byte) (more : ι → Nat)
    (l : List ι) (h : d.Own) :
    (sweep info (fun d i => some (d.foundOn (slot i))) more (fun _ d => d) l d).1.Own ∧
      (sweep info (fun d i => some (d.foundOn (slot i))) more (fun _ d => d) l d).1.info = d.info ∧
      ∀ r ∈ (sweep info (fun d i => some (d.foundOn (slot i))) more (fun _ d => d) l d).2,
        r.Apart :=
  sweep_own hinfo (fun _ => True)
    (fun _ i _ _ hd _ hw => by cases hw; exact hd.foundOn (slot i))
    (fun _ _ _ hd _ => ⟨hd, rfl⟩) l (fun _ _ => trivial) h

/-- With nothing to do. -/
theorem sweep_idle (l : List ι) (h : ∀ i ∈ l, work d i = none) :
    sweep info work more act l d = (d, []) := by
  induction l with
  | nil => rfl
  | cons i l ih =>
      unfold sweep
      rw [h i List.mem_cons_self]
      exact ih fun j hj => h j (List.mem_cons_of_mem _ hj)

/-- On a foreign record, with something to do. -/
theorem sweep_foreign (work : Driver → ι → Option (List Nat)) (more : ι → Nat)
    (act : ι → Driver → Driver) (hinfo : info.mmioBase ≠ d.info.mmioBase) (l : List ι)
    (h : ¬ ∀ i ∈ l, work d i = none) :
    ∃ r ∈ (sweep info work more act l d).2, ¬ r.Apart := by
  induction l with
  | nil => exact absurd (fun i hi => by cases hi) h
  | cons i l ih =>
      unfold sweep
      cases hw : work d i with
      | none =>
          refine ih fun hall => h fun j hj => ?_
          rcases List.mem_cons.mp hj with rfl | hj
          · exact hw
          · exact hall j hj
      | some records =>
          exact ⟨d.request info records, List.mem_append_left _
            (List.mem_replicate.mpr ⟨Nat.succ_ne_zero _, rfl⟩), request_not_apart hinfo records⟩

end Sweep

/-! ## The stages -/

theorem own_of_devices (h : d.Own) (st : XhciState) : { d with devices := st }.Own :=
  ⟨h.slots, h.addressed, h.enumeration⟩

theorem reportPort_own (p : EnabledPort) (h : d.Own) (hinfo : info.mmioBase = d.info.mmioBase) :
    (reportPort info p d).Own ∧ (reportPort info p d).info = d.info := by
  refine ⟨⟨h.slots, h.addressed, fun r hr => ?_⟩, rfl⟩
  rcases List.mem_append.mp (show r ∈ d.enumeration.getD [] ++ [_] from hr) with hr | hr
  · exact h.enumeration r hr
  · rw [List.mem_singleton.mp hr]
    exact hinfo

theorem freshReports_own (h : d.Own) : ∀ r ∈ freshReports d, r.1.foundOn = d.info.mmioBase := by
  intro r hr
  exact h.enumeration r.1 (List.mem_filter.mp (List.fst_mem_of_mem_zipIdx hr)).1

theorem addressReport_own {answers : Nat → AddressAnswer} {r : SlotReport × Nat}
    (hr : r.1.foundOn = d.info.mmioBase) (h : d.Own) :
    (addressReport answers r d).Own ∧ (addressReport answers r d).info = d.info := by
  have hpush : ∀ on : List Nat, (∀ f ∈ on, f = d.info.mmioBase) →
      ∀ f ∈ on ++ [r.1.foundOn], f = d.info.mmioBase := by
    intro on hon f hf
    rcases List.mem_append.mp hf with hf | hf
    · exact hon f hf
    · rw [List.mem_singleton.mp hf]
      exact hr
  refine ⟨⟨?_, hpush _ h.addressed, h.enumeration⟩, rfl⟩
  show ∀ f ∈ (if (answers r.2).answered then d.slotsOn ++ [r.1.foundOn] else d.slotsOn),
    f = d.info.mmioBase
  by_cases ha : (answers r.2).answered = true
  · rw [if_pos ha]
    exact hpush _ h.slots
  · rw [if_neg ha]
    exact h.slots

theorem fetchWork_own (h : d.Own) {i : Nat} {records : List Nat}
    (hw : fetchWork d i = some records) : ∀ f ∈ records, f = d.info.mmioBase := by
  obtain ⟨a, -, ha⟩ := Option.bind_eq_some_iff.mp hw
  by_cases hc : (a.described && a.config.isNone && (d.devices.slotIndex a.slotId).isSome) = true
  · rw [if_pos hc] at ha
    cases ha
    exact h.foundOn a.slotId
  · rw [if_neg hc] at ha
    cases ha

theorem configureWork_own (h : d.Own) {i : Nat} {records : List Nat}
    (hw : configureWork d i = some records) : ∀ f ∈ records, f = d.info.mmioBase := by
  obtain ⟨a, -, ha⟩ := Option.bind_eq_some_iff.mp hw
  by_cases hset : a.setConfigCc = 1
  · rw [if_pos hset] at ha
    cases ha
  · rw [if_neg hset] at ha
    obtain ⟨cfg, -, hcfg⟩ := Option.bind_eq_some_iff.mp ha
    obtain ⟨interface, -, hif⟩ := Option.bind_eq_some_iff.mp hcfg
    by_cases hc : ((d.devices.slotIndex a.slotId).isSome &&
        decide (interface.endpoints.filterMap setUp ≠ [])) = true
    · rw [if_pos hc] at hif
      cases hif
      exact h.foundOn a.slotId
    · rw [if_neg hc] at hif
      cases hif

/-- A stage called with the controller of the record. -/
theorem perform_own (hinfo : info.mmioBase = d.info.mmioBase) (h : d.Own) (s : Stage) :
    (s.perform info d).1.Own ∧ (s.perform info d).1.info = d.info ∧
      ∀ r ∈ (s.perform info d).2, r.Apart := by
  cases s with
  | resetAndEnableSlots ports =>
      have hempty : { d with enumeration := some [] }.Own :=
        ⟨h.slots, h.addressed, fun r hr => by cases hr⟩
      refine sweep_own (d := { d with enumeration := some [] }) hinfo (fun _ => True) ?_ ?_ ports
        (fun _ _ => trivial) hempty
      · intro d i records _ _ _ hw f hf
        cases hw
        cases hf
      · exact fun p d _ hd hi => reportPort_own p hd hi
  | addressEnabledSlots answers =>
      refine sweep_own hinfo (fun r => r.1.foundOn = info.mmioBase) ?_ ?_ (freshReports d) ?_ h
      · intro d r records hr _ hi hw f hf
        cases hw
        rw [List.mem_singleton.mp hf]
        exact hr.trans hi
      · exact fun r d hr hd hi => addressReport_own (hr.trans hi) hd
      · exact fun r hr => (freshReports_own h r hr).trans hinfo.symm
  | fetchConfigurations answers more =>
      refine sweep_own hinfo (fun _ => True) ?_ ?_ _ (fun _ _ => trivial) h
      · exact fun d i records _ hd _ hw => fetchWork_own hd hw
      · exact fun i d _ hd _ => ⟨own_of_devices hd _, rfl⟩
  | configureEndpoints answers more =>
      refine sweep_own hinfo (fun _ => True) ?_ ?_ _ (fun _ _ => trivial) h
      · exact fun d i records _ hd _ hw => configureWork_own hd hw
      · exact fun i d _ hd _ => ⟨own_of_devices hd _, rfl⟩
  | probeMassStorage more =>
      obtain ⟨hown, hsame, happart⟩ := sweep_found hinfo (fun t => t.slotId) more
        (mscTargets d.devices) h
      exact ⟨own_of_devices hown _, hsame, happart⟩
  | probeHidMouse setProtocol more =>
      obtain ⟨hown, hsame, happart⟩ := sweep_found hinfo id (fun _ => more)
        (mouseTarget d.devices).toList h
      exact ⟨own_of_devices hown _, hsame, happart⟩

/-- A stage with nothing to do. -/
theorem perform_idle (info : XhciInfo) {s : Stage} (h : d.Own) (hs : s.Idle d) :
    (s.perform info d).1.Own ∧ (s.perform info d).1.info = d.info ∧ (s.perform info d).2 = [] := by
  cases s with
  | resetAndEnableSlots ports =>
      rw [show ports = [] from hs]
      exact ⟨⟨h.slots, h.addressed, fun r hr => by cases hr⟩, rfl, rfl⟩
  | addressEnabledSlots answers =>
      have hperform : Stage.perform info d (.addressEnabledSlots answers) = (d, []) :=
        sweep_idle _ fun r hr => absurd hr (by rw [show freshReports d = [] from hs]; simp)
      rw [hperform]
      exact ⟨h, rfl, rfl⟩
  | fetchConfigurations answers more =>
      have hperform : Stage.perform info d (.fetchConfigurations answers more) = (d, []) :=
        sweep_idle _ fun i hi => hs i (List.mem_range.mp hi)
      rw [hperform]
      exact ⟨h, rfl, rfl⟩
  | configureEndpoints answers more =>
      have hperform : Stage.perform info d (.configureEndpoints answers more) = (d, []) :=
        sweep_idle _ fun i hi => hs i (List.mem_range.mp hi)
      rw [hperform]
      exact ⟨h, rfl, rfl⟩
  | probeMassStorage more =>
      simp only [Stage.perform, show mscTargets d.devices = [] from hs]
      exact ⟨own_of_devices h _, rfl, rfl⟩
  | probeHidMouse setProtocol more =>
      simp only [Stage.perform, show mouseTarget d.devices = none from hs]
      exact ⟨own_of_devices h _, rfl, rfl⟩

/-- A stage called with another controller, with something to do. -/
theorem perform_foreign (hinfo : info.mmioBase ≠ d.info.mmioBase) {s : Stage} (hs : ¬ s.Idle d) :
    ∃ r ∈ (s.perform info d).2, ¬ r.Apart := by
  cases s with
  | resetAndEnableSlots ports =>
      refine sweep_foreign (d := { d with enumeration := some [] }) _ _ _ hinfo ports
        fun hall => hs ?_
      exact List.eq_nil_iff_forall_not_mem.mpr fun p hp => by cases hall p hp
  | addressEnabledSlots answers =>
      refine sweep_foreign _ _ _ hinfo (freshReports d) fun hall => hs ?_
      exact List.eq_nil_iff_forall_not_mem.mpr fun p hp => by cases hall p hp
  | fetchConfigurations answers more =>
      exact sweep_foreign _ _ _ hinfo _ fun hall => hs fun i hi => hall i (List.mem_range.mpr hi)
  | configureEndpoints answers more =>
      exact sweep_foreign _ _ _ hinfo _ fun hall => hs fun i hi => hall i (List.mem_range.mpr hi)
  | probeMassStorage more =>
      refine sweep_foreign (fun d t => some (d.foundOn t.slotId)) more (fun _ d => d) hinfo
        (mscTargets d.devices) fun hall => hs ?_
      exact List.eq_nil_iff_forall_not_mem.mpr fun p hp => by cases hall p hp
  | probeHidMouse setProtocol more =>
      refine sweep_foreign (fun d slotId => some (d.foundOn slotId)) (fun _ => more)
        (fun _ d => d) hinfo (mouseTarget d.devices).toList
        fun hall => hs ?_
      exact Option.toList_eq_nil_iff.mp
        (List.eq_nil_iff_forall_not_mem.mpr fun p hp => by cases hall p hp)

/-! ## Runs -/

/-- The call leaves the controllers apart: the record is not there yet or is
of the controller at hand, or there is nothing to do on it. -/
def DriverCall.Meets (s : UsbSystem) : DriverCall → Prop
  | .stage info p => ∀ d, s.driver = some d →
      info.mmioAccessible = false ∨ info.mmioBase = d.info.mmioBase ∨ p.Idle d
  | _ => True

/-- Everything on record is of one controller. -/
def UsbSystem.Own (s : UsbSystem) : Prop := ∀ d, s.driver = some d → d.Own

theorem io_apart (h : d.Own) (slots : List Byte) (more : Nat) :
    ∀ r ∈ (d.io slots more).2, r.Apart :=
  (sweep_found rfl id (fun _ => more) slots h).2.2

variable {s : UsbSystem} {c : DriverCall}

/-- A call that meets the condition. -/
theorem call_meets (h : s.Own) (hc : c.Meets s) :
    (s.call c).Own ∧ ∃ rs, (s.call c).trace = s.trace ++ rs ∧ ∀ r ∈ rs, r.Apart := by
  have hsame : s.Own ∧ ∃ rs, s.trace = s.trace ++ rs ∧ ∀ r ∈ rs, r.Apart :=
    ⟨h, [], (List.append_nil _).symm, fun r hr => by cases hr⟩
  obtain ⟨driver, trace⟩ := s
  cases driver with
  | none =>
      cases c with
      | bringUp info started =>
          unfold UsbSystem.call
          dsimp only
          by_cases hs : (info.mmioAccessible && started) = true
          · rw [if_pos hs]
            refine ⟨fun d hd => ?_, hsame.2⟩
            cases hd
            exact ⟨fun f hf => (by cases hf), fun f hf => (by cases hf), fun r hr => by cases hr⟩
          · rw [if_neg hs]
            exact hsame
      | stage info stage => exact hsame
      | driveIo slotId more => exact hsame
      | pollMouse posts more => exact hsame
  | some d =>
      have hd : d.Own := h d rfl
      cases c with
      | bringUp info started => exact hsame
      | stage info stage =>
          unfold UsbSystem.call
          dsimp only
          by_cases ha : info.mmioAccessible = true
          · rw [if_pos ha]
            rcases hc d rfl with hno | hinfo | hidle
            · rw [hno] at ha
              cases ha
            · obtain ⟨hown, -, hapart⟩ := perform_own hinfo hd stage
              exact ⟨fun d' hd' => by cases hd'; exact hown, _, rfl, hapart⟩
            · obtain ⟨hown, -, hnil⟩ := perform_idle info hd hidle
              refine ⟨fun d' hd' => by cases hd'; exact hown, _, rfl, ?_⟩
              rw [hnil]
              exact fun r hr => by cases hr
          · rw [if_neg ha]
            exact hsame
      | driveIo slotId more => exact ⟨h, _, rfl, io_apart hd _ more⟩
      | pollMouse posts more => exact ⟨h, _, rfl, io_apart hd _ more⟩

theorem call_trace (s : UsbSystem) (c : DriverCall) :
    ∃ rs, (s.call c).trace = s.trace ++ rs := by
  have hsame : ∃ rs, s.trace = s.trace ++ rs := ⟨[], (List.append_nil _).symm⟩
  obtain ⟨driver, trace⟩ := s
  cases driver with
  | none =>
      cases c with
      | bringUp info started =>
          unfold UsbSystem.call
          dsimp only
          by_cases hs : (info.mmioAccessible && started) = true
          · rw [if_pos hs]
            exact hsame
          · rw [if_neg hs]
            exact hsame
      | stage info stage => exact hsame
      | driveIo slotId more => exact hsame
      | pollMouse posts more => exact hsame
  | some d =>
      cases c with
      | bringUp info started => exact hsame
      | stage info stage =>
          unfold UsbSystem.call
          dsimp only
          by_cases ha : info.mmioAccessible = true
          · rw [if_pos ha]
            exact ⟨_, rfl⟩
          · rw [if_neg ha]
            exact hsame
      | driveIo slotId more => exact ⟨_, rfl⟩
      | pollMouse posts more => exact ⟨_, rfl⟩

/-- A call that does not. -/
theorem call_not_meets (hc : ¬ c.Meets s) :
    ∃ rs, (s.call c).trace = s.trace ++ rs ∧ ∃ r ∈ rs, ¬ r.Apart := by
  cases c with
  | stage info stage =>
      unfold DriverCall.Meets at hc
      rw [not_forall] at hc
      obtain ⟨d, hc⟩ := hc
      rw [Classical.not_imp, not_or, not_or, Bool.not_eq_false] at hc
      obtain ⟨hd, ha, hinfo, hidle⟩ := hc
      unfold UsbSystem.call
      rw [hd]
      dsimp only
      rw [if_pos ha]
      exact ⟨_, rfl, perform_foreign hinfo hidle⟩
  | bringUp info started => exact absurd trivial hc
  | driveIo slotId more => exact absurd trivial hc
  | pollMouse posts more => exact absurd trivial hc

/-- Controllers are kept apart in a run exactly if every stage of it was
called before the first bring-up, with the controller of that bring-up, or
with nothing to do. -/
theorem controllers_apart_iff (calls : List DriverCall) :
    (∀ r ∈ (UsbSystem.run calls).trace, r.Apart) ↔
      ∀ before c after, calls = before ++ c :: after → c.Meets (UsbSystem.run before) := by
  have hrun : ∀ cs c, UsbSystem.run (cs ++ [c]) = (UsbSystem.run cs).call c := by
    intro cs c
    rw [UsbSystem.run, List.foldl_append]
    rfl
  suffices h : ((∀ r ∈ (UsbSystem.run calls).trace, r.Apart) ↔
      ∀ before c after, calls = before ++ c :: after → c.Meets (UsbSystem.run before)) ∧
      ((∀ r ∈ (UsbSystem.run calls).trace, r.Apart) → (UsbSystem.run calls).Own) from h.1
  induction calls using List.reverseRecOn with
  | nil =>
      refine ⟨⟨fun _ before c after h => ?_, fun _ r hr => by cases hr⟩, fun _ d hd => by cases hd⟩
      exact absurd h.symm (List.append_ne_nil_of_right_ne_nil _ (List.cons_ne_nil _ _))
  | append_singleton cs c ih =>
      obtain ⟨ihiff, ihown⟩ := ih
      have hsplit : (∀ before c' after, cs ++ [c] = before ++ c' :: after →
          c'.Meets (UsbSystem.run before)) ↔
          (∀ before c' after, cs = before ++ c' :: after → c'.Meets (UsbSystem.run before)) ∧
            c.Meets (UsbSystem.run cs) := by
        constructor
        · intro h
          refine ⟨fun before c' after hcs => h before c' (after ++ [c]) ?_, h cs c [] rfl⟩
          rw [hcs, List.append_assoc, List.cons_append]
        · rintro ⟨h, hlast⟩ before c' after heq
          cases after using List.reverseRecOn with
          | nil =>
              obtain ⟨rfl, hc⟩ := List.append_inj' heq rfl
              cases hc
              exact hlast
          | append_singleton after c'' _ =>
              have heq' : cs ++ [c] = (before ++ c' :: after) ++ [c''] := by
                rw [heq, List.append_assoc, List.cons_append]
              exact h before c' after (List.append_inj_left' heq' rfl)
      rw [hsplit, hrun, ← ihiff]
      have hbefore : (∀ r ∈ ((UsbSystem.run cs).call c).trace, r.Apart) →
          ∀ r ∈ (UsbSystem.run cs).trace, r.Apart := by
        intro hall r hr
        obtain ⟨rs, htrace⟩ := call_trace (UsbSystem.run cs) c
        exact hall r (by rw [htrace]; exact List.mem_append_left _ hr)
      by_cases hm : c.Meets (UsbSystem.run cs)
      · constructor
        · constructor
          · exact fun hall => ⟨hbefore hall, hm⟩
          · rintro ⟨hall, -⟩
            obtain ⟨-, rs, htrace, hrs⟩ := call_meets (ihown hall) hm
            intro r hr
            rw [htrace] at hr
            rcases List.mem_append.mp hr with hr | hr
            · exact hall r hr
            · exact hrs r hr
        · exact fun hall => (call_meets (ihown (hbefore hall)) hm).1
      · obtain ⟨rs, htrace, r, hr, hbad⟩ := call_not_meets hm
        have hno : ¬ ∀ r ∈ ((UsbSystem.run cs).call c).trace, r.Apart := fun hall =>
          hbad (hall r (by rw [htrace]; exact List.mem_append_right _ hr))
        exact ⟨⟨fun hall => absurd hall hno, fun h => absurd h.2 hm⟩, fun hall => absurd hall hno⟩

/-- Nothing on any port. -/
def emptyPorts : PipelineAnswers :=
  ⟨true, [], fun _ => ⟨true, true, 0⟩, fun _ => [], fun _ => (1, 1)⟩

/-- A device on port 1, and no answer to its Enable Slot. -/
def oneDevice : PipelineAnswers := { emptyPorts with ports := [⟨1, 3, none, 0⟩] }

/-- The pipeline over two controllers, the second with a device: its Enable
Slot goes to the command ring of the first, and its own doorbell is rung. -/
theorem two_controllers_mixed :
    ⟨0xFEB00000, 0xFEB10000, 0xFEB00000, 0xFEB10000, []⟩ ∈
      (UsbSystem.run (autopilot ⟨0xFEB00000, true⟩ emptyPorts ++
        autopilot ⟨0xFEB10000, true⟩ oneDevice)).trace ∧
    ¬ ∀ r ∈ (UsbSystem.run (autopilot ⟨0xFEB00000, true⟩ emptyPorts ++
        autopilot ⟨0xFEB10000, true⟩ oneDevice)).trace, r.Apart := by
  have hmem : ⟨0xFEB00000, 0xFEB10000, 0xFEB00000, 0xFEB10000, []⟩ ∈
      (UsbSystem.run (autopilot ⟨0xFEB00000, true⟩ emptyPorts ++
        autopilot ⟨0xFEB10000, true⟩ oneDevice)).trace := by decide
  exact ⟨hmem, fun h => absurd (h _ hmem).1 (by decide)⟩

end Usb

end TablesOS
