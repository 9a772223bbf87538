import TablesOS.Proofs.ControllersApart
import TablesOS.Proofs.SecondRun

/-!
# The pipeline on one controller

The pipeline is followed twice: through the ports and replies of one controller,
with the commands it issues, and through the record that all controllers share,
with the registers each request goes to. On one controller the two are one. What
its ports and devices reply makes the answers of the stages, and a run of the
stages on a record leaves what the run on the controller leaves, with a request
for every command. This holds stage by stage, since each loop of the one takes
the items the loop of the other does and skips the same.
-/

namespace TablesOS

namespace Usb

namespace Autopilot

/-! ## What the stages are answered -/

/-- The port, if it gets a slot, with what Enable Slot answers. -/
def enabledPort (portsc : Nat → UInt32) (replies : Nat → PortReply) (port : Nat) :
    Option EnabledPort :=
  (walkPort (UInt8.ofNat port) (portsc port) (replies port)).2.2.map fun speed =>
    ⟨UInt8.ofNat port, speed, (replies port).enableSlot, 0⟩

/-- What Address Device and the device descriptor came to. -/
def AddressReply.answer (r : AddressReply) : AddressAnswer :=
  ⟨r.completion.isSome, r.completion == some 1 && r.described, 0⟩

/-- The loop of `address_enabled_slots` does not skip the report. -/
def fresh (known : List AddressedDevice) (report : SlotReport) : Bool :=
  report.slotId != 0 && report.completionCode == 1 && !known.any (·.slotId == report.slotId)

/-- What the controller of `s` answers to the whole pipeline. -/
def Session.answers (maxPorts : Byte) (r : Replies) (s : Session) : PipelineAnswers :=
  let found := (resetAndEnableSlots maxPorts r.port s).1.enumeration.elim [] (·.slots)
  { started := true
    ports := (portNumbers maxPorts).filterMap (enabledPort s.portsc r.port)
    address := fun i => (r.address
      (((found.filter (fresh s.xhci.addressed))[i]?).elim 0 (·.slotId))).answer
    configuration := r.config
    configure := r.configure }

/-- A report in a record that tells the controllers apart. -/
def SlotReport.on (mmioBase : Nat) (report : SlotReport) : Usb.SlotReport :=
  ⟨report.port, report.speed, report.completionCode, report.slotId, mmioBase⟩

/-- The record holds what the controller has left. -/
structure Shows (info : XhciInfo) (d : Driver) (s : Session) : Prop where
  enumeration : d.enumeration = s.enumeration.map fun e => e.slots.map (SlotReport.on info.mmioBase)
  devices : d.devices = s.xhci

/-! ## Loops -/

section Sweep

variable {ι σ : Type} {info : XhciInfo} {work : Driver → ι → Option (List Nat)} {more : ι → Nat}
  {act : ι → Driver → Driver}

/-- A loop follows another one that takes its items and skips those it skips. -/
theorem sweep_follows {R : Driver → σ → Prop} {f : σ → ι → σ} {l : List ι}
    (hact : ∀ i ∈ l, ∀ d s records, R d s → work d i = some records → R (act i d) (f s i))
    (hskip : ∀ i ∈ l, ∀ d s, R d s → work d i = none → R d (f s i)) {d : Driver} {s : σ}
    (h : R d s) : R (sweep info work more act l d).1 (l.foldl f s) := by
  induction l generalizing d s with
  | nil => exact h
  | cons i l ih =>
      have hact' := fun j hj => hact j (List.mem_cons_of_mem _ hj)
      have hskip' := fun j hj => hskip j (List.mem_cons_of_mem _ hj)
      rw [List.foldl_cons]
      unfold sweep
      cases hw : work d i with
      | none => exact ih hact' hskip' (hskip i List.mem_cons_self d s h hw)
      | some records => exact ih hact' hskip' (hact i List.mem_cons_self d s records h hw)

/-- A request an item, where every item has work and a single request. -/
theorem sweep_requests {l : List ι} (hwork : ∀ d i, ∃ records, work d i = some records)
    (hmore : ∀ i ∈ l, more i = 0) (d : Driver) :
    (sweep info work more act l d).2.length = l.length := by
  induction l generalizing d with
  | nil => rfl
  | cons i l ih =>
      obtain ⟨records, hw⟩ := hwork d i
      unfold sweep
      rw [hw]
      dsimp only
      rw [List.length_append, ih fun j hj => hmore j (List.mem_cons_of_mem _ hj),
        hmore i List.mem_cons_self, List.length_replicate, List.length_cons]
      omega

end Sweep

/-! ## The ports -/

/-- The report on a port that got a slot. -/
def reportOf (p : EnabledPort) : SlotReport := slotReport p.port p.speed p.answer

theorem walked_enabled (replies : Nat → PortReply) {ports : List Nat} (hports : ports.Nodup)
    (w : PortWalk) :
    (ports.foldl (portRound replies) w).slots =
        w.slots ++ (ports.filterMap (enabledPort w.portsc replies)).map reportOf ∧
      (ports.foldl (portRound replies) w).commands = w.commands ++
        (ports.filterMap (enabledPort w.portsc replies)).map (.enableSlot ·.port) := by
  induction ports generalizing w with
  | nil => exact ⟨(List.append_nil _).symm, (List.append_nil _).symm⟩
  | cons port ports ih =>
      obtain ⟨hnew, hrest⟩ := List.nodup_cons.mp hports
      obtain ⟨hslots, hcommands⟩ := ih hrest (portRound replies w port)
      have hsame : ports.filterMap (enabledPort (portRound replies w port).portsc replies) =
          ports.filterMap (enabledPort w.portsc replies) := by
        refine List.filterMap_congr fun p hp => ?_
        rw [enabledPort, portRound_portsc,
          Function.update_of_ne (fun heq : p = port => hnew (heq ▸ hp))]
        rfl
      rw [hsame] at hslots hcommands
      rw [List.foldl_cons, hslots, hcommands, List.filterMap_cons, enabledPort, portRound]
      rcases walkPort (UInt8.ofNat port) (w.portsc port) (replies port) with
        ⟨after, report, speed⟩
      cases speed with
      | none => exact ⟨rfl, rfl⟩
      | some speed => simp [reportOf]

theorem reportPort_on (info : XhciInfo) (p : EnabledPort) (d : Driver) :
    (reportPort info p d).enumeration =
      some (d.enumeration.getD [] ++ [(reportOf p).on info.mmioBase]) := by
  rw [reportPort, reportOf]
  cases p.answer <;> rfl

theorem enable_shows {info : XhciInfo} {d : Driver} {s : Session} (h : d.devices = s.xhci)
    (maxPorts : Byte) (r : Replies) :
    let stage := Stage.perform info d (.resetAndEnableSlots (s.answers maxPorts r).ports)
    let run := resetAndEnableSlots maxPorts r.port s
    Shows info stage.1 run.1 ∧ stage.2.length = run.2.length := by
  intro stage run
  obtain ⟨hslots, hcommands⟩ := walked_enabled r.port (portNumbers_nodup maxPorts)
    ⟨s.portsc, [], [], []⟩
  rw [List.nil_append] at hslots hcommands
  constructor
  · have hfold : ∀ (ps : List EnabledPort) (before : List SlotReport),
        ps.foldl (fun reports p => reports ++ [reportOf p]) before = before ++ ps.map reportOf := by
      intro ps before
      induction ps generalizing before with
      | nil => exact (List.append_nil _).symm
      | cons p ps ih => rw [List.foldl_cons, ih, List.append_assoc]; rfl
    obtain ⟨henum, hdevices⟩ := @sweep_follows EnabledPort (List SlotReport) info
      (fun _ _ => some []) EnabledPort.more (reportPort info)
      (fun d reports => d.enumeration = some (reports.map (SlotReport.on info.mmioBase)) ∧
        d.devices = s.xhci)
      (fun reports p => reports ++ [reportOf p]) (s.answers maxPorts r).ports
      (fun p _ d reports _ hR _ => ⟨by
        rw [reportPort_on, hR.1, List.map_append]
        rfl, hR.2⟩)
      (fun p _ d reports _ hnone => by cases hnone)
      { d with enumeration := some [] } [] ⟨rfl, h⟩
    refine ⟨?_, hdevices⟩
    show stage.1.enumeration = some (_ : List Usb.SlotReport)
    rw [hslots, ← List.nil_append ((List.filterMap _ _).map reportOf), ← hfold]
    exact henum
  · show stage.2.length = (List.foldl (portRound r.port) _ _).commands.length
    rw [hcommands, List.length_map]
    refine sweep_requests (fun _ _ => ⟨[], rfl⟩) (fun p hp => ?_) _
    obtain ⟨port, -, hport⟩ := List.mem_filterMap.mp hp
    obtain ⟨speed, -, rfl⟩ := Option.map_eq_some_iff.mp hport
    rfl

/-! ## The devices -/

/-- A report that is not skipped. -/
def addressed (replies : Byte → AddressReply) (st : XhciState) (report : SlotReport) : XhciState :=
  let reply := replies report.slotId
  addressSlot report.slotId report.port report.speed reply.completion.isSome
    (reply.completion == some 1 && reply.described) st

theorem addressRound_fresh (known : List AddressedDevice) (replies : Byte → AddressReply)
    (acc : XhciState × List BringUpCommand) (report : SlotReport) :
    addressRound known replies acc report =
      if fresh known report then
        (addressed replies acc.1 report, acc.2 ++ [.addressDevice report.slotId])
      else acc := by
  rw [addressRound, fresh]
  by_cases hzero : report.slotId = 0
  · simp [hzero]
  · by_cases hcc : report.completionCode = 1
    · cases hknown : known.any (·.slotId == report.slotId) <;> simp [hzero, hcc, addressed]
    · simp [hcc]

theorem addressRounds (known : List AddressedDevice) (replies : Byte → AddressReply)
    (reports : List SlotReport) (acc : XhciState × List BringUpCommand) :
    reports.foldl (addressRound known replies) acc =
      ((reports.filter (fresh known)).foldl (addressed replies) acc.1,
        acc.2 ++ (reports.filter (fresh known)).map (.addressDevice ·.slotId)) := by
  induction reports generalizing acc with
  | nil => exact Prod.ext rfl (List.append_nil _).symm
  | cons report reports ih =>
      rw [List.foldl_cons, ih, addressRound_fresh]
      cases hfresh : fresh known report <;> simp [hfresh]

theorem addressEnabledSlots_eq (replies : Byte → AddressReply) (s : Session) :
    addressEnabledSlots replies s =
      ({ s with
          xhci := ((s.enumeration.elim [] (·.slots)).filter (fresh s.xhci.addressed)).foldl
            (addressed replies) s.xhci },
        ((s.enumeration.elim [] (·.slots)).filter (fresh s.xhci.addressed)).map
          (.addressDevice ·.slotId)) := by
  obtain ⟨portsc, enumeration, xhci⟩ := s
  cases enumeration with
  | none => rfl
  | some e =>
      rw [addressEnabledSlots]
      dsimp only
      rw [addressRounds]
      rfl

theorem freshReports_shows {info : XhciInfo} {d : Driver} {s : Session} (h : Shows info d s) :
    freshReports d = ((s.enumeration.elim [] (·.slots)).filter (fresh s.xhci.addressed)).zipIdx.map
      (Prod.map (SlotReport.on info.mmioBase) id) := by
  have hreports : d.enumeration.getD [] =
      (s.enumeration.elim [] (·.slots)).map (SlotReport.on info.mmioBase) := by
    rw [h.enumeration]
    cases s.enumeration <;> rfl
  rw [freshReports, hreports, h.devices, List.filter_map, List.zipIdx_map]
  rfl

theorem address_shows {info : XhciInfo} {d : Driver} {s : Session} (h : Shows info d s)
    (answers : Nat → AddressAnswer) (replies : Byte → AddressReply)
    (hanswers : ∀ i report, ((s.enumeration.elim [] (·.slots)).filter
      (fresh s.xhci.addressed))[i]? = some report → answers i = (replies report.slotId).answer) :
    let stage := Stage.perform info d (.addressEnabledSlots answers)
    let run := addressEnabledSlots replies s
    Shows info stage.1 run.1 ∧ stage.2.length = run.2.length := by
  intro stage run
  have hrun : run = _ := addressEnabledSlots_eq replies s
  have hfresh := freshReports_shows h
  generalize (s.enumeration.elim [] (·.slots)).filter (fresh s.xhci.addressed) = reports
    at hanswers hrun hfresh
  have hitem : ∀ p ∈ freshReports d, ∃ report, p.1 = SlotReport.on info.mmioBase report ∧
      answers p.2 = (replies report.slotId).answer := by
    intro p hp
    rw [hfresh] at hp
    obtain ⟨⟨report, i⟩, hi, rfl⟩ := List.mem_map.mp hp
    exact ⟨report, rfl, hanswers i report (List.mk_mem_zipIdx_iff_getElem?.mp hi)⟩
  have hdevices : (freshReports d).foldl (fun st p => addressSlot p.1.slotId p.1.port p.1.speed
      (answers p.2).answered (answers p.2).described st) s.xhci =
      reports.foldl (addressed replies) s.xhci := by
    rw [hfresh, List.foldl_map]
    calc _ = reports.zipIdx.foldl (fun st p => addressed replies st p.1) s.xhci := by
          refine List.foldl_ext _ _ _ fun st p hp => ?_
          dsimp only [Prod.map, SlotReport.on, id]
          rw [hanswers p.2 p.1 (List.mk_mem_zipIdx_iff_getElem?.mp hp)]
          rfl
      _ = reports.foldl (addressed replies) s.xhci := by
          rw [← List.foldl_map (f := Prod.fst), List.zipIdx_map_fst]
  rw [hrun]
  constructor
  · have hsweep := @sweep_follows _ XhciState info (fun _ r => some [r.1.foundOn])
      (fun r => (answers r.2).more) (addressReport answers)
      (fun d' st => d'.enumeration = d.enumeration ∧ d'.devices = st)
      (fun st p => addressSlot p.1.slotId p.1.port p.1.speed (answers p.2).answered
        (answers p.2).described st) (freshReports d)
      (fun p _ d' st _ hR _ => ⟨hR.1, by rw [← hR.2]; rfl⟩)
      (fun p _ d' st _ hnone => by cases hnone) d s.xhci ⟨rfl, h.devices⟩
    exact ⟨hsweep.1.trans h.enumeration, hsweep.2.trans hdevices⟩
  · rw [List.length_map]
    have hlen := @sweep_requests _ info (fun _ (r : Usb.SlotReport × Nat) => some [r.1.foundOn])
      (fun r => (answers r.2).more) (addressReport answers) (freshReports d)
      (fun _ _ => ⟨_, rfl⟩) (fun p hp => by
        obtain ⟨report, -, ha⟩ := hitem p hp
        rw [ha]
        rfl) d
    exact hlen.trans (by rw [hfresh, List.length_map, List.length_zipIdx])

/-! ## Configurations, endpoints, drives -/

/-- A loop over the devices on record follows one over the same devices. -/
theorem devices_shows {info : XhciInfo} {d : Driver} {s : Session} (h : Shows info d s)
    {work : Driver → Nat → Option (List Nat)} (more : Nat → Nat) (f : XhciState → Nat → XhciState)
    (hskip : ∀ d i, work d i = none → f d.devices i = d.devices) (l : List Nat) :
    Shows info (sweep info work more (fun i d => { d with devices := f d.devices i }) l d).1
      { s with xhci := l.foldl f s.xhci } := by
  have hsweep := @sweep_follows Nat XhciState info work more
    (fun i d => { d with devices := f d.devices i })
    (fun d' st => d'.enumeration = d.enumeration ∧ d'.devices = st) f l
    (fun i _ d' st _ hR _ => ⟨hR.1, by rw [← hR.2]⟩)
    (fun i _ d' st hR hnone => ⟨hR.1, by rw [← hR.2, hskip d' i hnone]⟩) d s.xhci ⟨rfl, h.devices⟩
  exact ⟨hsweep.1.trans h.enumeration, hsweep.2⟩

theorem fetchConfiguration_skip {d : Driver} {i : Nat} (h : fetchWork d i = none)
    (bytes : List Byte) : fetchConfiguration i bytes d.devices = d.devices := by
  rw [fetchWork] at h
  rw [fetchConfiguration]
  cases ha : d.devices.addressed[i]? with
  | none => rfl
  | some a =>
      rw [ha, Option.bind_some] at h
      dsimp only
      split at h
      · cases h
      · next hcond => rw [if_neg hcond]

theorem configureDevice_skip {d : Driver} {i : Nat} (h : configureWork d i = none)
    (cfgEpCc setCc : Byte) : configureDevice i cfgEpCc setCc d.devices = d.devices := by
  rw [configureWork] at h
  rw [configureDevice]
  cases ha : d.devices.addressed[i]? with
  | none => rfl
  | some a =>
      rw [ha, Option.bind_some] at h
      dsimp only
      by_cases hset : a.setConfigCc = 1
      · rw [if_pos hset]
      rw [if_neg hset] at h ⊢
      cases hcfg : a.config with
      | none => rfl
      | some cfg =>
          rw [hcfg, Option.bind_some] at h
          dsimp only
          cases hifs : cfg.interfaces with
          | nil => rfl
          | cons interface rest =>
              rw [hifs, List.head?_cons, Option.bind_some] at h
              cases hslot : d.devices.slotIndex a.slotId with
              | none => rfl
              | some slotIdx =>
                  rw [hslot] at h
                  by_cases hnew : interface.endpoints.filterMap setUp = []
                  · exact if_pos hnew
                  · simp [hnew] at h

theorem fetch_shows {info : XhciInfo} {d : Driver} {s : Session} (h : Shows info d s)
    (bytes : Nat → List Byte) (more : Nat → Nat) :
    Shows info (Stage.perform info d (.fetchConfigurations bytes more)).1
      { s with xhci := fetchConfigurations bytes s.xhci } := by
  have hloop := devices_shows h more (fun st i => fetchConfiguration i (bytes i) st)
    (fun d i hnone => fetchConfiguration_skip hnone (bytes i))
    (List.range d.devices.addressed.length)
  rw [h.devices] at hloop
  exact h.devices ▸ hloop

theorem configure_shows {info : XhciInfo} {d : Driver} {s : Session} (h : Shows info d s)
    (answers : Nat → Byte × Byte) (more : Nat → Nat) :
    Shows info (Stage.perform info d (.configureEndpoints answers more)).1
      { s with xhci := configureEndpoints answers s.xhci } := by
  have hloop := devices_shows h more (fun st i => configureDevice i (answers i).1 (answers i).2 st)
    (fun d i hnone => configureDevice_skip hnone (answers i).1 (answers i).2)
    (List.range d.devices.addressed.length)
  rw [h.devices] at hloop
  exact h.devices ▸ hloop

theorem probe_shows {info : XhciInfo} {d : Driver} {s : Session} (h : Shows info d s)
    (more : MscTarget → Nat) :
    Shows info (Stage.perform info d (.probeMassStorage more)).1
      { s with xhci := probeMassStorage s.xhci } := by
  have hsweep := @sweep_follows MscTarget Unit info (fun d t => some (d.foundOn t.slotId)) more
    (fun _ d => d) (fun d _ => Shows info d s) (fun _ _ => ()) (mscTargets d.devices)
    (fun _ _ _ _ _ hR _ => hR) (fun _ _ _ _ hR _ => hR) d () h
  exact ⟨hsweep.enumeration, congrArg probeMassStorage hsweep.devices⟩

/-! ## Whole runs -/

theorem call_stage {info : XhciInfo} (hacc : info.mmioAccessible = true) (d : Driver)
    (trace : List Request) (stage : Stage) :
    UsbSystem.call ⟨some d, trace⟩ (.stage info stage) =
      ⟨some (stage.perform info d).1, trace ++ (stage.perform info d).2⟩ := if_pos hacc

/-- A run of the stages leaves in the record what the run on the controller
leaves, and makes a request for each of its commands. -/
theorem autopilot_shows {info : XhciInfo} (hacc : info.mmioAccessible = true) {d : Driver}
    {s : Session} (h : d.devices = s.xhci) (maxPorts : Byte) (r : Replies) (trace : List Request) :
    ∃ d' issued later, (autopilot info (s.answers maxPorts r)).foldl UsbSystem.call
        ⟨some d, trace⟩ = ⟨some d', trace ++ issued ++ later⟩ ∧
      Shows info d' (autopilotUsbDrives maxPorts r s).1 ∧
      issued.length = (autopilotUsbDrives maxPorts r s).2.length := by
  have hstage := call_stage hacc
  have henable := @enable_shows info d s h maxPorts r
  rcases h₁ : Stage.perform info d (.resetAndEnableSlots (s.answers maxPorts r).ports) with
    ⟨d₁, issued₁⟩
  rw [h₁] at henable
  obtain ⟨henabled, hlen₁⟩ := henable
  have haddress := address_shows henabled (s.answers maxPorts r).address r.address
    fun i report hi =>
      congrArg (fun o : Option SlotReport => (r.address (o.elim 0 (·.slotId))).answer) hi
  rcases h₂ : Stage.perform info d₁ (.addressEnabledSlots (s.answers maxPorts r).address) with
    ⟨d₂, issued₂⟩
  rw [h₂] at haddress
  obtain ⟨haddressed, hlen₂⟩ := haddress
  have hfetched := fetch_shows haddressed r.config fun _ => 0
  rcases h₃ : Stage.perform info d₂ (.fetchConfigurations r.config fun _ => 0) with ⟨d₃, later₃⟩
  rw [h₃] at hfetched
  have hconfigured := configure_shows hfetched r.configure fun _ => 0
  rcases h₄ : Stage.perform info d₃ (.configureEndpoints r.configure fun _ => 0) with ⟨d₄, later₄⟩
  rw [h₄] at hconfigured
  have hprobed := probe_shows hconfigured fun _ => 0
  rcases h₅ : Stage.perform info d₄ (.probeMassStorage fun _ => 0) with ⟨d₅, later₅⟩
  rw [h₅] at hprobed
  refine ⟨d₅, issued₁ ++ issued₂, later₃ ++ later₄ ++ later₅, ?_, hprobed, ?_⟩
  · have hup : UsbSystem.call ⟨some d, trace⟩ (.bringUp info (s.answers maxPorts r).started) =
        ⟨some d, trace⟩ := rfl
    have hcalls : autopilot info (s.answers maxPorts r) =
        [.bringUp info (s.answers maxPorts r).started,
          .stage info (.resetAndEnableSlots (s.answers maxPorts r).ports),
          .stage info (.addressEnabledSlots (s.answers maxPorts r).address),
          .stage info (.fetchConfigurations r.config fun _ => 0),
          .stage info (.configureEndpoints r.configure fun _ => 0),
          .stage info (.probeMassStorage fun _ => 0)] := rfl
    rw [hcalls, List.foldl_cons, hup, List.foldl_cons, hstage, h₁, List.foldl_cons, hstage, h₂,
      List.foldl_cons, hstage, h₃, List.foldl_cons, hstage, h₄, List.foldl_cons, hstage, h₅,
      List.foldl_nil]
    simp only [List.append_assoc]
  · rw [List.length_append, hlen₁, hlen₂]
    exact List.length_append.symm

/-- The calls of one run after the other, each over what the one before it left. -/
def calls (info : XhciInfo) (maxPorts : Byte) : Session → List Replies → List DriverCall
  | _, [] => []
  | s, r :: rs => autopilot info (s.answers maxPorts r) ++
      calls info maxPorts (autopilotUsbDrives maxPorts r s).1 rs

/-- However often the pipeline runs on the controller, its record is the one the calls keep. -/
theorem autopilots_show {info : XhciInfo} (hacc : info.mmioAccessible = true) (maxPorts : Byte)
    (rs : List Replies) {d : Driver} {s : Session} (h : d.devices = s.xhci) (trace : List Request) :
    ∃ d' trace', (calls info maxPorts s rs).foldl UsbSystem.call ⟨some d, trace⟩ =
        ⟨some d', trace'⟩ ∧
      d'.devices = (rs.foldl (fun s r => (autopilotUsbDrives maxPorts r s).1) s).xhci := by
  induction rs generalizing d s trace with
  | nil => exact ⟨d, trace, rfl, h⟩
  | cons r rs ih =>
      obtain ⟨d₁, issued, later, hrun, hshows, -⟩ := autopilot_shows hacc h maxPorts r trace
      obtain ⟨d', trace', hrest, hdevices⟩ := ih hshows.devices (trace ++ issued ++ later)
      refine ⟨d', trace', ?_, hdevices⟩
      rw [calls, List.foldl_append, hrun, hrest]

end Autopilot

end Usb

end TablesOS
