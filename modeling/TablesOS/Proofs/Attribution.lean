import TablesOS.Kernel.Rings

/-!
# Whose completion a wait returns

`drain_event` takes the first event of the type it waits for, mouse events
apart, and never compares the TRB it is for. So a wait is answered with its
own event when nothing that was posted earlier can still produce one. That is
a fact about the state a request is posted in, and it lasts as long as the
wait: while the driver waits, nobody posts anything.
-/

namespace TablesOS

namespace Usb

variable {s s' : Bus} {a : Act}

/-! ## Runs -/

/-- The states of runs whose steps all satisfy `P`. -/
inductive Bus.Reachable (P : Bus → Act → Prop) : Bus → Prop
  | fresh : Reachable P Bus.fresh
  | step {s s' : Bus} {a : Act} (h : Reachable P s) (hP : P s a) (hs : s.Step a s') :
      Reachable P s'

/-- What holds at the start and is preserved by the allowed steps. -/
theorem Bus.Reachable.invariant {P : Bus → Act → Prop} {I : Bus → Prop} (h₀ : I Bus.fresh)
    (hI : ∀ s a s', I s → P s a → s.Step a s' → I s') (h : Bus.Reachable P s) : I s := by
  induction h with
  | fresh => exact h₀
  | step _ hP hs ih => exact hI _ _ _ ih hP hs

/-! ## What may still complete -/

/-- The slot is not the mouse's. -/
def Bus.OffMouse (s : Bus) (slotId : Byte) : Prop := ∀ m, s.mouse = some m → m.ep.slotId ≠ slotId

theorem isMouseEvent_transfer {e : Event} (h : e.trbType = 32) :
    s.isMouseEvent e = false ↔ s.OffMouse e.slotId := by
  unfold Bus.isMouseEvent Bus.OffMouse
  rw [h]
  cases s.mouse with
  | none => simp
  | some m => simp

theorem isMouseEvent_serviceMouse (e e' : Event) :
    ({ s with mouse := s.serviceMouse e } : Bus).isMouseEvent e' = s.isMouseEvent e' := by
  unfold Bus.isMouseEvent Bus.serviceMouse
  cases s.mouse with
  | none => rfl
  | some m => by_cases h : e.accepted = true <;> simp [h]

theorem offMouse_serviceMouse (e : Event) (slotId : Byte) :
    ({ s with mouse := s.serviceMouse e } : Bus).OffMouse slotId ↔ s.OffMouse slotId := by
  unfold Bus.OffMouse Bus.serviceMouse
  cases s.mouse with
  | none => simp
  | some m => by_cases h : e.accepted = true <;> simp [h]

/-- A ring that runs after a command ran before or is empty. -/
theorem effect_running {c : Command} {ep : EndpointId} {r : TransferRing}
    (h : (c.effect ep r).state = .running) :
    (c.effect ep r).queue = [] ∨ c.effect ep r = r := by
  unfold Command.effect at h ⊢
  cases c with
  | wire eps =>
      dsimp only at h ⊢
      by_cases hep : ep ∈ eps
      · rw [if_pos hep]
        exact Or.inl rfl
      · rw [if_neg hep]
        exact Or.inr rfl
  | resetEndpoint ep' =>
      dsimp only at h ⊢
      by_cases hep : ep = ep' ∧ r.state = .halted
      · rw [if_pos hep] at h
        cases h
      · rw [if_neg hep]
        exact Or.inr rfl
  | setTrDequeue ep' =>
      dsimp only at h ⊢
      by_cases hep : ep = ep' ∧ r.state = .stopped
      · rw [if_pos hep]
        exact Or.inl rfl
      · rw [if_neg hep]
        exact Or.inr rfl
  | other => exact Or.inr rfl

/-- Every transfer off the mouse's slot that may complete now, or has and is
not read yet, is `own`. -/
structure OnlyTransfer (s : Bus) (own : Nat) : Prop where
  events : ∀ e ∈ s.events, e.trbType = 32 → s.isMouseEvent e = false → e.parameter = own
  rings : ∀ ep, (s.rings ep).state = .running → s.OffMouse ep.slotId →
    ∀ td ∈ (s.rings ep).queue, td.id = own

/-- The same of commands. -/
structure OnlyCommand (s : Bus) (own : Nat) : Prop where
  events : ∀ e ∈ s.events, e.trbType = 33 → e.parameter = own
  commands : ∀ c ∈ s.commands, c.1 = own

/-- No transfer posted before can be taken for one on `ep`: off the mouse's
slot none is left on a ring that runs, or that the doorbell starts, and no
completion is unread. -/
structure TransfersClear (s : Bus) (ep : EndpointId) : Prop where
  events : ∀ e ∈ s.events, e.trbType = 32 → s.isMouseEvent e = true
  rings : ∀ ep', (s.rings ep').state = .running ∨ ep' = ep ∧ (s.rings ep').state = .stopped →
    s.OffMouse ep'.slotId → (s.rings ep').queue = []

/-- No command posted before is left, and no completion is unread. -/
structure CommandsClear (s : Bus) : Prop where
  events : ∀ e ∈ s.events, e.trbType ≠ 33
  commands : s.commands = []

/-- A request is only posted when nothing can be taken for it. -/
def Bus.Clear (s : Bus) : Prop :=
  match s.control with
  | .at (.transfer ep _ _) => TransfersClear s ep
  | .at (.command _ _) => CommandsClear s
  | _ => True

/-! ## The invariant -/

/-- What a wait relies on. -/
def Sole (s : Bus) : Control → Prop
  | .at _ => True
  | .wait want own _ => want = 32 ∧ OnlyTransfer s own ∨ want = 33 ∧ OnlyCommand s own

structure Attributed (s : Bus) : Prop where
  sole : Sole s s.control
  answered : ∀ p ∈ s.answered, p.1 = p.2

theorem attributed_fresh : Attributed Bus.fresh := ⟨trivial, fun _ hp => by cases hp⟩

/-- A transfer posted in a clear state is the only one. -/
theorem onlyTransfer_post {ep : EndpointId} {buffers : List Nat} (h : TransfersClear s ep)
    (c : Control) (n : Nat) :
    OnlyTransfer { s with control := c, next := n, rings := s.post ⟨s.next, ep, buffers⟩ }
      s.next := by
  constructor
  · intro e he ht hm
    have hm' : s.isMouseEvent e = false := hm
    rw [h.events e he ht] at hm'
    cases hm'
  · intro ep' hrun hoff td htd
    have hoff' : s.OffMouse ep'.slotId := hoff
    dsimp only [Bus.post] at hrun htd
    by_cases hep : ep' = ep
    · rw [if_pos hep] at hrun htd
      have hold : (s.rings ep').queue = [] := by
        refine h.rings ep' ?_ hoff'
        by_cases hst : (s.rings ep').state = .stopped
        · exact Or.inr ⟨hep, hst⟩
        · refine Or.inl ?_
          dsimp only [TransferRing.ring] at hrun
          rw [if_neg hst] at hrun
          exact hrun
      dsimp only [TransferRing.ring] at htd
      rw [hold, List.nil_append] at htd
      rw [List.mem_singleton.mp htd]
    · rw [if_neg hep] at hrun htd
      rw [h.rings ep' (Or.inl hrun) hoff'] at htd
      cases htd

theorem onlyCommand_post {c : Command} (h : CommandsClear s) (ctl : Control) (n : Nat) :
    OnlyCommand { s with control := ctl, next := n, commands := s.commands ++ [(s.next, c)] }
      s.next := by
  constructor
  · intro e he ht
    exact absurd ht (h.events e he)
  · intro p hp
    dsimp only at hp
    rw [h.commands, List.nil_append] at hp
    rw [List.mem_singleton.mp hp]

/-- Fewer events are unread. -/
theorem OnlyTransfer.tail {own : Nat} {e : Event} {es : List Event} (h : OnlyTransfer s own)
    (he : s.events = e :: es) : OnlyTransfer { s with events := es } own :=
  ⟨fun e' he' => h.events e' (by rw [he]; exact List.mem_cons_of_mem _ he'), h.rings⟩

theorem OnlyCommand.tail {own : Nat} {e : Event} {es : List Event} (h : OnlyCommand s own)
    (he : s.events = e :: es) : OnlyCommand { s with events := es } own :=
  ⟨fun e' he' => h.events e' (by rw [he]; exact List.mem_cons_of_mem _ he'), h.commands⟩

theorem OnlyTransfer.service {own : Nat} (h : OnlyTransfer s own) (e : Event) :
    OnlyTransfer { s with mouse := s.serviceMouse e } own := by
  constructor
  · intro e' he' ht hm
    rw [isMouseEvent_serviceMouse] at hm
    exact h.events e' he' ht hm
  · intro ep hrun hoff
    exact h.rings ep hrun ((offMouse_serviceMouse e _).mp hoff)

/-- While the driver waits, the controller adds nothing of anybody else's. -/
theorem OnlyTransfer.controller {own : Nat} (h : OnlyTransfer s own) (hs : s.Step .controller s') :
    OnlyTransfer s' own := by
  cases hs with
  | complete ep cc length hr =>
      rename_i td tds
      have htd : s.OffMouse ep.slotId → td.id = own := fun hoff =>
        h.rings ep (by rw [hr]) hoff td (by rw [hr]; exact List.mem_cons_self)
      constructor
      · intro e he ht hm
        rcases List.mem_append.mp he with he | he
        · exact h.events e he ht hm
        · rw [List.mem_singleton.mp he] at hm ⊢
          exact htd ((isMouseEvent_transfer (s := s) rfl).mp hm)
      · intro ep' hrun hoff td' htd'
        dsimp only at hrun htd'
        by_cases hep : ep' = ep
        · rw [if_pos hep] at hrun htd'
          by_cases hcc : cc = 1 ∨ cc = 13
          · rw [if_pos hcc] at htd'
            refine h.rings ep' (by rw [hep, hr]) hoff td' ?_
            rw [hep, hr]
            exact List.mem_cons_of_mem _ htd'
          · rw [if_neg hcc] at hrun
            cases hrun
        · rw [if_neg hep] at hrun htd'
          exact h.rings ep' hrun hoff td' htd'
  | execute cc slotId hc =>
      rename_i id c cs
      constructor
      · intro e he ht hm
        rcases List.mem_append.mp he with he | he
        · exact h.events e he ht hm
        · rw [List.mem_singleton.mp he] at ht
          exact absurd (show (33 : Byte) = 32 from ht) (by decide)
      · intro ep hrun hoff td htd
        dsimp only at hrun htd
        by_cases hcc : cc = 1
        · rw [if_pos hcc] at hrun htd
          rcases effect_running hrun with hnil | hsame
          · rw [hnil] at htd
            cases htd
          · rw [hsame] at hrun htd
            exact h.rings ep hrun hoff td htd
        · rw [if_neg hcc] at hrun htd
          exact h.rings ep hrun hoff td htd
  | notify e hne =>
      refine ⟨fun e' he' ht hm => ?_, h.rings⟩
      rcases List.mem_append.mp he' with he' | he'
      · exact h.events e' he' ht hm
      · rw [List.mem_singleton.mp he'] at ht
        exact absurd ht hne.1

theorem OnlyCommand.controller {own : Nat} (h : OnlyCommand s own) (hs : s.Step .controller s') :
    OnlyCommand s' own := by
  cases hs with
  | complete ep cc length hr =>
      refine ⟨fun e he ht => ?_, h.commands⟩
      rcases List.mem_append.mp he with he | he
      · exact h.events e he ht
      · rw [List.mem_singleton.mp he] at ht
        exact absurd (show (32 : Byte) = 33 from ht) (by decide)
  | execute cc slotId hc =>
      constructor
      · intro e he ht
        rcases List.mem_append.mp he with he | he
        · exact h.events e he ht
        · rw [List.mem_singleton.mp he]
          exact h.commands _ (by rw [hc]; exact List.mem_cons_self)
      · intro p hp
        exact h.commands p (by rw [hc]; exact List.mem_cons_of_mem _ hp)
  | notify e hne =>
      refine ⟨fun e' he' ht => ?_, h.commands⟩
      rcases List.mem_append.mp he' with he' | he'
      · exact h.events e' he' ht
      · rw [List.mem_singleton.mp he'] at ht
        exact absurd ht hne.2

/-- The controller moves neither the driver nor what it has been answered. -/
theorem controller_frame (hs : s.Step .controller s') :
    s'.control = s.control ∧ s'.answered = s.answered := by
  cases hs <;> exact ⟨rfl, rfl⟩

/-- Driver steps that end no wait and begin none. -/
theorem attributed_at {p : Script Unit} (h : Attributed s) (hc : s'.control = .at p)
    (ha : s'.answered = s.answered) : Attributed s' :=
  ⟨by rw [hc]; exact trivial, by rw [ha]; exact h.answered⟩

/-- A state in the same wait. -/
theorem attributed_wait {want : Byte} {own : Nat} {k : Option Event → Script Unit}
    (h : Attributed s) (hc : s.control = .wait want own k) (hc' : s'.control = s.control)
    (ha : s'.answered = s.answered) (ht : OnlyTransfer s own → OnlyTransfer s' own)
    (hcmd : OnlyCommand s own → OnlyCommand s' own) : Attributed s' := by
  have hsole := h.sole
  rw [hc] at hsole
  refine ⟨?_, by rw [ha]; exact h.answered⟩
  rw [hc', hc]
  rcases hsole with ⟨hw, honly⟩ | ⟨hw, honly⟩
  · exact Or.inl ⟨hw, ht honly⟩
  · exact Or.inr ⟨hw, hcmd honly⟩

theorem attributed_controller (h : Attributed s) (hs : s.Step .controller s') :
    Attributed s' := by
  obtain ⟨hctl, hans⟩ := controller_frame hs
  cases hc : s.control with
  | «at» p => exact attributed_at h (hctl.trans hc) hans
  | wait want own k =>
      exact attributed_wait h hc hctl hans (fun ho => ho.controller hs) fun ho => ho.controller hs

/-- Every step from a clear state. -/
theorem attributed_step (h : Attributed s) (hclear : s.Clear) (hs : s.Step a s') :
    Attributed s' := by
  cases a with
  | controller => exact attributed_controller h hs
  | begin c =>
      cases hs with
      | begin c hc => exact attributed_at h rfl rfl
  | deadline =>
      cases hs with
      | deadline hc he => exact attributed_at h rfl rfl
  | driver =>
      cases hs with
      | alloc hc => exact attributed_at h rfl rfl
      | free hc => exact attributed_at h rfl rfl
      | transfer hc =>
          unfold Bus.Clear at hclear
          rw [hc] at hclear
          exact ⟨Or.inl ⟨rfl, onlyTransfer_post hclear _ _⟩, h.answered⟩
      | command hc =>
          unfold Bus.Clear at hclear
          rw [hc] at hclear
          exact ⟨Or.inr ⟨rfl, onlyCommand_post hclear _ _⟩, h.answered⟩
      | drained hc he => exact attributed_at h rfl rfl
      | drainMouse hc he hm => exact attributed_at h hc rfl
      | drainDrop hc he hm => exact attributed_at h hc rfl
      | bindMouse hc => exact attributed_at h rfl rfl
      | armMouse hc hm ha => exact attributed_at h rfl rfl
      | armedMouse hc hm => exact attributed_at h rfl rfl
      | mouse hc => exact attributed_at h rfl rfl
      | mouseReset hc => exact attributed_at h rfl rfl
      | service hc he hm =>
          exact attributed_wait h hc rfl rfl (fun ho => (ho.tail he).service _) fun ho =>
            ⟨(ho.tail he).events, ho.commands⟩
      | skip hc he hm ht =>
          exact attributed_wait h hc rfl rfl (fun ho => ho.tail he) fun ho => ho.tail he
      | answer hc he hm ht =>
          refine ⟨trivial, fun p hp => ?_⟩
          have hsole := h.sole
          rw [hc] at hsole
          rcases List.mem_cons.mp hp with rfl | hp
          · rcases hsole with ⟨hw, honly⟩ | ⟨hw, honly⟩
            · exact (honly.events _ (by rw [he]; exact List.mem_cons_self) (ht.trans hw) hm).symm
            · exact (honly.events _ (by rw [he]; exact List.mem_cons_self) (ht.trans hw)).symm
          · exact h.answered p hp

/-- In a run that posts every request in a clear state, every wait that is
answered is answered with its own event. -/
theorem completion_attributed (h : Bus.Reachable (fun s _ => s.Clear) s) :
    ∀ p ∈ s.answered, p.1 = p.2 :=
  (h.invariant attributed_fresh fun _ _ _ hI hclear hs => attributed_step hI hclear hs).answered

/-! ## Two runs -/

/-- The control endpoint of slot 1. -/
def ep0 : EndpointId := ⟨1, 1⟩

theorem wire_queue (eps : List EndpointId) (ep : EndpointId) (st : RingState) :
    ((Command.wire eps).effect ep ⟨st, []⟩).queue = [] := by
  unfold Command.effect
  dsimp only
  by_cases h : ep ∈ eps
  · rw [if_pos h]
  · rw [if_neg h]

/-- A control transfer that is answered in time. -/
theorem completion_attributed_control : ∃ s : Bus, s.answered = [(1, 1), (0, 0)] ∧
    ∀ p ∈ s.answered, p.1 = p.2 := by
  have h₁ := Bus.Reachable.fresh.step (P := fun s _ => s.Clear) trivial
    (.begin (.command (.wire [ep0])) rfl)
  have h₂ := h₁.step ⟨fun e he => (by cases he), rfl⟩ (.command rfl)
  have h₃ := h₂.step trivial (.execute 1 0 rfl)
  have h₄ := h₃.step trivial (.answer rfl rfl rfl rfl)
  have h₅ := h₄.step trivial (.begin (.control 1 false) rfl)
  have h₆ := h₅.step ⟨fun e he => (by cases he), fun ep _ _ => wire_queue [ep0] ep .disabled⟩
    (.transfer rfl)
  have h₇ := h₆.step trivial (.complete ep0 1 0 rfl)
  have h₈ := h₇.step trivial (.answer rfl rfl rfl rfl)
  exact ⟨_, rfl, completion_attributed h₈⟩

/-- A control transfer that gave up, and one after it: the second returns
with the late completion of the first. -/
theorem late_completion_taken : ∃ s : Bus, Bus.Reachable (fun _ _ => True) s ∧
    (2, 1) ∈ s.answered := by
  have h₁ := Bus.Reachable.fresh.step (P := fun _ _ => True) trivial
    (.begin (.command (.wire [ep0])) rfl)
  have h₂ := h₁.step trivial (.command rfl)
  have h₃ := h₂.step trivial (.execute 1 0 rfl)
  have h₄ := h₃.step trivial (.answer rfl rfl rfl rfl)
  have h₅ := h₄.step trivial (.begin (.control 1 false) rfl)
  have h₆ := h₅.step trivial (.transfer rfl)
  have h₇ := h₆.step trivial (.deadline rfl rfl)
  have h₈ := h₇.step trivial (.begin (.control 1 false) rfl)
  have h₉ := h₈.step trivial (.transfer rfl)
  have h₁₀ := h₉.step trivial (.complete ep0 1 0 rfl)
  have h₁₁ := h₁₀.step trivial (.answer rfl rfl rfl rfl)
  exact ⟨_, h₁₁, List.mem_cons_self⟩

end Usb

end TablesOS
