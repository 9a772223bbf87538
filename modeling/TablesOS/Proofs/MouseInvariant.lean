import TablesOS.Kernel.MouseReports
import Mathlib.Data.List.Infix

/-!
# The one report in flight

At most one report TRB is in the controller's hands, and this is what keeps the
single buffer safe: a report is read out of it before the next can come. The
record's `armed` flag stands for that one TRB. Once the flag is set, the TRB is
either outstanding or its completion is on the way, on the event ring or being
served; once it is clear, neither.

An error ends this for a while. The endpoint is halted, the poll that saw the
error posts another TRB all the same, and the next poll resets the endpoint and
moves its dequeue pointer past every TRB posted. If that has happened when the
poll clears the flags, the flag again stands for what it should. So the runs that
keep the promise are told by two things: a report is long enough to fill the bytes
that are read, and flags are cleared only when the ring is empty. `Inv` is what
holds all along such a run.
-/

namespace TablesOS

namespace Usb

/-! ## Where a poll is -/

/-- The wait is one of a poll that recovers the endpoint. -/
def EventLoop.recovering : EventLoop → Bool
  | .wait _ .idle => false
  | .wait _ _ => true
  | .drain => false

/-- The commands that a recovery has issued when it is here. -/
def EventLoop.issued (posted : Nat) : EventLoop → List RecoveryCommand
  | .wait _ .setDequeue => [.resetEndpoint]
  | .wait _ .clear => [.resetEndpoint, .setTrDequeue posted]
  | _ => []

namespace MousePc

def recovering : MousePc → Bool
  | reset | setDequeue | clear => true
  | events l | service _ l => l.recovering
  | _ => false

def issued (posted : Nat) : MousePc → List RecoveryCommand
  | setDequeue => [.resetEndpoint]
  | clear => [.resetEndpoint, .setTrDequeue posted]
  | events l | service _ l => l.issued posted
  | _ => []

/-- The completion that is being served. -/
def serving : MousePc → List Byte
  | service cc _ => [cc]
  | _ => []

end MousePc

namespace MouseBus

variable {s s' : MouseBus}

/-- The completions on the event ring. -/
def waiting (s : MouseBus) (es : List Event) : List Byte :=
  (es.filter s.isMouseEvent).map (·.completionCode)

/-- The completions that the record has not been told of. -/
def codes (s : MouseBus) : List Byte := s.pc.serving ++ s.waiting s.events

/-- The report that has been set aside for the next poll. -/
def setAside (s : MouseBus) : List MouseDelta :=
  if s.mouse.dirty then
    [⟨s.mouse.accumDx, s.mouse.accumDy, s.mouse.buttons &&& 0x01 ≠ 0,
      s.mouse.buttons &&& 0x02 ≠ 0⟩]
  else []

/-- The reports that the record has not been told of: what the buffer holds, as
often as a completion says so. -/
def onTheWay (s : MouseBus) : List MouseDelta :=
  (s.codes.filter isReport).map fun _ => reportDelta s.buffer

/-! ## The invariant -/

/-- Outside of a recovery. -/
structure Normal (s : MouseBus) : Prop where
  commands : s.commands = []
  halted : s.failed = true → s.state = .halted
  started : s.failed = false → s.state = .running ∨ s.state = .stopped ∧ s.dequeue = s.posted
  armed : s.mouse.armed.toNat = s.outstanding + s.codes.length
  broken : s.failed = true ↔ s.mouse.needsReset = true ∨ ∃ c ∈ s.codes, isReport c = false

/-- In a recovery: the dequeue pointer has not been moved yet, or it has. -/
structure Recovering (s : MouseBus) : Prop where
  needsReset : s.mouse.needsReset = true
  place :
    (s.failed = true ∧ (s.state = .halted ∨ s.state = .stopped) ∧
      s.mouse.armed.toNat = s.outstanding ∧ s.commands <:+ s.pc.issued s.posted) ∨
    (s.failed = false ∧ s.state = .stopped ∧ s.dequeue = s.posted ∧ s.commands = [] ∧
      .setTrDequeue s.posted ∈ s.pc.issued s.posted)

structure Inv (s : MouseBus) : Prop where
  room : s.dequeue + s.failed.toNat ≤ s.posted
  quiet : s.mouse.needsReset = true → s.codes = []
  normal : s.pc.recovering = false → Normal s
  recovering : s.pc.recovering = true → Recovering s
  account : s.completed.map reportDelta = s.returned ++ s.setAside ++ s.onTheWay
  dirty : s.mouse.dirty = true → s.mouse.armed = false ∨ s.pc = .deliver
  clean : s.mouse.dirty = false → s.mouse.accumDx = 0 ∧ s.mouse.accumDy = 0
  bound : s.pc = .bind → s.mouse.dirty = false

theorem JustBound.inv (h : s.JustBound) : Inv s := by
  obtain ⟨hstate, hfailed, hdequeue⟩ := h.ring
  have hwaiting : s.waiting s.events = [] := by
    rw [waiting, List.filter_eq_nil_iff.mpr fun e he => by simp [h.events e he]]
    rfl
  have hcodes : s.codes = [] := by
    rw [codes, h.pc, hwaiting]
    rfl
  have hout : s.outstanding = 0 := by
    rw [outstanding, hdequeue]
    omega
  refine ⟨?_, fun _ => hcodes, fun _ => ⟨h.commands, ?_, fun _ => .inl hstate, ?_, ?_⟩, ?_, ?_, ?_,
    ?_, ?_⟩
  · rw [hfailed, hdequeue]
    exact Nat.le_refl _
  · intro hf
    rw [hfailed] at hf
    cases hf
  · rw [h.mouse, hout, hcodes]
    rfl
  · rw [hfailed, h.mouse, hcodes]
    simp
  · intro hrec
    rw [h.pc] at hrec
    cases hrec
  · rw [h.completed, h.returned, setAside, onTheWay, hcodes, h.mouse]
    rfl
  · intro hd
    rw [h.mouse] at hd
    cases hd
  · intro _
    rw [h.mouse]
    exact ⟨rfl, rfl⟩
  · intro _
    rw [h.mouse]

/-! ## Steps that only go on -/

/-- The driver goes on, and events that are not the mouse's come and go. -/
theorem Inv.goto (h : Inv s) {p : MousePc} {es : List Event}
    (hcodes : p.serving ++ s.waiting es = s.codes) (hrec : p.recovering = s.pc.recovering)
    (hissued : p.issued s.posted = s.pc.issued s.posted) (hbind : p = .bind → s.pc = .bind)
    (hdeliver : s.pc = .deliver → p = .deliver) :
    Inv { s with pc := p, events := es } := by
  have hcodes' : ({ s with pc := p, events := es } : MouseBus).codes = s.codes := hcodes
  refine ⟨h.room, fun hn => hcodes'.trans (h.quiet hn), fun hp => ?_, fun hp => ?_, ?_, ?_, h.clean,
    fun hb => h.bound (hbind hb)⟩
  · obtain ⟨hcommands, hhalted, hstarted, harmed, hbroken⟩ := h.normal (hrec ▸ hp)
    refine ⟨hcommands, hhalted, hstarted, ?_, ?_⟩
    · rw [hcodes']
      exact harmed
    · rw [hcodes']
      exact hbroken
  · obtain ⟨hneeds, hplace⟩ := h.recovering (hrec ▸ hp)
    rw [← hissued] at hplace
    exact ⟨hneeds, hplace⟩
  · show _ = s.returned ++ s.setAside ++ _
    rw [onTheWay, hcodes']
    exact h.account
  · exact fun hd => (h.dirty hd).imp_right hdeliver

theorem waiting_append (es es' : List Event) :
    s.waiting (es ++ es') = s.waiting es ++ s.waiting es' := by
  rw [waiting, List.filter_append, List.map_append]
  rfl

theorem waiting_mouse {e : Event} (es : List Event) (he : s.isMouseEvent e = true) :
    s.waiting (e :: es) = e.completionCode :: s.waiting es := by
  rw [waiting, List.filter_cons_of_pos he]
  rfl

theorem waiting_other {e : Event} (es : List Event) (he : s.isMouseEvent e = false) :
    s.waiting (e :: es) = s.waiting es := by
  rw [waiting, List.filter_cons_of_neg (by simp [he])]
  rfl

theorem Inv.notify (h : Inv s) {e : Event} (he : s.isMouseEvent e = false) :
    Inv { s with events := s.events ++ [e] } := by
  refine @Inv.goto s h s.pc (s.events ++ [e]) ?_ rfl rfl id id
  rw [waiting_append, waiting_other [] he]
  exact congrArg _ (List.append_nil _)

theorem serving_after (after : AfterWait) : after.pc.serving = [] := by
  cases after <;> rfl

theorem recovering_after (want : Byte) (after : AfterWait) :
    after.pc.recovering = (EventLoop.wait want after).recovering := by
  cases after <;> rfl

theorem issued_after (want : Byte) (after : AfterWait) (posted : Nat) :
    after.pc.issued posted = (EventLoop.wait want after).issued posted := by
  cases after <;> rfl

/-- A wait is over. -/
theorem Inv.answered (h : Inv s) {want : Byte} {after : AfterWait} {es : List Event}
    (hpc : s.pc = .events (.wait want after)) (hes : s.waiting es = s.waiting s.events) :
    Inv { s with pc := after.pc, events := es } := by
  refine h.goto ?_ ?_ ?_ ?_ ?_
  · rw [codes, hpc, hes, serving_after]
    rfl
  · rw [hpc]
    exact recovering_after want after
  · rw [hpc]
    exact issued_after want after s.posted
  · cases after <;> exact fun hb => by cases hb
  · rw [hpc]
    exact fun hd => by cases hd

theorem Inv.eventRound (h : Inv s) {l : EventLoop} (hpc : s.pc = .events l)
    (hs : s.eventRound l = some s') : Inv s' := by
  have hcodes : s.codes = s.waiting s.events := by
    rw [codes, hpc]
    rfl
  have hnot {q : MousePc} : s.pc = .deliver → q = .deliver := by
    rw [hpc]
    exact fun hd => by cases hd
  cases hes : s.events with
  | nil =>
      simp only [MouseBus.eventRound, hes] at hs
      cases l with
      | wait want after => cases hs
      | drain =>
          cases hs
          rw [← hes]
          refine h.goto hcodes.symm ?_ ?_ (fun hb => by cases hb) hnot
          · rw [hpc]
            rfl
          · rw [hpc]
            rfl
  | cons e es =>
      rw [hes] at hcodes
      simp only [MouseBus.eventRound, hes] at hs
      cases hmouse : s.isMouseEvent e with
      | true =>
          rw [hmouse] at hs
          cases hs
          rw [waiting_mouse es hmouse] at hcodes
          refine h.goto hcodes.symm ?_ ?_ (fun hb => by cases hb) hnot
          · rw [hpc]
            rfl
          · rw [hpc]
            rfl
      | false =>
          rw [hmouse] at hs
          have hrest : s.waiting es = s.waiting s.events := by
            rw [hes, waiting_other es hmouse]
          have hskip : Inv { s with events := es } := by
            refine @Inv.goto s h s.pc es ?_ rfl rfl id id
            rw [hrest]
            rfl
          cases l with
          | drain =>
              cases hs
              exact hskip
          | wait want after =>
              simp only [Bool.false_eq_true, if_false] at hs
              split at hs
              · cases hs
                exact h.answered hpc hrest
              · cases hs
                exact hskip

/-! ## The record of the mouse -/

theorem Inv.armed_of_serving (h : Inv s) {cc : Byte} {l : EventLoop} (hpc : s.pc = .service cc l) :
    l.recovering = false ∧ s.mouse.armed = true ∧ s.outstanding = 0 ∧
      s.waiting s.events = [] ∧ s.mouse.needsReset = false := by
  have hcodes : s.codes = cc :: s.waiting s.events := by
    rw [codes, hpc]
    rfl
  have hneeds : s.mouse.needsReset = false := by
    cases hn : s.mouse.needsReset with
    | false => rfl
    | true =>
        have hquiet := h.quiet hn
        rw [hcodes] at hquiet
        cases hquiet
  have hrec : s.pc.recovering = false := by
    cases hr : s.pc.recovering with
    | false => rfl
    | true =>
        have := (h.recovering hr).needsReset
        rw [hneeds] at this
        cases this
  have harmed := (h.normal hrec).armed
  have hle := Bool.toNat_le s.mouse.armed
  rw [hcodes, List.length_cons] at harmed
  refine ⟨?_, ?_, by omega, List.length_eq_zero_iff.mp (by omega), hneeds⟩
  · rw [hpc] at hrec
    exact hrec
  · cases ha : s.mouse.armed with
    | true => rfl
    | false =>
        rw [ha] at harmed
        simp at harmed

theorem Inv.service (h : Inv s) {cc : Byte} {l : EventLoop} (hpc : s.pc = .service cc l) :
    Inv { s with mouse := serviceMouse s.mouse s.buffer cc, pc := .events l } := by
  obtain ⟨hl, harmed, hout, hwaiting, hneeds⟩ := h.armed_of_serving hpc
  have hrec : s.pc.recovering = false := by
    rw [hpc]
    exact hl
  have hcodes : s.codes = [cc] := by
    rw [codes, hpc, hwaiting]
    rfl
  have hnormal := h.normal hrec
  have hdirty : s.mouse.dirty = false := by
    cases hd : s.mouse.dirty with
    | false => rfl
    | true =>
        rcases h.dirty hd with ha | hp
        · rw [harmed] at ha
          cases ha
        · rw [hpc] at hp
          cases hp
  obtain ⟨hdx, hdy⟩ := h.clean hdirty
  have hafter : ∀ m, ({ s with mouse := m, pc := .events l } : MouseBus).codes = [] :=
    fun m => hwaiting
  have haccount := h.account
  rw [setAside, hdirty, onTheWay, hcodes] at haccount
  have hbroken := hnormal.broken
  rw [hneeds, hcodes] at hbroken
  rw [serviceMouse]
  cases hok : isReport cc with
  | true =>
      simp [hok] at hbroken haccount
      refine ⟨h.room, fun _ => hafter _, fun _ => ?_, fun hr => ?_, ?_, fun _ => .inl rfl, ?_, ?_⟩
      · refine ⟨hnormal.commands, hnormal.halted, hnormal.started, ?_, ?_⟩
        · rw [hafter]
          exact hout.symm
        · rw [hafter]
          simp [hbroken, hneeds]
      · exact absurd (hl.symm.trans hr) (by decide)
      · rw [onTheWay, hafter]
        simp [setAside, haccount, hdx, hdy, reportDelta]
      · exact fun hd => by cases hd
      · exact fun hb => by cases hb
  | false =>
      simp [hok] at hbroken haccount
      refine ⟨h.room, fun _ => hafter _, fun _ => ?_, fun hr => ?_, ?_, fun _ => .inl rfl, ?_, ?_⟩
      · refine ⟨hnormal.commands, hnormal.halted, hnormal.started, ?_, ?_⟩
        · rw [hafter]
          exact hout.symm
        · rw [hafter]
          simp [hbroken]
      · exact absurd (hl.symm.trans hr) (by decide)
      · rw [onTheWay, hafter]
        simp [setAside, haccount, hdirty]
      · exact fun _ => ⟨hdx, hdy⟩
      · exact fun hb => by cases hb

/-- What is posted is outstanding, and the doorbell starts a stopped endpoint
only if its ring is empty. -/
theorem Inv.arm (h : Inv s) {p : MousePc}
    (hpc : s.pc = .bind ∧ p = .idle ∨ s.pc = .arm ∧ p = .deliver) :
    Inv { s.armMouse with pc := p } := by
  have hrec : s.pc.recovering = false := by
    rcases hpc with ⟨hpc, -⟩ | ⟨hpc, -⟩ <;> rw [hpc] <;> rfl
  have hrec' : p.recovering = false := by
    rcases hpc with ⟨-, rfl⟩ | ⟨-, rfl⟩ <;> rfl
  have hserving : p.serving = s.pc.serving := by
    rcases hpc with ⟨hpc, rfl⟩ | ⟨hpc, rfl⟩ <;> rw [hpc] <;> rfl
  have hbind : p ≠ .bind := by
    rcases hpc with ⟨-, rfl⟩ | ⟨-, rfl⟩ <;> exact fun hb => by cases hb
  have hdirty : s.mouse.dirty = true → p = .deliver := by
    intro hd
    rcases hpc with ⟨hpc, -⟩ | ⟨-, rfl⟩
    · rw [h.bound hpc] at hd
      cases hd
    · rfl
  have hnormal := h.normal hrec
  have hroom := h.room
  rw [armMouse]
  split
  · refine @Inv.goto s h p s.events ?_ (hrec'.trans hrec.symm) ?_ (fun hb => absurd hb hbind) ?_
    · rw [hserving]
      rfl
    · rcases hpc with ⟨hpc, rfl⟩ | ⟨hpc, rfl⟩ <;> rw [hpc] <;> rfl
    · intro hd
      rcases hpc with ⟨hpc, -⟩ | ⟨-, rfl⟩
      · rw [hpc] at hd
        cases hd
      · rfl
  · next harmed =>
      have harmed : s.mouse.armed = false := by simpa using harmed
      have hfree := hnormal.armed
      rw [harmed] at hfree
      have hcodes : s.codes = [] := List.length_eq_zero_iff.mp (by simp at hfree; omega)
      have hout : s.outstanding = 0 := by simp at hfree; omega
      have hafter : ∀ m n st f,
          ({ s with mouse := m, posted := n, state := st, failed := f, pc := p } : MouseBus).codes =
            [] := by
        intro m n st f
        rw [← hcodes, codes, codes, ← hserving]
        rfl
      have hfailed : (if s.state = .stopped then false else s.failed) = s.failed := by
        cases hf : s.failed with
        | false => exact ite_self _
        | true =>
            rw [hnormal.halted hf]
            rfl
      have hroom' : s.dequeue + s.failed.toNat = s.posted := by
        rw [outstanding] at hout
        omega
      have hbroken := hnormal.broken
      rw [hcodes] at hbroken
      simp only [hfailed]
      refine ⟨?_, fun _ => hafter _ _ _ _, fun _ => ?_, fun hr => ?_, ?_,
        fun hd => .inr (hdirty hd), h.clean, fun hb => absurd hb hbind⟩
      · exact Nat.le_succ_of_le hroom
      · refine ⟨hnormal.commands, ?_, ?_, ?_, ?_⟩
        · intro hf
          show (if s.state = .stopped then _ else _) = _
          rw [hnormal.halted hf]
          rfl
        · intro hf
          refine .inl ?_
          show (if s.state = .stopped then _ else _) = _
          rcases hnormal.started hf with hs | ⟨hs, -⟩ <;> rw [hs] <;> rfl
        · rw [hafter]
          show 1 = s.posted + 1 - s.dequeue - s.failed.toNat + 0
          omega
        · rw [hafter]
          exact hbroken
      · exact absurd (hrec'.symm.trans hr) (by decide)
      · have haccount := h.account
        rw [onTheWay, hcodes] at haccount
        rw [onTheWay, hafter]
        exact haccount

theorem Inv.deliver (h : Inv s) (hpc : s.pc = .deliver) :
    Inv { s.deliver with pc := .idle } := by
  have hrec : s.pc.recovering = false := by
    rw [hpc]
    rfl
  have hnormal := h.normal hrec
  have hafter : ∀ m r, ({ s with mouse := m, returned := r, pc := .idle } : MouseBus).codes =
      s.codes := by
    intro m r
    rw [codes, codes, hpc]
    rfl
  have haccount := h.account
  rw [MouseBus.deliver]
  cases hd : s.mouse.dirty with
  | true =>
      simp only [if_true]
      refine ⟨h.room, fun hn => (hafter _ _).trans (h.quiet hn), fun _ => ?_, fun hr => ?_, ?_,
        fun hd => ?_, fun _ => ⟨rfl, rfl⟩, fun _ => rfl⟩
      · refine ⟨hnormal.commands, hnormal.halted, hnormal.started, ?_, ?_⟩
        · rw [hafter]
          exact hnormal.armed
        · rw [hafter]
          exact hnormal.broken
      · cases hr
      · rw [setAside, hd, onTheWay] at haccount
        rw [onTheWay, hafter]
        simpa [setAside] using haccount
      · cases hd
  | false =>
      simp only [Bool.false_eq_true, if_false]
      refine ⟨h.room, fun hn => (hafter _ _).trans (h.quiet hn), fun _ => ?_, fun hr => ?_, ?_,
        fun hd' => ?_, h.clean, fun _ => hd⟩
      · refine ⟨hnormal.commands, hnormal.halted, hnormal.started, ?_, ?_⟩
        · exact (hafter s.mouse s.returned).symm ▸ hnormal.armed
        · exact (hafter s.mouse s.returned).symm ▸ hnormal.broken
      · cases hr
      · rw [onTheWay, hafter s.mouse s.returned]
        exact haccount
      · rw [hd] at hd'
        cases hd'

/-! ## Recovery -/

/-- The next command of the recovery is issued. -/
theorem Inv.issue (h : Inv s) (hrec : s.pc.recovering = true) (hserving : s.pc.serving = [])
    {c : RecoveryCommand} {l : EventLoop} (hl : l.recovering = true)
    (hissued : l.issued s.posted = s.pc.issued s.posted ++ [c])
    (hnot : .setTrDequeue s.posted ∉ s.pc.issued s.posted) :
    Inv { s with commands := s.commands ++ [c], pc := .events l } := by
  obtain ⟨hneeds, hplace⟩ := h.recovering hrec
  have hcodes : ({ s with commands := s.commands ++ [c], pc := .events l } : MouseBus).codes =
      s.codes := by
    rw [codes, codes, hserving]
    rfl
  refine ⟨h.room, fun hn => hcodes.trans (h.quiet hn), fun hr => ?_, fun _ => ⟨hneeds, .inl ?_⟩, ?_,
    fun hd => .inl ?_, h.clean, fun hb => by cases hb⟩
  · exact absurd (hl.symm.trans hr) (by decide)
  · obtain ⟨hfailed, hstate, harmed, hcommands⟩ | ⟨-, -, -, -, hmem⟩ := hplace
    · refine ⟨hfailed, hstate, harmed, ?_⟩
      show s.commands ++ [c] <:+ l.issued s.posted
      rw [hissued]
      exact (List.suffix_append_inj_of_length_eq rfl).mpr ⟨hcommands, rfl⟩
    · exact absurd hmem hnot
  · show _ = s.returned ++ s.setAside ++ _
    rw [onTheWay, hcodes]
    exact h.account
  · rcases h.dirty hd with ha | hp
    · exact ha
    · rw [hp] at hrec
      cases hrec

/-- The flags are cleared. -/
theorem Inv.clear (h : Inv s) (hpc : s.pc = .clear) (hempty : s.dequeue = s.posted) :
    Inv { s with mouse := { s.mouse with needsReset := false, armed := false },
                 pc := .events .drain } := by
  have hrec : s.pc.recovering = true := by
    rw [hpc]
    rfl
  obtain ⟨hneeds, hplace⟩ := h.recovering hrec
  have hroom := h.room
  have hquiet := h.quiet hneeds
  have hcodes : ∀ m, ({ s with mouse := m, pc := .events .drain } : MouseBus).codes = [] := by
    intro m
    rw [← hquiet, codes, codes, hpc]
    rfl
  obtain ⟨hfailed, -⟩ | ⟨hfailed, hstate, -, hcommands, -⟩ := hplace
  · rw [hfailed, hempty] at hroom
    exact absurd hroom (Nat.not_succ_le_self _)
  · refine ⟨h.room, fun _ => hcodes _, fun _ => ?_, (fun hr => by cases hr), ?_, fun _ => .inl rfl,
      h.clean, fun hb => by cases hb⟩
    · refine ⟨hcommands, ?_, fun _ => .inr ⟨hstate, hempty⟩, ?_, ?_⟩
      · intro hf
        exact absurd (hfailed.symm.trans hf) (by decide)
      · rw [hcodes]
        show 0 = s.posted - s.dequeue - _ + 0
        omega
      · rw [hcodes]
        simp [hfailed]
    · have haccount := h.account
      rw [onTheWay, hquiet] at haccount
      rw [onTheWay, hcodes]
      exact haccount

theorem Inv.poll (h : Inv s) (hpc : s.pc = .idle) :
    Inv { s with pc := if s.mouse.needsReset then .reset else .events .drain } := by
  cases hneeds : s.mouse.needsReset with
  | false =>
      refine @Inv.goto s h (.events .drain) s.events ?_ ?_ ?_ (fun hb => by cases hb) ?_
      · rw [codes, hpc]
        rfl
      · rw [hpc]
        rfl
      · rw [hpc]
        rfl
      · rw [hpc]
        exact fun hd => by cases hd
  | true =>
      have hrec : s.pc.recovering = false := by
        rw [hpc]
        rfl
      have hnormal := h.normal hrec
      have hfailed := hnormal.broken.mpr (.inl hneeds)
      have hquiet := h.quiet hneeds
      have hcodes : ({ s with pc := .reset } : MouseBus).codes = s.codes := by
        rw [codes, codes, hpc]
        rfl
      simp only [if_true]
      refine ⟨h.room, fun _ => hcodes.trans hquiet, (fun hr => by cases hr),
        fun _ => ⟨hneeds, .inl ⟨hfailed, .inl (hnormal.halted hfailed), ?_, ?_⟩⟩, ?_,
        fun hd => .inl ?_, h.clean, fun hb => by cases hb⟩
      · have harmed := hnormal.armed
        rw [hquiet] at harmed
        exact harmed
      · show s.commands <:+ []
        rw [hnormal.commands]
      · show _ = s.returned ++ s.setAside ++ _
        rw [onTheWay, hcodes]
        exact h.account
      · rcases h.dirty hd with ha | hp
        · exact ha
        · rw [hpc] at hp
          cases hp

/-! ## The controller -/

/-- A TRB is completed only while the record stands for it. -/
theorem Inv.running (h : Inv s) (hrunning : s.state = .running) (hlt : s.dequeue < s.posted) :
    Normal s ∧ s.failed = false ∧ s.mouse.armed = true ∧ s.outstanding = 1 ∧ s.codes = [] ∧
      s.pc.recovering = false ∧ s.mouse.needsReset = false := by
  have hrec : s.pc.recovering = false := by
    cases hr : s.pc.recovering with
    | false => rfl
    | true =>
        obtain ⟨-, hplace⟩ := h.recovering hr
        rw [hrunning] at hplace
        simp at hplace
  have hnormal := h.normal hrec
  have hfailed : s.failed = false := by
    cases hf : s.failed with
    | false => rfl
    | true =>
        have := hnormal.halted hf
        rw [hrunning] at this
        cases this
  have hneeds : s.mouse.needsReset = false := by
    cases hn : s.mouse.needsReset with
    | false => rfl
    | true =>
        rw [hnormal.broken.mpr (.inl hn)] at hfailed
        cases hfailed
  have hout : s.outstanding = s.posted - s.dequeue := by
    rw [outstanding, hfailed]
    rfl
  have harmed := hnormal.armed
  have hle := Bool.toNat_le s.mouse.armed
  refine ⟨hnormal, hfailed, ?_, by omega, List.length_eq_zero_iff.mp (by omega), hrec, hneeds⟩
  exact Bool.toNat_eq_one.mp (by omega)

/-- What is in the buffer and on the event ring after a completion. -/
def written (s : MouseBus) (cc : Byte) (bytes : List Byte) : MouseBus :=
  { s with
    buffer := bytes ++ s.buffer.drop bytes.length
    events := s.events ++ [⟨32, cc, s.slotId, s.dequeue, s.buffer.length - bytes.length⟩] }

theorem complete_eq_some {cc : Byte} {bytes : List Byte} (hs : s.complete cc bytes = some s') :
    s.state = .running ∧ s.dequeue < s.posted ∧
      (isReport cc = true ∧
          s' = { s.written cc bytes with
            dequeue := s.dequeue + 1
            completed := s.completed ++ [bytes] } ∨
        isReport cc = false ∧
          s' = { s.written cc bytes with state := .halted, failed := true }) := by
  rw [MouseBus.complete] at hs
  split at hs
  · next hgo =>
      cases hs
      refine ⟨hgo.1, hgo.2.1, ?_⟩
      cases hok : isReport cc with
      | true => exact .inl ⟨rfl, rfl⟩
      | false => exact .inr ⟨rfl, rfl⟩
  · cases hs

/-- A report of three bytes or more leaves nothing of the last one to be
read. -/
theorem reportDelta_written {bytes : List Byte} (hlong : 3 ≤ bytes.length) (rest : List Byte) :
    reportDelta (bytes ++ rest) = reportDelta bytes := by
  have hbyte : ∀ i < 3, (bytes ++ rest).getD i 0 = bytes.getD i 0 := by
    intro i hi
    rw [List.getD_eq_getElem?_getD, List.getD_eq_getElem?_getD,
      List.getElem?_append_left (by omega)]
  rw [reportDelta, reportDelta, hbyte 0 (by decide), hbyte 1 (by decide), hbyte 2 (by decide)]

theorem Inv.complete (h : Inv s) {cc : Byte} {bytes : List Byte}
    (hlong : isReport cc = true → 3 ≤ bytes.length) (hs : s.complete cc bytes = some s') :
    Inv s' := by
  obtain ⟨hrunning, hlt, hs⟩ := complete_eq_some hs
  obtain ⟨hnormal, hfailed, harmed, hout, hcodes, hrec, hneeds⟩ := h.running hrunning hlt
  obtain ⟨hserving, hwaiting⟩ : s.pc.serving = [] ∧ s.waiting s.events = [] :=
    List.append_eq_nil_iff.mp hcodes
  have hnew : (s.written cc bytes).codes = [cc] := by
    show s.pc.serving ++ s.waiting (s.events ++ [_]) = _
    rw [hserving, waiting_append, hwaiting, waiting_mouse [] (by simp [isMouseEvent])]
    rfl
  have hroom : s.posted = s.dequeue + 1 := by
    rw [outstanding, hfailed] at hout
    simp at hout
    omega
  have hdirty : s.mouse.dirty = true → s.mouse.armed = false ∨ s.pc = .deliver := h.dirty
  have haccount := h.account
  rw [onTheWay, hcodes] at haccount
  rcases hs with ⟨hok, rfl⟩ | ⟨hok, rfl⟩
  · have hcodes' : ∀ c, ({ s.written cc bytes with
        dequeue := s.dequeue + 1, completed := c } : MouseBus).codes = [cc] := fun _ => hnew
    refine ⟨?_, ?_, fun _ => ⟨hnormal.commands, ?_, fun _ => .inl hrunning, ?_, ?_⟩,
      fun hr => ?_, ?_, hdirty, h.clean, h.bound⟩
    · show s.dequeue + 1 + s.failed.toNat ≤ s.posted
      rw [hfailed, hroom]
      exact Nat.le_refl _
    · intro hn
      exact absurd (hneeds.symm.trans hn) (by decide)
    · intro hf
      exact absurd (hfailed.symm.trans hf) (by decide)
    · rw [hcodes']
      show s.mouse.armed.toNat = s.posted - (s.dequeue + 1) - s.failed.toNat + 1
      rw [harmed, hfailed, hroom]
      simp
    · rw [hcodes']
      show s.failed = true ↔ s.mouse.needsReset = true ∨ _
      simp [hfailed, hneeds, hok]
    · exact absurd (hrec.symm.trans hr) (by decide)
    · rw [onTheWay, hcodes']
      show (s.completed ++ [bytes]).map reportDelta = s.returned ++ s.setAside ++
        List.map (fun _ => reportDelta (bytes ++ s.buffer.drop bytes.length))
          (List.filter isReport [cc])
      rw [reportDelta_written (hlong hok), List.map_append, haccount]
      simp [hok]
  · have hcodes' : ({ s.written cc bytes with state := .halted, failed := true } : MouseBus).codes =
        [cc] := hnew
    refine ⟨?_, ?_, fun _ => ⟨hnormal.commands, fun _ => rfl, ?_, ?_, ?_⟩, fun hr => ?_, ?_,
      hdirty, h.clean, h.bound⟩
    · show s.dequeue + 1 ≤ s.posted
      omega
    · intro hn
      exact absurd (hneeds.symm.trans hn) (by decide)
    · exact fun hf => by cases hf
    · rw [hcodes']
      show s.mouse.armed.toNat = s.posted - s.dequeue - 1 + 1
      rw [harmed, hroom]
      simp
    · rw [hcodes']
      simp [hok]
    · exact absurd (hrec.symm.trans hr) (by decide)
    · rw [onTheWay, hcodes']
      show s.completed.map reportDelta = s.returned ++ s.setAside ++ _
      rw [haccount]
      simp [hok]

theorem issued_cases (pc : MousePc) (posted : Nat) :
    pc.issued posted = [] ∨ pc.issued posted = [.resetEndpoint] ∨
      pc.issued posted = [.resetEndpoint, .setTrDequeue posted] := by
  have hloop (l : EventLoop) : l.issued posted = [] ∨ l.issued posted = [.resetEndpoint] ∨
      l.issued posted = [.resetEndpoint, .setTrDequeue posted] := by
    cases l with
    | drain => simp [EventLoop.issued]
    | wait want after => cases after <;> simp [EventLoop.issued]
  cases pc with
  | events l => exact hloop l
  | service cc l => exact hloop l
  | _ => simp [MousePc.issued]

/-- Set TR Dequeue Pointer is the last command of a recovery, and names the
place that the next TRB will have. -/
theorem last_issued {pc : MousePc} {posted target : Nat} {cs : List RecoveryCommand}
    (h : .setTrDequeue target :: cs <:+ pc.issued posted) :
    target = posted ∧ cs = [] ∧ .setTrDequeue posted ∈ pc.issued posted := by
  rcases issued_cases pc posted with hi | hi | hi
  · rw [hi] at h
    simp at h
  · rw [hi] at h
    simp [List.suffix_cons_iff] at h
  · rw [hi] at h ⊢
    simpa [List.suffix_cons_iff] using h

/-- Within a recovery the controller moves. -/
theorem Inv.recover (h : Inv s) (hrec : s.pc.recovering = true) {cs : List RecoveryCommand}
    {es : List Event} {state : RingState} {dequeue : Nat} {failed : Bool}
    (hes : s.waiting es = s.waiting s.events)
    (hplace :
      (failed = true ∧ dequeue = s.dequeue ∧ (state = .halted ∨ state = .stopped) ∧
        s.failed = true ∧ s.mouse.armed.toNat = s.outstanding ∧ cs <:+ s.pc.issued s.posted) ∨
      (failed = false ∧ state = .stopped ∧ dequeue = s.posted ∧ cs = [] ∧
        .setTrDequeue s.posted ∈ s.pc.issued s.posted)) :
    Inv { s with
      commands := cs, events := es, state := state, dequeue := dequeue, failed := failed } := by
  have hcodes : ({ s with commands := cs, events := es, state := state, dequeue := dequeue,
                          failed := failed } : MouseBus).codes = s.codes := by
    rw [codes, codes, ← hes]
    rfl
  refine ⟨?_, fun hn => hcodes.trans (h.quiet hn), fun hr => ?_,
    fun _ => ⟨(h.recovering hrec).needsReset, ?_⟩, ?_, h.dirty, h.clean, h.bound⟩
  · have hroom := h.room
    obtain ⟨hf, hd, -, hsf, -⟩ | ⟨hf, -, hd, -⟩ := hplace
    · rw [hsf] at hroom
      rw [hf, hd]
      exact hroom
    · rw [hf, hd]
      exact Nat.le_refl _
  · exact absurd (hrec.symm.trans hr) (by decide)
  · refine hplace.imp ?_ id
    rintro ⟨rfl, rfl, hstate, hsf, harmed, hcs⟩
    refine ⟨rfl, hstate, ?_, hcs⟩
    rw [harmed, outstanding, hsf]
    rfl
  · rw [onTheWay, hcodes]
    exact h.account

/-- The next command is carried out or refused. Outside of a recovery there is
none. -/
theorem Inv.execute (h : Inv s) {cc : Byte} (hs : s.execute cc = some s') : Inv s' := by
  cases hcs : s.commands with
  | nil =>
      simp only [MouseBus.execute, hcs] at hs
      cases hs
  | cons c cs =>
      simp only [MouseBus.execute, hcs] at hs
      have hrec : s.pc.recovering = true := by
        cases hr : s.pc.recovering with
        | true => rfl
        | false =>
            rw [(h.normal hr).commands] at hcs
            cases hcs
      have hes : s.waiting (s.events ++ [⟨33, cc, s.slotId, 0, 0⟩]) = s.waiting s.events := by
        rw [waiting_append, waiting_other [] (by simp [isMouseEvent])]
        exact List.append_nil _
      obtain ⟨-, hplace⟩ := h.recovering hrec
      obtain ⟨hfailed, hstate, harmed, hcommands⟩ | ⟨-, -, -, hnone, -⟩ := hplace
      · rw [hcs] at hcommands
        have hrest : cs <:+ s.pc.issued s.posted := (List.suffix_cons c cs).trans hcommands
        have hrefused : Inv { s with
            commands := cs, events := s.events ++ [⟨33, cc, s.slotId, 0, 0⟩] } :=
          @Inv.recover s h hrec cs _ s.state s.dequeue s.failed hes
            (.inl ⟨hfailed, rfl, hstate, hfailed, harmed, hrest⟩)
        split at hs
        · cases hs
          cases c with
          | resetEndpoint =>
              rw [carryOut]
              split
              · exact @Inv.recover s h hrec cs _ .stopped s.dequeue s.failed hes
                  (.inl ⟨hfailed, rfl, .inr rfl, hfailed, harmed, hrest⟩)
              · exact hrefused
          | setTrDequeue target =>
              obtain ⟨rfl, rfl, hmem⟩ := last_issued hcommands
              rw [carryOut]
              split
              · next hstopped =>
                  exact @Inv.recover s h hrec [] _ s.state s.posted false hes
                    (.inr ⟨rfl, hstopped, rfl, rfl, hmem⟩)
              · exact hrefused
        · cases hs
          exact hrefused
      · rw [hnone] at hcs
        cases hcs

/-! ## Runs -/

/-- The two things that a run is asked for: the device sends the bytes that are
read, and a poll that clears the flags of a mouse it recovers has had the
dequeue pointer moved past every TRB posted. -/
def Sound (s : MouseBus) : Move → Prop
  | .complete cc bytes => isReport cc = true → 3 ≤ bytes.length
  | .driver => s.pc = .clear → s.dequeue = s.posted
  | _ => True

/-- A run of sound steps. -/
inductive SoundRun : MouseBus → List Move → MouseBus → Prop
  | nil (s : MouseBus) : SoundRun s [] s
  | cons {s s' s'' : MouseBus} {a : Move} {as : List Move} (sound : s.Sound a)
      (step : s.step a = some s') (rest : SoundRun s' as s'') : SoundRun s (a :: as) s''

theorem Inv.driverStep (h : Inv s) (hsound : s.Sound .driver) (hs : s.driverStep = some s') :
    Inv s' := by
  cases hpc : s.pc with
  | idle =>
      simp only [MouseBus.driverStep, hpc] at hs
      cases hs
  | bind =>
      simp only [MouseBus.driverStep, hpc] at hs
      cases hs
      exact h.arm (.inl ⟨hpc, rfl⟩)
  | reset =>
      simp only [MouseBus.driverStep, hpc] at hs
      cases hs
      refine h.issue ?_ ?_ rfl ?_ ?_
      all_goals rw [hpc]
      · rfl
      · rfl
      · rfl
      · simp [MousePc.issued]
  | setDequeue =>
      simp only [MouseBus.driverStep, hpc] at hs
      cases hs
      refine h.issue ?_ ?_ rfl ?_ ?_
      all_goals rw [hpc]
      · rfl
      · rfl
      · rfl
      · simp [MousePc.issued]
  | clear =>
      simp only [MouseBus.driverStep, hpc] at hs
      cases hs
      exact h.clear hpc (hsound hpc)
  | events l =>
      simp only [MouseBus.driverStep, hpc] at hs
      exact h.eventRound hpc hs
  | service cc l =>
      simp only [MouseBus.driverStep, hpc] at hs
      cases hs
      exact h.service hpc
  | arm =>
      simp only [MouseBus.driverStep, hpc] at hs
      cases hs
      exact h.arm (.inr ⟨hpc, rfl⟩)
  | deliver =>
      simp only [MouseBus.driverStep, hpc] at hs
      cases hs
      exact h.deliver hpc

theorem Inv.step (h : Inv s) {a : Move} (hsound : s.Sound a) (hs : s.step a = some s') :
    Inv s' := by
  cases a with
  | poll =>
      simp only [MouseBus.step] at hs
      split at hs
      · next hpc =>
          cases hs
          exact h.poll hpc
      · cases hs
  | wait want =>
      simp only [MouseBus.step] at hs
      split at hs
      · next hpc =>
          cases hs
          refine @Inv.goto s h (.events (.wait want .idle)) s.events ?_ ?_ ?_
            (fun hb => by cases hb) ?_
          · rw [codes, hpc]
            rfl
          · rw [hpc]
            rfl
          · rw [hpc]
            rfl
          · rw [hpc]
            exact fun hd => by cases hd
      · cases hs
  | driver => exact h.driverStep hsound hs
  | deadline =>
      simp only [MouseBus.step] at hs
      split at hs
      · next want after hpc =>
          split at hs
          · cases hs
            exact @Inv.answered s h want after s.events hpc rfl
          · cases hs
      · cases hs
  | complete cc bytes => exact h.complete hsound hs
  | execute cc => exact h.execute hs
  | notify e =>
      simp only [MouseBus.step] at hs
      split at hs
      · cases hs
      · next he =>
          cases hs
          exact h.notify (by simpa using he)

theorem SoundRun.inv {as : List Move} (h : SoundRun s as s') (hs : Inv s) : Inv s' := by
  induction h with
  | nil => exact hs
  | cons sound step _ ih => exact ih (hs.step sound step)

end MouseBus

end Usb

end TablesOS
