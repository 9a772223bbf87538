import TablesOS.Proofs.MouseInvariant

/-!
# Every mouse report is delivered once

The invariant of a sound run says where each completed report is: returned by a
poll, set aside for the next, or in the buffer with its completion on the way.
What is returned is therefore the reports in their order, and it lacks only what
the last polls have not come upon. A poll does come upon all there were when it
was called, since it arms the next TRB only after it has found the event ring
empty.

Without either condition the code does otherwise: the last two runs are a
report shorter than what is read of it, and a recovery whose last command is
still to be carried out when the wait for it ends.
-/

namespace TablesOS

namespace Usb

namespace MouseBus

variable {s s' : MouseBus}

/-! ## What the polls return -/

theorem Inv.outstanding_le (h : Inv s) : s.outstanding ≤ 1 := by
  have hle := Bool.toNat_le s.mouse.armed
  cases hrec : s.pc.recovering with
  | false =>
      have harmed := (h.normal hrec).armed
      omega
  | true =>
      obtain ⟨-, ⟨-, -, harmed, -⟩ | ⟨-, -, hempty, -⟩⟩ := h.recovering hrec
      · omega
      · rw [outstanding, hempty]
        omega

/-- What has been returned are the reports in their order, some of the last
left out. -/
theorem Inv.returned_first (h : Inv s) : s.returned <+: s.completed.map reportDelta := by
  rw [h.account, List.append_assoc]
  exact List.prefix_append _ _

/-- In a poll, before it has found the event ring empty. -/
def polling : MousePc → Bool
  | .events .drain | .service _ .drain => true
  | pc => pc.recovering

/-- The first `n` reports: a poll is under way that will come upon them, or has
set them aside, or has returned them. -/
def Accounted (n : Nat) (s : MouseBus) : Prop :=
  polling s.pc = true ∨
    (s.pc = .arm ∨ s.pc = .deliver) ∧ n ≤ s.returned.length + s.mouse.dirty.toNat ∨
    n ≤ s.returned.length

theorem setAside_length (s : MouseBus) : s.setAside.length = s.mouse.dirty.toNat := by
  rw [setAside]
  cases s.mouse.dirty <;> rfl

/-- The loop of a poll ends with every report set aside or returned. -/
theorem Inv.drained (h : Inv s) (hpc : s.pc = .events .drain) (hes : s.events = []) :
    s.completed.length = s.returned.length + s.mouse.dirty.toNat := by
  have hcodes : s.codes = [] := by
    rw [codes, hpc, hes]
    rfl
  have haccount := congrArg List.length h.account
  rw [onTheWay, hcodes] at haccount
  simpa [setAside_length] using haccount

theorem Accounted.congr {n : Nat} (ha : s.Accounted n) (hpc : s'.pc = s.pc)
    (hmouse : s'.mouse = s.mouse) (hreturned : s'.returned = s.returned) : s'.Accounted n := by
  rw [Accounted, hpc, hmouse, hreturned]
  exact ha

/-- Elsewhere than in a poll they have been returned, and nothing takes them
back. -/
theorem Accounted.other {n : Nat} (ha : s.Accounted n) (hpolling : polling s.pc = false)
    (hpc : s.pc ≠ .arm ∧ s.pc ≠ .deliver) (hreturned : s'.returned = s.returned) :
    s'.Accounted n := by
  refine .inr (.inr ?_)
  rw [hreturned]
  rcases ha with hp | ⟨hp, -⟩ | hn
  · exact absurd (hpolling.symm.trans hp) (by decide)
  · exact absurd hp (fun hp => hp.elim hpc.1 hpc.2)
  · exact hn

theorem polling_events (l : EventLoop) (cc : Byte) :
    polling (.service cc l) = polling (.events l) := by
  cases l <;> rfl

theorem polling_after (want : Byte) (after : AfterWait) :
    polling after.pc = polling (.events (.wait want after)) := by
  cases after <;> rfl

theorem Accounted.eventRound {n : Nat} {l : EventLoop} (h : Inv s) (hn : n ≤ s.completed.length)
    (ha : s.Accounted n) (hpc : s.pc = .events l) (hs : s.eventRound l = some s') :
    s'.Accounted n := by
  cases hpolling : polling s.pc with
  | false =>
      refine ha.other hpolling (by simp [hpc]) ?_
      simp only [MouseBus.eventRound] at hs
      split at hs
      · split at hs <;> cases hs
        rfl
      · split at hs
        · cases hs
          rfl
        · split at hs
          · cases hs
            rfl
          · split at hs <;> cases hs <;> rfl
  | true =>
      have hround := hpolling
      rw [hpc] at hround
      cases hes : s.events with
      | nil =>
          simp only [MouseBus.eventRound, hes] at hs
          cases l with
          | wait want after => cases hs
          | drain =>
              cases hs
              exact .inr (.inl ⟨.inl rfl, (h.drained hpc hes) ▸ hn⟩)
      | cons e es =>
          simp only [MouseBus.eventRound, hes] at hs
          split at hs
          · cases hs
            exact .inl ((polling_events l _).trans hround)
          · cases l with
            | drain =>
                cases hs
                exact .inl hpolling
            | wait want after =>
                simp only at hs
                split at hs
                · cases hs
                  exact .inl ((polling_after want after).trans hround)
                · cases hs
                  exact .inl hpolling

theorem Accounted.driverStep {n : Nat} (h : Inv s) (hn : n ≤ s.completed.length)
    (ha : s.Accounted n) (hs : s.driverStep = some s') : s'.Accounted n := by
  have harm (p : MousePc) : ({ s.armMouse with pc := p } : MouseBus).returned = s.returned ∧
      ({ s.armMouse with pc := p } : MouseBus).mouse.dirty = s.mouse.dirty := by
    simp only [armMouse]
    split <;> exact ⟨rfl, rfl⟩
  cases hpc : s.pc with
  | idle =>
      simp only [MouseBus.driverStep, hpc] at hs
      cases hs
  | bind =>
      simp only [MouseBus.driverStep, hpc] at hs
      cases hs
      exact ha.other (by rw [hpc]; rfl) (by simp [hpc]) (harm _).1
  | reset | setDequeue | clear =>
      simp only [MouseBus.driverStep, hpc] at hs
      cases hs
      exact .inl rfl
  | events l =>
      simp only [MouseBus.driverStep, hpc] at hs
      exact ha.eventRound h hn hpc hs
  | service cc l =>
      simp only [MouseBus.driverStep, hpc] at hs
      cases hs
      cases hpolling : polling s.pc with
      | true =>
          rw [hpc, polling_events] at hpolling
          exact .inl hpolling
      | false => exact ha.other hpolling (by simp [hpc]) rfl
  | arm =>
      simp only [MouseBus.driverStep, hpc] at hs
      cases hs
      rcases ha with hp | ⟨-, hset⟩ | hreturned
      · rw [hpc] at hp
        cases hp
      · refine .inr (.inl ⟨.inr rfl, ?_⟩)
        rw [(harm .deliver).1, (harm .deliver).2]
        exact hset
      · refine .inr (.inr ?_)
        rw [(harm .deliver).1]
        exact hreturned
  | deliver =>
      simp only [MouseBus.driverStep, hpc] at hs
      cases hs
      refine .inr (.inr ?_)
      rw [MouseBus.deliver]
      rcases ha with hp | ⟨-, hset⟩ | hreturned
      · rw [hpc] at hp
        cases hp
      · split
        · next hd =>
            rw [hd] at hset
            simpa using hset
        · next hd =>
            simpa [hd] using hset
      · split
        · simp
          omega
        · exact hreturned

/-- The controller leaves the driver alone. -/
theorem driver_complete {cc : Byte} {bytes : List Byte} (hs : s.complete cc bytes = some s') :
    s'.pc = s.pc ∧ s'.mouse = s.mouse ∧ s'.returned = s.returned := by
  obtain ⟨-, -, ⟨-, rfl⟩ | ⟨-, rfl⟩⟩ := complete_eq_some hs
  · exact ⟨rfl, rfl, rfl⟩
  · exact ⟨rfl, rfl, rfl⟩

theorem driver_execute {cc : Byte} (hs : s.execute cc = some s') :
    s'.pc = s.pc ∧ s'.mouse = s.mouse ∧ s'.returned = s.returned := by
  simp only [MouseBus.execute] at hs
  split at hs
  · cases hs
  · next c cs _ =>
      cases hs
      split
      · cases c with
        | resetEndpoint =>
            rw [carryOut]
            split <;> exact ⟨rfl, rfl, rfl⟩
        | setTrDequeue target =>
            rw [carryOut]
            split <;> exact ⟨rfl, rfl, rfl⟩
      · exact ⟨rfl, rfl, rfl⟩

theorem Accounted.step {n : Nat} (h : Inv s) (hn : n ≤ s.completed.length) (ha : s.Accounted n)
    {a : Move} (hs : s.step a = some s') : s'.Accounted n := by
  cases a with
  | poll =>
      simp only [MouseBus.step] at hs
      split at hs
      · cases hs
        refine .inl ?_
        show polling (if s.mouse.needsReset then _ else _) = true
        split <;> rfl
      · cases hs
  | wait want =>
      simp only [MouseBus.step] at hs
      split at hs
      · next hpc =>
          cases hs
          exact ha.other (by rw [hpc]; rfl) (by simp [hpc]) rfl
      · cases hs
  | driver => exact ha.driverStep h hn hs
  | deadline =>
      simp only [MouseBus.step] at hs
      split at hs
      · next want after hpc =>
          split at hs
          · cases hs
            cases hpolling : polling s.pc with
            | true =>
                rw [hpc, ← polling_after] at hpolling
                exact .inl hpolling
            | false => exact ha.other hpolling (by simp [hpc]) rfl
          · cases hs
      · cases hs
  | complete cc bytes =>
      obtain ⟨hpc, hmouse, hreturned⟩ := driver_complete hs
      exact ha.congr hpc hmouse hreturned
  | execute cc =>
      obtain ⟨hpc, hmouse, hreturned⟩ := driver_execute hs
      exact ha.congr hpc hmouse hreturned
  | notify e =>
      simp only [MouseBus.step] at hs
      split at hs
      · cases hs
      · cases hs
        exact ha

theorem completed_driver (hs : s.driverStep = some s') : s'.completed = s.completed := by
  cases hpc : s.pc with
  | idle =>
      simp only [MouseBus.driverStep, hpc] at hs
      cases hs
  | bind | arm =>
      simp only [MouseBus.driverStep, hpc, armMouse] at hs
      cases hs
      split <;> rfl
  | reset | setDequeue | clear | service =>
      simp only [MouseBus.driverStep, hpc] at hs
      cases hs
      rfl
  | deliver =>
      simp only [MouseBus.driverStep, hpc, MouseBus.deliver] at hs
      cases hs
      split <;> rfl
  | events l =>
      simp only [MouseBus.driverStep, hpc, MouseBus.eventRound] at hs
      split at hs
      · split at hs <;> cases hs
        rfl
      · split at hs
        · cases hs
          rfl
        · split at hs
          · cases hs
            rfl
          · split at hs <;> cases hs <;> rfl

/-- Reports stay completed. -/
theorem completed_step {a : Move} (hs : s.step a = some s') : s.completed <+: s'.completed := by
  cases a with
  | driver => exact (completed_driver hs).symm ▸ List.prefix_rfl
  | complete cc bytes =>
      obtain ⟨-, -, ⟨-, rfl⟩ | ⟨-, rfl⟩⟩ := complete_eq_some hs
      · exact List.prefix_append _ _
      · exact List.prefix_rfl
  | execute cc =>
      simp only [MouseBus.step, MouseBus.execute] at hs
      split at hs
      · cases hs
      · next c cs _ =>
          cases hs
          split
          · cases c with
            | resetEndpoint =>
                rw [carryOut]
                split <;> exact List.prefix_rfl
            | setTrDequeue target =>
                rw [carryOut]
                split <;> exact List.prefix_rfl
          · exact List.prefix_rfl
  | poll | wait | notify =>
      simp only [MouseBus.step] at hs
      split at hs <;> cases hs
      exact List.prefix_rfl
  | deadline =>
      simp only [MouseBus.step] at hs
      split at hs
      · split at hs <;> cases hs
        exact List.prefix_rfl
      · cases hs

theorem SoundRun.completed {as : List Move} (h : SoundRun s as s') :
    s.completed <+: s'.completed := by
  induction h with
  | nil => exact List.prefix_rfl
  | cons _ step _ ih => exact (completed_step step).trans ih

theorem SoundRun.accounted {as : List Move} (h : SoundRun s as s') {n : Nat} (hs : Inv s)
    (hn : n ≤ s.completed.length) (ha : s.Accounted n) : s'.Accounted n := by
  induction h with
  | nil => exact ha
  | cons sound step _ ih =>
      exact ih (hs.step sound step) (hn.trans (completed_step step).length_le) (ha.step hs hn step)

/-- What is kept at every moment of a run. -/
structure Kept (s : MouseBus) : Prop where
  /-- At most one report TRB is outstanding. -/
  one : s.outstanding ≤ 1
  /-- What the polls have returned are the reports in their order, each once, with its own
  buttons and movement, some of the last left out. -/
  once : s.returned <+: s.completed.map reportDelta
  /-- A poll that is called now will have returned all of them when the driver is idle again. -/
  served : ∀ as s', SoundRun s (.poll :: as) s' → s'.pc = .idle →
    s.completed.map reportDelta <+: s'.returned

theorem Inv.kept (h : Inv s) : s.Kept := by
  refine ⟨h.outstanding_le, h.returned_first, fun as s' hrun hpc => ?_⟩
  have hend := (hrun.inv h).returned_first
  have hfirst := hrun.completed.map reportDelta
  have haccounted : s'.Accounted s.completed.length := by
    cases hrun with
    | cons sound step rest =>
        refine rest.accounted (h.step sound step) (completed_step step).length_le (.inl ?_)
        simp only [MouseBus.step] at step
        split at step
        · cases step
          show polling (if s.mouse.needsReset then _ else _) = true
          split <;> rfl
        · cases step
  have hall : s.completed.length ≤ s'.returned.length := by
    rcases haccounted with hp | ⟨hp, -⟩ | hn
    · rw [hpc] at hp
      cases hp
    · rw [hpc] at hp
      rcases hp with hp | hp <;> cases hp
    · exact hn
  exact List.prefix_of_prefix_length_le hfirst hend (by simpa using hall)

/-- In every sound run from when the mouse is bound, this is kept at
every moment. -/
theorem mouse_reports_kept {s₀ : MouseBus} (h₀ : s₀.JustBound) {as : List Move}
    (hrun : SoundRun s₀ as s) : s.Kept :=
  (hrun.inv h₀.inv).kept

/-! ## Two runs -/

instance (s : MouseBus) : (a : Move) → Decidable (s.Sound a)
  | .complete cc bytes => inferInstanceAs (Decidable (isReport cc = true → 3 ≤ bytes.length))
  | .driver => inferInstanceAs (Decidable (s.pc = .clear → s.dequeue = s.posted))
  | .poll | .wait _ | .deadline | .execute _ | .notify _ => .isTrue trivial

/-- The moves of a run, as long as they are sound. -/
def runSoundly (s : MouseBus) : List Move → Option MouseBus
  | [] => some s
  | a :: as => if s.Sound a then (s.step a).bind fun s' => runSoundly s' as else none

theorem SoundRun.of_runSoundly {as : List Move} :
    ∀ {s : MouseBus}, s.runSoundly as = some s' → SoundRun s as s' := by
  induction as with
  | nil =>
      intro s h
      cases h
      exact .nil _
  | cons a as ih =>
      intro s h
      rw [runSoundly] at h
      split at h
      · next sound =>
          obtain ⟨t, step, rest⟩ := Option.bind_eq_some_iff.mp h
          exact .cons sound step (ih rest)
      · cases h

/-- A mouse on slot 3 that has just been bound, with reports of four bytes. -/
def justBound : MouseBus where
  pc := .bind
  slotId := 3
  mouse := ⟨false, false, 0, 0, 0, false⟩
  posted := 0
  returned := []
  state := .running
  dequeue := 0
  failed := false
  buffer := [0, 0, 0, 0]
  commands := []
  events := []
  completed := []

theorem justBound_justBound : justBound.JustBound :=
  ⟨rfl, rfl, ⟨rfl, rfl, rfl⟩, rfl, fun _ he => absurd he List.not_mem_nil, rfl, rfl⟩

/-- A poll of a mouse that need not be recovered and has reported once. -/
def plainPoll : List Move := [.poll, .driver, .driver, .driver, .driver, .driver]

/-- A report that comes in while a disk waits is returned by the next poll. -/
theorem mouse_reports_kept_disk_wait :
    ∃ s : MouseBus, s.Kept ∧ s.returned = [⟨5, -2, true, false⟩] ∧ s.outstanding = 1 := by
  have hrun : ∃ s, justBound.runSoundly
      ([.driver, .wait 32, .complete 13 [1, 5, 0xFE], .driver, .driver,
        .notify ⟨32, 1, 7, 0, 0⟩, .driver] ++ [.poll, .driver, .driver, .driver]) = some s ∧
      s.returned = [⟨5, -2, true, false⟩] ∧ s.outstanding = 1 := ⟨_, rfl, by decide, by decide⟩
  obtain ⟨s, hrun, hreturned, hout⟩ := hrun
  exact ⟨s, mouse_reports_kept justBound_justBound (.of_runSoundly hrun), hreturned, hout⟩

/-- A report of one byte is given the movement of the one before it; and where
the wait for Set TR Dequeue Pointer ends at its deadline, the poll arms a second
TRB, two reports are written to the one buffer, and the first is lost and the
second counted twice. -/
theorem mouse_reports_not_kept :
    (∃ s, justBound.run ([.driver, .complete 13 [0, 5, 0]] ++ plainPoll ++
        [.complete 13 [1]] ++ plainPoll) = some s ∧
      s.completed.map reportDelta = [⟨5, 0, false, false⟩, ⟨0, 0, true, false⟩] ∧
      s.returned = [⟨5, 0, false, false⟩, ⟨5, 0, true, false⟩]) ∧
    ∃ s, justBound.run ([.driver, .complete 4 [], .wait 32, .driver, .driver, .deadline,
        .poll, .driver, .execute 1, .driver, .driver, .deadline, .driver, .driver, .driver]) =
          some s ∧
      s.outstanding = 2 ∧
      ∃ s', s.run ([.driver, .complete 13 [0, 1, 0], .complete 13 [0, 2, 0], .poll, .driver,
          .driver, .driver, .driver, .driver, .driver, .driver]) = some s' ∧
        s'.completed.map reportDelta = [⟨1, 0, false, false⟩, ⟨2, 0, false, false⟩] ∧
        s'.returned = [⟨4, 0, false, false⟩] := by
  refine ⟨⟨_, rfl, by decide, by decide⟩, _, rfl, by decide, _, rfl, by decide, by decide⟩

end MouseBus

end Usb

end TablesOS
