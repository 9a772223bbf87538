import TablesOS.Proofs.Attribution

/-!
# Who may still use a buffer

A buffer is dropped when the call that made it returns, and the call returns
when its wait does. What has to be shown is that by then no ring that runs
still names the buffer. With deadlines out of the way that is a fact about
events: a wait for a transfer ends only with the one completion that the
posted descriptor produced, and completing takes the descriptor off the ring
or halts the endpoint. `Pending` is that fact while the driver waits,
`Rested` what is left of it between waits, and `Names` the part of it that is
about the driver's code.
-/

namespace TablesOS

namespace Usb

/-! ## Driver code and its buffers -/

namespace Script

variable {α β : Type}

/-- Run by a driver that holds the buffers `own`, and knows that no mouse is
bound if `fresh`, the code names no other buffer and ends in `Q`. -/
def Names : Script α → List Nat → Bool → (α → List Nat → Bool → Prop) → Prop
  | ret a, own, fresh, Q => Q a own fresh
  | alloc k, own, fresh, Q => ∀ b, b ∉ own → (k b).Names (b :: own) fresh Q
  | free b k, own, fresh, Q => b ∈ own ∧ k.Names (own.filter (· ≠ b)) fresh Q
  | transfer _ buffers k, own, fresh, Q => buffers ⊆ own ∧ ∀ r, (k r).Names own fresh Q
  | command _ k, own, fresh, Q => ∀ r, (k r).Names own fresh Q
  | drainAll k, own, fresh, Q => k.Names own fresh Q
  | bindMouse _ b k, own, fresh, Q =>
      fresh = true ∧ b ∈ own ∧ k.Names (own.filter (· ≠ b)) false Q
  | armMouse k, own, fresh, Q => k.Names own fresh Q
  | mouse k, own, _, Q => ∀ m, (k m).Names own m.isNone Q
  | mouseReset k, own, fresh, Q => k.Names own fresh Q

theorem names_bind {f : α → Script β} {Q : β → List Nat → Bool → Prop} (p : Script α)
    {own : List Nat} {fresh : Bool}
    (h : p.Names own fresh fun a own fresh => (f a).Names own fresh Q) :
    (p.bind f).Names own fresh Q := by
  induction p generalizing own fresh with
  | ret a => exact h
  | alloc k ih => exact fun b hb => ih b (h b hb)
  | free b k ih => exact ⟨h.1, ih h.2⟩
  | transfer ep buffers k ih => exact ⟨h.1, fun r => ih r (h.2 r)⟩
  | command c k ih => exact fun r => ih r (h r)
  | drainAll k ih => exact ih h
  | bindMouse ep b k ih => exact ⟨h.1, h.2.1, ih h.2.2⟩
  | armMouse k ih => exact ih h
  | mouse k ih => exact fun m => ih m (h m)
  | mouseReset k ih => exact ih h

/-- The code takes the driver from holding `own` to holding `own'`. -/
def Uses (p : Script α) (own own' : List Nat) : Prop :=
  ∀ fresh (Q : α → List Nat → Bool → Prop), (∀ a, Q a own' fresh) → p.Names own fresh Q

theorem uses_pure (a : α) (own : List Nat) : (Pure.pure a : Script α).Uses own own :=
  fun _ _ h => h a

theorem Uses.bind {p : Script α} {f : α → Script β} {own own₁ own₂ : List Nat}
    (hp : p.Uses own own₁) (hf : ∀ a, (f a).Uses own₁ own₂) : (p >>= f).Uses own own₂ :=
  fun fresh Q h => names_bind p (hp fresh _ fun a => hf a fresh Q h)

theorem Uses.free {k : Script α} {b : Nat} {own own' : List Nat} (hb : b ∉ own)
    (hk : k.Uses own own') : (Script.free b k).Uses (b :: own) own' := by
  intro fresh Q h
  refine ⟨List.mem_cons_self, ?_⟩
  have hfilter : (b :: own).filter (· ≠ b) = own := by
    rw [List.filter_cons_of_neg (by simp), List.filter_eq_self]
    intro x hx
    exact decide_eq_true fun hxb => hb (hxb ▸ hx)
  rw [hfilter]
  exact hk fresh Q h

theorem uses_issue (c : Command) (own : List Nat) : (issue c).Uses own own :=
  fun _ _ h r => h r

theorem uses_bulkTransfer {ep : EndpointId} {buf : Nat} {own : List Nat} (h : buf ∈ own) :
    (bulkTransfer ep buf).Uses own own :=
  fun _ _ hQ => ⟨fun _ hb => List.mem_singleton.mp hb ▸ h, fun r => hQ r⟩

theorem uses_ite {c : Prop} [Decidable c] {p p' : Script α} {own own' : List Nat}
    (h : p.Uses own own') (h' : p'.Uses own own') : (if c then p else p').Uses own own' := by
  by_cases hc : c
  · rw [if_pos hc]
    exact h
  · rw [if_neg hc]
    exact h'

end Script

open Script

theorem uses_controlTransferOnce (slotId : Byte) (data : Bool) (own : List Nat) :
    (controlTransferOnce slotId data).Uses own own := by
  unfold controlTransferOnce
  cases data with
  | false => exact fun _ _ h => ⟨List.nil_subset _, fun r => h r⟩
  | true =>
      intro fresh Q h b hb
      exact ⟨fun x hx => List.mem_singleton.mp hx ▸ List.mem_cons_self,
        fun r => (Uses.free hb (uses_pure r own)) fresh Q h⟩

theorem uses_controlTransfer (slotId : Byte) (data : Bool) (attempts : Nat) (own : List Nat) :
    (controlTransfer slotId data attempts).Uses own own := by
  induction attempts with
  | zero => exact uses_controlTransferOnce slotId data own
  | succ attempts ih =>
      refine (uses_controlTransferOnce slotId data own).bind fun r => ?_
      cases r with
      | none => exact uses_pure _ own
      | some e =>
          exact uses_ite (uses_pure _ own)
            ((uses_issue _ own).bind fun _ => (uses_issue _ own).bind fun _ => ih)

theorem uses_resetBulk (ep : EndpointId) (own : List Nat) : (resetBulk ep).Uses own own :=
  (uses_issue _ own).bind fun _ => (uses_issue _ own).bind fun _ => uses_pure _ own

theorem uses_cswStage (bulkIn : EndpointId) {csw : Nat} (tries : Nat) {own : List Nat}
    (h : csw ∈ own) : (cswStage bulkIn csw tries).Uses own own := by
  induction tries with
  | zero =>
      refine (uses_bulkTransfer h).bind fun r => ?_
      cases r with
      | none => exact uses_pure _ own
      | some e => exact uses_ite (uses_pure _ own) (uses_resetBulk _ own)
  | succ tries ih =>
      refine (uses_bulkTransfer h).bind fun r => ?_
      cases r with
      | none => exact uses_pure _ own
      | some e =>
          exact uses_ite (uses_pure _ own) ((uses_resetBulk _ own).bind fun _ => ih)

theorem uses_mscDataStage (bulkIn bulkOut : EndpointId) {data : Option (Nat × Bool)}
    {own : List Nat} (h : ∀ p, data = some p → p.1 ∈ own) :
    (mscDataStage bulkIn bulkOut data).Uses own own := by
  cases data with
  | none => exact uses_pure _ own
  | some p =>
      obtain ⟨buf, dirIn⟩ := p
      refine (uses_bulkTransfer (h _ rfl)).bind fun r => ?_
      cases r with
      | none => exact uses_pure _ own
      | some e =>
          exact uses_ite (uses_pure _ own) ((uses_resetBulk _ own).bind fun _ => uses_pure _ own)

theorem uses_mscScript (bulkIn bulkOut : EndpointId) {data : Option (Nat × Bool)}
    {own : List Nat} (h : ∀ p, data = some p → p.1 ∈ own) :
    (mscScript bulkIn bulkOut data).Uses own own := by
  intro fresh Q hQ cbw hcbw
  have hdone : (Script.free cbw (pure ())).Uses (cbw :: own) own := (uses_pure () own).free hcbw
  refine Uses.bind (uses_bulkTransfer List.mem_cons_self) (fun r => ?_) fresh Q hQ
  cases r with
  | none => exact hdone
  | some e =>
      refine uses_ite ((uses_resetBulk _ _).bind fun _ => hdone) ?_
      refine (uses_mscDataStage bulkIn bulkOut fun p hp =>
        List.mem_cons_of_mem _ (h p hp)).bind fun goOn => ?_
      refine uses_ite ?_ hdone
      intro fresh Q hQ csw hcsw
      exact Uses.bind (uses_cswStage bulkIn 1 List.mem_cons_self)
        (fun _ => hdone.free hcsw) fresh Q hQ

theorem uses_scsiScript (bulkIn bulkOut : EndpointId) (dirIn : Option Bool) (own : List Nat) :
    (scsiScript bulkIn bulkOut dirIn).Uses own own := by
  cases dirIn with
  | none => exact uses_mscScript bulkIn bulkOut fun p hp => by cases hp
  | some dirIn =>
      intro fresh Q hQ buf hbuf
      refine Uses.bind (uses_mscScript bulkIn bulkOut fun p hp => ?_)
        (fun _ => (uses_pure () own).free hbuf) fresh Q hQ
      cases hp
      exact List.mem_cons_self

/-- Every call names its own buffers only. -/
theorem names_script (c : RingCall) : c.script.Names [] false fun _ _ _ => True := by
  cases c with
  | command c =>
      exact ((uses_issue c []).bind fun _ => uses_pure () []) false _ fun _ => trivial
  | control slotId data =>
      exact ((uses_controlTransfer slotId data 2 []).bind fun _ => uses_pure () []) false _
        fun _ => trivial
  | scsi bulkIn bulkOut dirIn =>
      exact uses_scsiScript bulkIn bulkOut dirIn [] false _ fun _ => trivial
  | bindMouse ep =>
      intro m
      cases m with
      | none => exact fun b _ => ⟨rfl, List.mem_cons_self, trivial⟩
      | some m => exact trivial
  | pollMouse =>
      intro m
      cases m with
      | none => exact trivial
      | some m =>
          show Script.Names (if m.needsReset then _ else _) _ _ _
          by_cases hr : m.needsReset = true
          · rw [if_pos hr]
            exact ((uses_resetBulk m.ep []).bind fun _ =>
              (show Script.Uses (.mouseReset (.drainAll (.armMouse (pure ())))) [] [] from
                fun _ _ h => h ())) false _ fun _ => trivial
          · rw [if_neg hr]
            exact trivial

/-! ## What runs between waits, and during one -/

/-- Endpoint and report buffer of the bound mouse; nothing else about it
matters here, and neither changes once it is bound. -/
def Bus.mouseKey (s : Bus) : Option (EndpointId × Nat) := s.mouse.map fun m => (m.ep, m.reportBuf)

variable {key : Option (EndpointId × Nat)} {events : List Event}
  {rings : EndpointId → TransferRing} {own : List Nat}

/-- A Transfer Event only if it is the mouse's. -/
def Quiet (key : Option (EndpointId × Nat)) (e : Event) : Prop :=
  e.trbType = 32 → ∃ k, key = some k ∧ k.1.slotId = e.slotId

/-- A descriptor of the mouse's, on the ring of `ep`. -/
def MouseTd (key : Option (EndpointId × Nat)) (ep : EndpointId) (td : Td) : Prop :=
  ∃ k, key = some k ∧ k.1.slotId = ep.slotId ∧ td.buffers = [k.2]

/-- On rings that run, nothing but the mouse's. -/
def MouseOnly (key : Option (EndpointId × Nat)) (rings : EndpointId → TransferRing) : Prop :=
  ∀ ep, (rings ep).state = .running → ∀ td ∈ (rings ep).queue, MouseTd key ep td

structure Rested (key : Option (EndpointId × Nat)) (events : List Event)
    (rings : EndpointId → TransferRing) : Prop where
  events : ∀ e ∈ events, Quiet key e
  rings : MouseOnly key rings

/-- The descriptor posted last is still on its ring, behind the mouse's if it
runs; or it has completed, and its event is the one that is unread. -/
inductive Pending (key : Option (EndpointId × Nat)) (events : List Event)
    (rings : EndpointId → TransferRing) (own : List Nat) : Prop
  | posted (ep : EndpointId) (quiet : ∀ e ∈ events, Quiet key e)
      (others : ∀ ep', ep' ≠ ep → (rings ep').state = .running →
        ∀ td ∈ (rings ep').queue, MouseTd key ep' td)
      (last : (rings ep).state = .running → ∃ q t, (rings ep).queue = q ++ t ∧
        (∀ td ∈ q, MouseTd key ep td) ∧ (t = [] ∨ ∃ td, t = [td] ∧ td.buffers ⊆ own))
  | completed (before : List Event) (e : Event) (after : List Event)
      (split : events = before ++ e :: after) (quiet : ∀ e' ∈ before ++ after, Quiet key e')
      (rings : MouseOnly key rings)

/-- Buffers the driver holds: not released, and not the mouse's. -/
structure Covered (key : Option (EndpointId × Nat)) (released : List Nat) (next : Nat)
    (own : List Nat) : Prop where
  released : ∀ b ∈ own, b ∉ released
  next : ∀ b ∈ own, b < next
  mouse : ∀ b ∈ own, ∀ k, key = some k → b ≠ k.2

theorem isMouseEvent_key (s : Bus) (e : Event) :
    s.isMouseEvent e = (e.trbType == 32 && s.mouseKey.any (·.1.slotId == e.slotId)) := by
  unfold Bus.isMouseEvent Bus.mouseKey
  cases s.mouse <;> rfl

theorem isMouseEvent_of_quiet {s : Bus} {e : Event} (h : Quiet s.mouseKey e)
    (ht : e.trbType = 32) : s.isMouseEvent e = true := by
  obtain ⟨k, hk, hslot⟩ := h ht
  rw [isMouseEvent_key, ht, hk]
  show ((32 : Byte) == 32 && k.1.slotId == e.slotId) = true
  rw [hslot, beq_self_eq_true, beq_self_eq_true]
  rfl

theorem serviceMouse_key (s : Bus) (e : Event) :
    (s.serviceMouse e).map (fun m => (m.ep, m.reportBuf)) = s.mouseKey := by
  unfold Bus.serviceMouse Bus.mouseKey
  cases s.mouse with
  | none => rfl
  | some m => by_cases h : e.accepted = true <;> simp [h]

/-! ## The controller -/

/-- Completing the head of a running ring. -/
def completeRing (rings : EndpointId → TransferRing) (ep : EndpointId) (td : Td) (tds : List Td)
    (cc : Byte) : EndpointId → TransferRing := fun ep' =>
  if ep' = ep then if cc = 1 ∨ cc = 13 then ⟨.running, tds⟩ else ⟨.halted, td :: tds⟩
  else rings ep'

theorem completeRing_other {ep ep' : EndpointId} {td : Td} {tds : List Td} {cc : Byte}
    (h : ep' ≠ ep) : completeRing rings ep td tds cc ep' = rings ep' :=
  if_neg h

theorem completeRing_running {ep : EndpointId} {td : Td} {tds : List Td} {cc : Byte}
    (h : (completeRing rings ep td tds cc ep).state = .running) :
    (completeRing rings ep td tds cc ep).queue = tds := by
  unfold completeRing at h ⊢
  rw [if_pos rfl] at h ⊢
  by_cases hcc : cc = 1 ∨ cc = 13
  · rw [if_pos hcc]
  · rw [if_neg hcc] at h
    cases h

theorem MouseOnly.complete {ep : EndpointId} {td : Td} {tds : List Td} (h : MouseOnly key rings)
    (hr : rings ep = ⟨.running, td :: tds⟩) (cc : Byte) :
    MouseOnly key (completeRing rings ep td tds cc) ∧ MouseTd key ep td := by
  have hall := h ep (by rw [hr])
  rw [hr] at hall
  refine ⟨fun ep' hrun td' htd' => ?_, hall td List.mem_cons_self⟩
  by_cases hep : ep' = ep
  · rw [hep] at hrun htd' ⊢
    rw [completeRing_running hrun] at htd'
    exact hall td' (List.mem_cons_of_mem _ htd')
  · rw [completeRing_other hep] at hrun htd'
    exact h ep' hrun td' htd'

theorem quiet_of_mouseTd {ep : EndpointId} {td : Td} (h : MouseTd key ep td) (cc : Byte)
    (length : Nat) : Quiet key ⟨32, cc, ep.slotId, td.id, length⟩ := by
  intro _
  obtain ⟨k, hk, hslot, -⟩ := h
  exact ⟨k, hk, hslot⟩

theorem quiet_append {e : Event} (h : ∀ e ∈ events, Quiet key e) (he : Quiet key e) :
    ∀ e' ∈ events ++ [e], Quiet key e' := by
  intro e' he'
  rcases List.mem_append.mp he' with he' | he'
  · exact h e' he'
  · rw [List.mem_singleton.mp he']
    exact he

theorem Rested.complete {ep : EndpointId} {td : Td} {tds : List Td}
    (h : Rested key events rings) (hr : rings ep = ⟨.running, td :: tds⟩) (cc : Byte)
    (length : Nat) :
    Rested key (events ++ [⟨32, cc, ep.slotId, td.id, length⟩])
      (completeRing rings ep td tds cc) := by
  obtain ⟨hrings, htd⟩ := h.rings.complete hr cc
  exact ⟨quiet_append h.events (quiet_of_mouseTd htd cc length), hrings⟩

theorem Pending.complete {ep : EndpointId} {td : Td} {tds : List Td}
    (h : Pending key events rings own) (hr : rings ep = ⟨.running, td :: tds⟩) (cc : Byte)
    (length : Nat) :
    Pending key (events ++ [⟨32, cc, ep.slotId, td.id, length⟩])
      (completeRing rings ep td tds cc) own := by
  cases h with
  | completed before e after split quiet hrings =>
      obtain ⟨hrings', htd⟩ := hrings.complete hr cc
      refine .completed before e (after ++ [⟨32, cc, ep.slotId, td.id, length⟩]) ?_ ?_ hrings'
      · rw [split, List.append_assoc, List.cons_append]
      · rw [← List.append_assoc]
        exact quiet_append quiet (quiet_of_mouseTd htd cc length)
  | posted ep₀ quiet others last =>
      by_cases hep : ep = ep₀
      · subst hep
        obtain ⟨q, t, hq, hmouse, ht⟩ := last (by rw [hr])
        rw [hr] at hq
        dsimp only at hq
        have hothers : ∀ ep', ep' ≠ ep → (completeRing rings ep td tds cc ep').state = .running →
            ∀ td' ∈ (completeRing rings ep td tds cc ep').queue, MouseTd key ep' td' := by
          intro ep' hne hrun td' htd'
          rw [completeRing_other hne] at hrun htd'
          exact others ep' hne hrun td' htd'
        cases q with
        | cons td₀ q =>
            rw [List.cons_append] at hq
            obtain ⟨rfl, rfl⟩ := List.cons.inj hq
            refine .posted ep (quiet_append quiet (quiet_of_mouseTd (hmouse td
              List.mem_cons_self) cc length)) hothers fun hrun => ⟨q, t, ?_, ?_, ht⟩
            · exact completeRing_running hrun
            · exact fun td' htd' => hmouse td' (List.mem_cons_of_mem _ htd')
        | nil =>
            rw [List.nil_append] at hq
            rcases ht with rfl | ⟨td₀, rfl, -⟩
            · cases hq
            · obtain ⟨rfl, rfl⟩ := List.cons.inj hq
              refine .completed events ⟨32, cc, ep.slotId, td.id, length⟩ [] rfl ?_ ?_
              · rw [List.append_nil]
                exact quiet
              · intro ep' hrun td' htd'
                by_cases hne : ep' = ep
                · rw [hne] at hrun htd'
                  rw [completeRing_running hrun] at htd'
                  cases htd'
                · exact hothers ep' hne hrun td' htd'
      · have hne : ep₀ ≠ ep := fun h => hep h.symm
        have hall := others ep hep (by rw [hr])
        rw [hr] at hall
        have htd : MouseTd key ep td := hall td List.mem_cons_self
        refine .posted ep₀ (quiet_append quiet (quiet_of_mouseTd htd cc length)) ?_ ?_
        · intro ep' hne' hrun td' htd'
          by_cases hep' : ep' = ep
          · rw [hep'] at hrun htd' ⊢
            rw [completeRing_running hrun] at htd'
            exact hall td' (List.mem_cons_of_mem _ htd')
          · rw [completeRing_other hep'] at hrun htd'
            exact others ep' hne' hrun td' htd'
        · rw [completeRing_other hne]
          exact last

/-- Rings after a command, whatever it came to: a ring that runs is as it was,
or empty. -/
def Shrunk (rings rings' : EndpointId → TransferRing) : Prop :=
  ∀ ep, (rings' ep).state = .running → (rings' ep).queue = [] ∨ rings' ep = rings ep

theorem shrunk_execute (rings : EndpointId → TransferRing) (c : Command) (cc : Byte) :
    Shrunk rings fun ep => if cc = 1 then c.effect ep (rings ep) else rings ep := by
  intro ep hrun
  dsimp only at hrun ⊢
  by_cases hcc : cc = 1
  · rw [if_pos hcc] at hrun ⊢
    exact effect_running hrun
  · rw [if_neg hcc]
    exact Or.inr rfl

theorem Shrunk.mouseOnly {rings' : EndpointId → TransferRing} (hs : Shrunk rings rings')
    (h : MouseOnly key rings) : MouseOnly key rings' := by
  intro ep hrun td htd
  rcases hs ep hrun with hnil | hsame
  · rw [hnil] at htd
    cases htd
  · rw [hsame] at hrun htd
    exact h ep hrun td htd

/-- An event that is not of a transfer, and rings that shrank. -/
theorem Rested.shrink {rings' : EndpointId → TransferRing} {e : Event}
    (h : Rested key events rings) (hs : Shrunk rings rings') (he : e.trbType ≠ 32) :
    Rested key (events ++ [e]) rings' :=
  ⟨quiet_append h.events fun ht => absurd ht he, hs.mouseOnly h.rings⟩

theorem Pending.shrink {rings' : EndpointId → TransferRing} {e : Event}
    (h : Pending key events rings own) (hs : Shrunk rings rings') (he : e.trbType ≠ 32) :
    Pending key (events ++ [e]) rings' own := by
  have hquiet : Quiet key e := fun ht => absurd ht he
  cases h with
  | completed before e' after split quiet hrings =>
      refine .completed before e' (after ++ [e]) ?_ ?_ (hs.mouseOnly hrings)
      · rw [split, List.append_assoc, List.cons_append]
      · rw [← List.append_assoc]
        exact quiet_append quiet hquiet
  | posted ep quiet others last =>
      refine .posted ep (quiet_append quiet hquiet) ?_ ?_
      · intro ep' hne hrun td htd
        rcases hs ep' hrun with hnil | hsame
        · rw [hnil] at htd
          cases htd
        · rw [hsame] at hrun htd
          exact others ep' hne hrun td htd
      · intro hrun
        rcases hs ep hrun with hnil | hsame
        · exact ⟨[], [], hnil, fun td htd => (by cases htd), Or.inl rfl⟩
        · rw [hsame] at hrun ⊢
          exact last hrun

/-! ## The driver -/

/-- No ring that runs names a released buffer. -/
def Bus.Safe (s : Bus) : Prop :=
  ∀ ep, (s.rings ep).state = .running → ∀ td ∈ (s.rings ep).queue, ∀ b ∈ td.buffers,
    b ∉ s.released

/-- The endpoint whose doorbell the driver's next step rings. -/
def Bus.rung (s : Bus) : Option EndpointId :=
  match s.control with
  | .at (.transfer ep _ _) => some ep
  | .at (.armMouse _) => s.mouse.bind fun m => if m.armed then none else some m.ep
  | _ => none

/-- No wait for a transfer is given up, and no stopped endpoint is started
with a descriptor left on its ring. -/
def Bus.Careful (s : Bus) (a : Act) : Prop :=
  (a = .deadline → ∀ own k, s.control ≠ .wait 32 own k) ∧
    (a = .driver → ∀ ep, s.rung = some ep → (s.rings ep).state = .stopped →
      (s.rings ep).queue = [])

/-- What the driver's position says about rings and events. -/
def Tidy (s : Bus) (own : List Nat) (fresh : Bool) : Control → Prop
  | .at p => Rested s.mouseKey s.events s.rings ∧ p.Names own fresh fun _ _ _ => True
  | .wait want _ k => (∀ r, (k r).Names own fresh fun _ _ _ => True) ∧
      (want = 32 ∧ Pending s.mouseKey s.events s.rings own ∨
        want = 33 ∧ Rested s.mouseKey s.events s.rings)

/-- The invariant. -/
structure Kept (s : Bus) : Prop where
  mouseBuf : ∀ k, s.mouseKey = some k → k.2 ∉ s.released ∧ k.2 < s.next
  released : ∀ b ∈ s.released, b < s.next
  control : ∃ own fresh, Covered s.mouseKey s.released s.next own ∧
    (fresh = true → s.mouseKey = none) ∧ Tidy s own fresh s.control

theorem kept_fresh : Kept Bus.fresh where
  mouseBuf k hk := by cases hk
  released b hb := by cases hb
  control := by
    refine ⟨[], false, ⟨fun b hb => ?_, fun b hb => ?_, fun b hb => ?_⟩, fun h => ?_, ⟨?_, ?_⟩,
      trivial⟩
    · cases hb
    · cases hb
    · cases hb
    · cases h
    · intro e he
      cases he
    · intro ep hrun
      cases hrun

theorem MouseOnly.safe {s : Bus} (h : Kept s) (hr : MouseOnly s.mouseKey s.rings) : s.Safe := by
  intro ep hrun td htd b hb
  obtain ⟨k, hk, -, hbuf⟩ := hr ep hrun td htd
  rw [hbuf] at hb
  rw [List.mem_singleton.mp hb]
  exact (h.mouseBuf k hk).1

theorem Kept.safe {s : Bus} (h : Kept s) : s.Safe := by
  obtain ⟨own, fresh, hcov, -, htidy⟩ := h.control
  cases hc : s.control with
  | «at» p =>
      rw [hc] at htidy
      exact htidy.1.rings.safe h
  | wait want id k =>
      rw [hc] at htidy
      rcases htidy.2 with ⟨-, hpend⟩ | ⟨-, hset⟩
      · cases hpend with
        | completed before e after split quiet hrings => exact hrings.safe h
        | posted ep quiet others last =>
            intro ep' hrun td htd b hb
            have hmouse : MouseTd s.mouseKey ep' td → b ∉ s.released := by
              rintro ⟨k, hk, -, hbuf⟩
              rw [hbuf] at hb
              rw [List.mem_singleton.mp hb]
              exact (h.mouseBuf k hk).1
            by_cases hep : ep' = ep
            · rw [hep] at hrun htd
              obtain ⟨q, t, hq, hm, ht⟩ := last hrun
              rw [hq] at htd
              rcases List.mem_append.mp htd with htd | htd
              · exact hmouse (hep ▸ hm td htd)
              · rcases ht with rfl | ⟨td', rfl, hsub⟩
                · cases htd
                · rw [List.mem_singleton.mp htd] at hb
                  exact hcov.released b (hsub hb)
            · exact hmouse (others ep' hep hrun td htd)
      · exact hset.rings.safe h

/-- The controller's steps. -/
theorem kept_controller (h : Kept s) (hs : s.Step .controller s') : Kept s' := by
  obtain ⟨own, fresh, hcov, hfresh, htidy⟩ := h.control
  have hstep : ∀ events rings, (Rested s.mouseKey s.events s.rings →
      Rested s.mouseKey events rings) → (Pending s.mouseKey s.events s.rings own →
        Pending s.mouseKey events rings own) →
      ∀ cs, Kept { s with rings := rings, events := events, commands := cs } := by
    intro events rings hset hpend cs
    refine ⟨h.mouseBuf, h.released, own, fresh, hcov, hfresh, ?_⟩
    show Tidy _ _ _ s.control
    cases hc : s.control with
    | «at» p =>
        rw [hc] at htidy
        exact ⟨hset htidy.1, htidy.2⟩
    | wait want id k =>
        rw [hc] at htidy
        refine ⟨htidy.1, ?_⟩
        rcases htidy.2 with ⟨hw, hp⟩ | ⟨hw, hp⟩
        · exact Or.inl ⟨hw, hpend hp⟩
        · exact Or.inr ⟨hw, hset hp⟩
  cases hs with
  | complete ep cc length hr =>
      exact hstep _ _ (fun hp => hp.complete hr cc length) (fun hp => hp.complete hr cc length) _
  | execute cc slotId hc =>
      exact hstep _ _ (fun hp => hp.shrink (shrunk_execute _ _ cc)
        (show (33 : Byte) ≠ 32 by decide))
        (fun hp => hp.shrink (shrunk_execute _ _ cc) (show (33 : Byte) ≠ 32 by decide)) _
  | notify e hne =>
      exact hstep _ _ (fun hp => hp.shrink (fun _ _ => Or.inr rfl) hne.1)
        (fun hp => hp.shrink (fun _ _ => Or.inr rfl) hne.1) _

theorem Rested.tail {e : Event} {es : List Event} (h : Rested key (e :: es) rings) :
    Rested key es rings :=
  ⟨fun e' he' => h.events e' (List.mem_cons_of_mem _ he'), h.rings⟩

theorem Rested.pending (h : Rested key events rings) (own : List Nat) :
    Pending key events rings own :=
  .posted ⟨0, 0⟩ h.events (fun ep _ => h.rings ep) fun hrun =>
    ⟨_, [], (List.append_nil _).symm, h.rings _ hrun, Or.inl rfl⟩

/-- The unread event of the descriptor posted last is the first that is not
quiet, and the only one. -/
theorem Pending.answer {e : Event} {es : List Event} (h : Pending key (e :: es) rings own)
    (he : ¬ Quiet key e) : Rested key es rings := by
  cases h with
  | posted ep quiet others last => exact absurd (quiet e List.mem_cons_self) he
  | completed before e' after split quiet hrings =>
      cases before with
      | cons b before =>
          obtain ⟨rfl, rfl⟩ := List.cons.inj split
          exact absurd (quiet e List.mem_cons_self) he
      | nil =>
          obtain ⟨rfl, rfl⟩ := List.cons.inj split
          exact ⟨fun x hx => quiet x hx, hrings⟩

theorem Pending.tail {e : Event} {es : List Event} (h : Pending key (e :: es) rings own) :
    Pending key es rings own := by
  cases h with
  | posted ep quiet others last =>
      exact .posted ep (fun e' he' => quiet e' (List.mem_cons_of_mem _ he')) others last
  | completed before e' after split quiet hrings =>
      cases before with
      | cons b before =>
          obtain ⟨rfl, rfl⟩ := List.cons.inj split
          exact .completed before e' after rfl
            (fun x hx => quiet x (List.mem_cons_of_mem _ hx)) hrings
      | nil =>
          obtain ⟨rfl, rfl⟩ := List.cons.inj split
          exact Rested.pending ⟨fun x hx => quiet x hx, hrings⟩ own

/-- A ring that runs after a doorbell ran before, or had been stopped. -/
theorem ring_running {r : TransferRing} {td : Td} (h : (r.ring td).state = .running) :
    r.state = .running ∨ r.state = .stopped := by
  unfold TransferRing.ring at h
  by_cases hs : r.state = .stopped
  · exact Or.inr hs
  · dsimp only at h
    rw [if_neg hs] at h
    exact Or.inl h

/-- The driver posts a descriptor of its own. -/
theorem Rested.post {s : Bus} {ep : EndpointId} {buffers : List Nat}
    (h : Rested key s.events s.rings)
    (hrung : (s.rings ep).state = .stopped → (s.rings ep).queue = []) (hsub : buffers ⊆ own) :
    Pending key s.events (s.post ⟨s.next, ep, buffers⟩) own := by
  refine .posted ep h.events ?_ ?_
  · intro ep' hne hrun td htd
    unfold Bus.post at hrun htd
    dsimp only at hrun htd
    rw [if_neg hne] at hrun htd
    exact h.rings ep' hrun td htd
  · intro hrun
    unfold Bus.post at hrun ⊢
    dsimp only at hrun ⊢
    rw [if_pos rfl] at hrun ⊢
    refine ⟨(s.rings ep).queue, [⟨s.next, ep, buffers⟩], rfl, ?_, Or.inr ⟨_, rfl, hsub⟩⟩
    intro td htd
    rcases ring_running hrun with hold | hold
    · exact h.rings ep hold td htd
    · rw [hrung hold] at htd
      cases htd

/-- The driver arms the mouse. -/
theorem Rested.arm {s : Bus} {ep : EndpointId} {buf : Nat}
    (h : Rested (some (ep, buf)) s.events s.rings)
    (hrung : (s.rings ep).state = .stopped → (s.rings ep).queue = []) :
    Rested (some (ep, buf)) s.events (s.post ⟨s.next, ep, [buf]⟩) := by
  refine ⟨h.events, fun ep' hrun td htd => ?_⟩
  unfold Bus.post at hrun htd
  dsimp only at hrun htd
  by_cases hep : ep' = ep
  · rw [if_pos hep] at hrun htd
    rw [hep] at hrun htd ⊢
    rcases List.mem_append.mp (show td ∈ (s.rings ep).queue ++ [_] from htd) with htd | htd
    · rcases ring_running hrun with hold | hold
      · exact h.rings ep hold td htd
      · rw [hrung hold] at htd
        cases htd
    · rw [List.mem_singleton.mp htd]
      exact ⟨_, rfl, rfl, rfl⟩
  · rw [if_neg hep] at hrun htd
    exact h.rings ep' hrun td htd

/-- With no mouse bound, nothing runs and nothing is unread between waits, so
one may be bound. -/
theorem Rested.bind (h : Rested none events rings) (key : Option (EndpointId × Nat)) :
    Rested key events rings := by
  constructor
  · intro e he ht
    obtain ⟨k, hk, -⟩ := h.events e he ht
    cases hk
  · intro ep hrun td htd
    obtain ⟨k, hk, -⟩ := h.rings ep hrun td htd
    cases hk

theorem Covered.next_le {released : List Nat} {next : Nat} (h : Covered key released next own) :
    Covered key released (next + 1) own :=
  ⟨h.released, fun b hb => Nat.lt_succ_of_lt (h.next b hb), h.mouse⟩

theorem covered_nil (key : Option (EndpointId × Nat)) (released : List Nat) (next : Nat) :
    Covered key released next [] :=
  ⟨fun _ hb => (by cases hb), fun _ hb => (by cases hb), fun _ hb => by cases hb⟩

theorem mem_filter_ne {b x : Nat} (h : x ∈ own.filter (· ≠ b)) : x ∈ own ∧ x ≠ b := by
  rw [List.mem_filter] at h
  exact ⟨h.1, of_decide_eq_true h.2⟩

/-- What is known between waits. -/
theorem Kept.at {p : Script Unit} (h : Kept s) (hc : s.control = .at p) :
    ∃ own fresh, Covered s.mouseKey s.released s.next own ∧
      (fresh = true → s.mouseKey = none) ∧ Rested s.mouseKey s.events s.rings ∧
      p.Names own fresh fun _ _ _ => True := by
  obtain ⟨own, fresh, hcov, hfresh, htidy⟩ := h.control
  rw [hc] at htidy
  exact ⟨own, fresh, hcov, hfresh, htidy⟩

/-- What is known during one. -/
theorem Kept.wait {want : Byte} {id : Nat} {k : Option Event → Script Unit} (h : Kept s)
    (hc : s.control = .wait want id k) :
    ∃ own fresh, Covered s.mouseKey s.released s.next own ∧
      (fresh = true → s.mouseKey = none) ∧
      (∀ r, (k r).Names own fresh fun _ _ _ => True) ∧
      (want = 32 ∧ Pending s.mouseKey s.events s.rings own ∨
        want = 33 ∧ Rested s.mouseKey s.events s.rings) := by
  obtain ⟨own, fresh, hcov, hfresh, htidy⟩ := h.control
  rw [hc] at htidy
  exact ⟨own, fresh, hcov, hfresh, htidy⟩

/-- A driver step that touches neither buffers nor rings. -/
theorem kept_move {p : Script Unit} {own : List Nat} {f : Bool} {es : List Event}
    {m : Option BoundMouse} (h : Kept s)
    (hcov : Covered s.mouseKey s.released s.next own) (hfresh : f = true → s.mouseKey = none)
    (hset : Rested s.mouseKey es s.rings) (hnames : p.Names own f fun _ _ _ => True)
    (hm : m.map (fun m => (m.ep, m.reportBuf)) = s.mouseKey) (ans : List (Nat × Nat)) :
    Kept { s with control := .at p, events := es, mouse := m, answered := ans } := by
  have hkey : ({ s with control := .at p, events := es, mouse := m, answered := ans } :
      Bus).mouseKey = s.mouseKey := hm
  refine ⟨?_, h.released, own, f, ?_, ?_, ?_, hnames⟩
  · rw [hkey]
    exact h.mouseBuf
  · rw [hkey]
    exact hcov
  · rw [hkey]
    exact hfresh
  · rw [hkey]
    exact hset

/-- The same in a wait. -/
theorem kept_stay {want : Byte} {id : Nat} {k : Option Event → Script Unit} {own : List Nat}
    {fresh : Bool} {es : List Event} {m : Option BoundMouse} (h : Kept s)
    (hctl : s.control = .wait want id k)
    (hcov : Covered s.mouseKey s.released s.next own) (hfresh : fresh = true → s.mouseKey = none)
    (hnames : ∀ r, (k r).Names own fresh fun _ _ _ => True)
    (hpend : want = 32 ∧ Pending s.mouseKey es s.rings own ∨
      want = 33 ∧ Rested s.mouseKey es s.rings)
    (hm : m.map (fun m => (m.ep, m.reportBuf)) = s.mouseKey) :
    Kept { s with events := es, mouse := m } := by
  have hkey : ({ s with events := es, mouse := m } : Bus).mouseKey = s.mouseKey := hm
  refine ⟨?_, h.released, own, fresh, ?_, ?_, ?_⟩
  · rw [hkey]
    exact h.mouseBuf
  · rw [hkey]
    exact hcov
  · rw [hkey]
    exact hfresh
  · show Tidy _ own fresh s.control
    rw [hctl]
    refine ⟨hnames, ?_⟩
    show want = 32 ∧ Pending (m.map fun m => (m.ep, m.reportBuf)) es s.rings own ∨
      want = 33 ∧ Rested (m.map fun m => (m.ep, m.reportBuf)) es s.rings
    rw [hm]
    exact hpend

/-- The driver's own steps. -/
theorem kept_driver (h : Kept s) (hcare : s.Careful .driver) (hs : s.Step .driver s') :
    Kept s' := by
  have hrung := hcare.2 rfl
  cases hs with
  | alloc hc =>
      obtain ⟨own, fresh, hcov, hfresh, hset, hnames⟩ := h.at hc
      have hnew : s.next ∉ own := fun hmem => Nat.lt_irrefl _ (hcov.next _ hmem)
      refine ⟨fun k hk => ⟨(h.mouseBuf k hk).1, Nat.lt_succ_of_lt (h.mouseBuf k hk).2⟩,
        fun b hb => Nat.lt_succ_of_lt (h.released b hb), s.next :: own, fresh, ⟨?_, ?_, ?_⟩,
        hfresh, hset, hnames s.next hnew⟩
      · intro b hb hrel
        rcases List.mem_cons.mp hb with rfl | hb
        · exact Nat.lt_irrefl _ (h.released _ hrel)
        · exact hcov.released b hb hrel
      · intro b hb
        rcases List.mem_cons.mp hb with rfl | hb
        · exact Nat.lt_succ_self _
        · exact Nat.lt_succ_of_lt (hcov.next b hb)
      · intro b hb k hk
        rcases List.mem_cons.mp hb with rfl | hb
        · exact Nat.ne_of_gt (h.mouseBuf k hk).2
        · exact hcov.mouse b hb k hk
  | free hc =>
      rename_i b k
      obtain ⟨own, fresh, hcov, hfresh, hset, hmem, hnames⟩ := h.at hc
      refine ⟨fun k hk => ⟨?_, (h.mouseBuf k hk).2⟩, fun x hx => ?_, _, fresh, ⟨?_, ?_, ?_⟩,
        hfresh, hset, hnames⟩
      · intro hrel
        rcases List.mem_cons.mp hrel with heq | hrel
        · exact hcov.mouse b hmem k hk heq.symm
        · exact (h.mouseBuf k hk).1 hrel
      · rcases List.mem_cons.mp hx with rfl | hx
        · exact hcov.next x hmem
        · exact h.released x hx
      · intro x hx hrel
        obtain ⟨hx, hne⟩ := mem_filter_ne hx
        rcases List.mem_cons.mp hrel with heq | hrel
        · exact hne heq
        · exact hcov.released x hx hrel
      · exact fun x hx => hcov.next x (mem_filter_ne hx).1
      · exact fun x hx => hcov.mouse x (mem_filter_ne hx).1
  | transfer hc =>
      rename_i ep buffers k
      obtain ⟨own, fresh, hcov, hfresh, hset, hsub, hnames⟩ := h.at hc
      have hstart : (s.rings ep).state = .stopped → (s.rings ep).queue = [] :=
        hrung ep (by unfold Bus.rung; rw [hc])
      exact ⟨fun k hk => ⟨(h.mouseBuf k hk).1, Nat.lt_succ_of_lt (h.mouseBuf k hk).2⟩,
        fun b hb => Nat.lt_succ_of_lt (h.released b hb), own, fresh, hcov.next_le, hfresh, hnames,
        Or.inl ⟨rfl, hset.post hstart hsub⟩⟩
  | command hc =>
      obtain ⟨own, fresh, hcov, hfresh, hset, hnames⟩ := h.at hc
      exact ⟨fun k hk => ⟨(h.mouseBuf k hk).1, Nat.lt_succ_of_lt (h.mouseBuf k hk).2⟩,
        fun b hb => Nat.lt_succ_of_lt (h.released b hb), own, fresh, hcov.next_le, hfresh, hnames,
        Or.inr ⟨rfl, hset⟩⟩
  | drained hc he =>
      rename_i k
      obtain ⟨own, fresh, hcov, hfresh, hset, hnames⟩ := h.at hc
      exact kept_move (p := k) h hcov hfresh hset hnames rfl _
  | drainMouse hc he hm =>
      rename_i k e es
      obtain ⟨own, fresh, hcov, hfresh, hset, hnames⟩ := h.at hc
      rw [he] at hset
      have := kept_move (m := s.serviceMouse e) h hcov hfresh hset.tail hnames
        (serviceMouse_key s e) s.answered
      rw [← hc] at this
      exact this
  | drainDrop hc he hm =>
      obtain ⟨own, fresh, hcov, hfresh, hset, hnames⟩ := h.at hc
      rw [he] at hset
      have := kept_move (m := s.mouse) h hcov hfresh hset.tail hnames rfl s.answered
      rw [← hc] at this
      exact this
  | bindMouse hc =>
      rename_i ep b k
      obtain ⟨own, fresh, hcov, hfresh, hset, hf, hmem, hnames⟩ := h.at hc
      rw [hfresh hf] at hset
      refine ⟨fun k hk => ?_, h.released, _, false, ⟨?_, ?_, ?_⟩, fun h => (by cases h),
        hset.bind _, hnames⟩
      · cases hk
        exact ⟨hcov.released b hmem, hcov.next b hmem⟩
      · exact fun x hx => hcov.released x (mem_filter_ne hx).1
      · exact fun x hx => hcov.next x (mem_filter_ne hx).1
      · intro x hx k hk
        cases hk
        exact (mem_filter_ne hx).2
  | armMouse hc hm ha =>
      rename_i k m
      obtain ⟨own, fresh, hcov, hfresh, hset, hnames⟩ := h.at hc
      have hkey : s.mouseKey = some (m.ep, m.reportBuf) := by
        unfold Bus.mouseKey
        rw [hm]
        rfl
      have hstart : (s.rings m.ep).state = .stopped → (s.rings m.ep).queue = [] := by
        refine hrung m.ep ?_
        unfold Bus.rung
        rw [hc]
        dsimp only
        rw [hm, Option.bind_some, ha]
        rfl
      rw [hkey] at hset hcov
      refine ⟨fun k hk => ?_, fun b hb => Nat.lt_succ_of_lt (h.released b hb), own, fresh,
        hcov.next_le, ?_, hset.arm hstart, hnames⟩
      · cases hk
        have := h.mouseBuf _ hkey
        exact ⟨this.1, Nat.lt_succ_of_lt this.2⟩
      · intro hf
        rw [hkey] at hfresh
        cases hfresh hf
  | armedMouse hc hm =>
      rename_i k
      obtain ⟨own, fresh, hcov, hfresh, hset, hnames⟩ := h.at hc
      exact kept_move (p := k) h hcov hfresh hset hnames rfl _
  | mouse hc =>
      obtain ⟨own, fresh, hcov, hfresh, hset, hnames⟩ := h.at hc
      refine kept_move (f := s.mouse.isNone) h hcov (fun hnone => ?_) hset (hnames s.mouse)
        rfl _
      unfold Bus.mouseKey
      rw [Option.isNone_iff_eq_none.mp hnone]
      rfl
  | mouseReset hc =>
      rename_i k
      obtain ⟨own, fresh, hcov, hfresh, hset, hnames⟩ := h.at hc
      refine kept_move (p := k) h hcov hfresh hset hnames ?_ _
      unfold Bus.mouseKey
      cases s.mouse <;> rfl
  | service hc he hm =>
      obtain ⟨own, fresh, hcov, hfresh, hnames, hpend⟩ := h.wait hc
      rw [he] at hpend
      refine kept_stay h hc hcov hfresh hnames ?_ (serviceMouse_key s _)
      rcases hpend with ⟨hw, hp⟩ | ⟨hw, hp⟩
      · exact Or.inl ⟨hw, hp.tail⟩
      · exact Or.inr ⟨hw, hp.tail⟩
  | skip hc he hm ht =>
      obtain ⟨own, fresh, hcov, hfresh, hnames, hpend⟩ := h.wait hc
      rw [he] at hpend
      refine kept_stay h hc hcov hfresh hnames ?_ rfl
      rcases hpend with ⟨hw, hp⟩ | ⟨hw, hp⟩
      · exact Or.inl ⟨hw, hp.tail⟩
      · exact Or.inr ⟨hw, hp.tail⟩
  | answer hc he hm ht =>
      obtain ⟨own, fresh, hcov, hfresh, hnames, hpend⟩ := h.wait hc
      rw [he] at hpend
      refine kept_move h hcov hfresh ?_ (hnames _) rfl _
      rcases hpend with ⟨hw, hp⟩ | ⟨hw, hp⟩
      · refine hp.answer fun hquiet => ?_
        rw [isMouseEvent_of_quiet hquiet (ht.trans hw)] at hm
        cases hm
      · exact hp.tail

/-- Every careful step. -/
theorem kept_step (h : Kept s) (hcare : s.Careful a) (hs : s.Step a s') : Kept s' := by
  cases a with
  | controller => exact kept_controller h hs
  | driver => exact kept_driver h hcare hs
  | begin c =>
      cases hs with
      | begin c hc =>
          obtain ⟨own, fresh, hcov, hfresh, hset, hnames⟩ := h.at hc
          exact kept_move (m := s.mouse) (f := false) h (covered_nil _ _ _)
            (fun h => by cases h) hset (names_script c) rfl s.answered
  | deadline =>
      cases hs with
      | deadline hc he =>
          obtain ⟨own, fresh, hcov, hfresh, hnames, hpend⟩ := h.wait hc
          rcases hpend with ⟨hw, -⟩ | ⟨-, hset⟩
          · rw [hw] at hc
            exact absurd hc (hcare.1 rfl _ _)
          · exact kept_move (m := s.mouse) h hcov hfresh hset (hnames none) rfl s.answered

/-- In a run of careful steps, in every state: no descriptor that the
controller may still execute names a released buffer. -/
theorem buffers_owned (h : Bus.Reachable Bus.Careful s) : s.Safe :=
  (h.invariant kept_fresh fun _ _ _ hI hcare hs => kept_step hI hcare hs).safe

/-! ## Two runs -/

/-- A control transfer with a data stage that is answered in time. -/
theorem buffers_owned_control : ∃ s : Bus, s.released = [1] ∧ s.Safe := by
  have hidle : ∀ s : Bus, ∀ a, a ≠ .deadline → s.rung = none → s.Careful a := by
    intro s a ha hr
    exact ⟨fun h => absurd h ha, fun _ ep hep => by rw [hr] at hep; cases hep⟩
  have h₁ := Bus.Reachable.fresh.step (P := Bus.Careful) (hidle _ _ (by decide) rfl)
    (.begin (.command (.wire [ep0])) rfl)
  have h₂ := h₁.step (hidle _ _ (by decide) rfl) (.command rfl)
  have h₃ := h₂.step (hidle _ _ (by decide) rfl) (.execute 1 0 rfl)
  have h₄ := h₃.step (hidle _ _ (by decide) rfl) (.answer rfl rfl rfl rfl)
  have h₅ := h₄.step (hidle _ _ (by decide) rfl) (.begin (.control 1 true) rfl)
  have h₆ := h₅.step (hidle _ _ (by decide) rfl) (.alloc rfl)
  have h₇ := h₆.step ⟨fun h => absurd h (by decide), fun _ ep _ _ =>
    wire_queue [ep0] ep .disabled⟩ (.transfer rfl)
  have h₈ := h₇.step (hidle _ _ (by decide) rfl) (.complete ep0 1 0 rfl)
  have h₉ := h₈.step (hidle _ _ (by decide) rfl) (.answer rfl rfl rfl rfl)
  have h₁₀ := h₉.step (hidle _ _ (by decide) rfl) (.free rfl)
  exact ⟨_, rfl, buffers_owned h₁₀⟩

/-- A control transfer with a data stage that gives up: its buffer is dropped
with the descriptor on a ring that runs. -/
theorem dropped_buffer_on_ring : ∃ s : Bus, Bus.Reachable (fun _ _ => True) s ∧ ¬ s.Safe := by
  have h₁ := Bus.Reachable.fresh.step (P := fun _ _ => True) trivial
    (.begin (.command (.wire [ep0])) rfl)
  have h₂ := h₁.step trivial (.command rfl)
  have h₃ := h₂.step trivial (.execute 1 0 rfl)
  have h₄ := h₃.step trivial (.answer rfl rfl rfl rfl)
  have h₅ := h₄.step trivial (.begin (.control 1 true) rfl)
  have h₆ := h₅.step trivial (.alloc rfl)
  have h₇ := h₆.step trivial (.transfer rfl)
  have h₈ := h₇.step trivial (.deadline rfl rfl)
  have h₉ := h₈.step trivial (.free rfl)
  exact ⟨_, h₉, fun hsafe => hsafe ep0 rfl ⟨2, ep0, [1]⟩ List.mem_cons_self 1
    List.mem_cons_self List.mem_cons_self⟩

end Usb

end TablesOS
