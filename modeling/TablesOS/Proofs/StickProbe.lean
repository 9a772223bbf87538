import TablesOS.Kernel.UsbStartup
import TablesOS.Proofs.Interfaces
import TablesOS.Proofs.StickDriver

/-!
# Probing the sticks of a bus

The probe asks every drive the pipeline has set up, one after the other. A calm
stick tells its size and its first block, whatever the other drives on the bus
do (`probeTargets_run`). So the drive that carries the system id is found, if it
is the only one that shows it (`discoverStick_run`).
-/

namespace TablesOS

open Fallible Medium

namespace Usb

variable {devices : XhciState} {bus : Sticks} {α : Type} {n : Nat}

/-! ## Attempts -/

/-- What an attempt makes of its outcome. -/
def tried : Except String α → Except String (Option α)
  | .ok a => .ok (some a)
  | .error _ => .ok none

theorem attempt_eq (m : MscM α) : attempt m = fun w => (tried (m w).1, (m w).2) := by
  funext w
  unfold attempt
  rcases m w with ⟨_ | _, _⟩
  · rfl
  · rfl

theorem Says.attempt {m : MscM α} (hm : Says n devices m) :
    Says n devices (attempt m) := by
  have heq : TablesOS.attempt m = fun w => (tried (m w).1, (m w).2) := attempt_eq m
  rw [heq]
  exact hm.map tried

theorem onBus_attempt {m : MscM α} {r : Except String α} {bus' : Sticks} (hm : Says n devices m)
    (hn : n ≤ callTransfers) (h : MscM.onBus devices m bus = (r, bus')) :
    MscM.onBus devices (attempt m) bus = (tried r, bus') := by
  rw [MscM.onBus, attempt_eq]
  exact onSticks_map hm hn tried h

/-! ## The commands of the probe -/

/-- The end of a probe. -/
def probeRest (t : MscTarget) (inquiry : Option (Byte × List Byte)) (tag : Nat) :
    Option CapacityData → MscM (MscProbe × Nat)
  | none => pure (⟨t.slotId, isInquired inquiry, none, []⟩, tag)
  | some cap => do
      let block ← attempt (scsiRead10 ⟨t.slotIdx, t.bulkInIdx, t.bulkOutIdx⟩ 0 0 1 cap.blockSize
        (nextTag tag))
      pure (⟨t.slotId, isInquired inquiry, some cap, firstBlockOf block⟩, nextTag tag)

theorem probeTarget_eq (t : MscTarget) (tag : Nat) : probeTarget t tag =
    (attempt (scsiInquiry ⟨t.slotIdx, t.bulkInIdx, t.bulkOutIdx⟩ (nextTag tag)) >>= fun inquiry =>
      attempt (scsiTestUnitReady ⟨t.slotIdx, t.bulkInIdx, t.bulkOutIdx⟩ (nextTag (nextTag tag))) >>=
        fun _ => attempt (scsiReadCapacity10 ⟨t.slotIdx, t.bulkInIdx, t.bulkOutIdx⟩
          (nextTag (nextTag (nextTag tag)))) >>= fun capacity =>
            probeRest t inquiry (nextTag (nextTag (nextTag tag))) (capacityOf capacity)) := by
  unfold probeTarget
  refine bind_congr fun inquiry => bind_congr fun _ => bind_congr fun capacity => ?_
  cases capacityOf capacity with
  | none => rfl
  | some cap => rfl

namespace Says

theorem scsiIn {pipe : Pipe} (cb : List Byte) (length tag : Nat) :
    Says 4 devices (scsiIn pipe cb length tag) :=
  (mscCommand _ _ _ _).bind (k := 0) fun _ => pure _

theorem scsiInquiry {pipe : Pipe} (tag : Nat) :
    Says 4 devices (scsiInquiry pipe tag) := scsiIn _ _ _

theorem scsiReadCapacity10 {pipe : Pipe} (tag : Nat) :
    Says 4 devices (scsiReadCapacity10 pipe tag) := scsiIn _ _ _

theorem scsiTestUnitReady {pipe : Pipe} (tag : Nat) :
    Says 4 devices (scsiTestUnitReady pipe tag) :=
  (mscCommand _ _ _ _).bind (k := 0) fun _ => pure _

section Target

variable {t : MscTarget}

theorem probeRest (inquiry : Option (Byte × List Byte)) (tag : Nat) (cap : Option CapacityData) :
    Says 4 devices (probeRest t inquiry tag cap) := by
  cases cap with
  | none => exact pure _
  | some cap => exact ((scsiRead10 _ _ _ _ _).attempt).bind (k := 0) fun _ => pure _

theorem probeCapacity (inquiry : Option (Byte × List Byte)) (tag : Nat) : Says 8 devices
    (TablesOS.attempt (TablesOS.scsiReadCapacity10 ⟨t.slotIdx, t.bulkInIdx, t.bulkOutIdx⟩ tag) >>=
      fun capacity => Usb.probeRest t inquiry tag (capacityOf capacity)) :=
  ((scsiReadCapacity10 _).attempt).bind (k := 4) fun _ => probeRest inquiry tag _

theorem probeReady (inquiry : Option (Byte × List Byte)) (tag : Nat) : Says 12 devices
    (TablesOS.attempt (TablesOS.scsiTestUnitReady ⟨t.slotIdx, t.bulkInIdx, t.bulkOutIdx⟩ tag) >>=
      fun _ => TablesOS.attempt (TablesOS.scsiReadCapacity10
        ⟨t.slotIdx, t.bulkInIdx, t.bulkOutIdx⟩ (nextTag tag)) >>= fun capacity =>
          Usb.probeRest t inquiry (nextTag tag) (capacityOf capacity)) :=
  ((scsiTestUnitReady _).attempt).bind (k := 8) fun _ => probeCapacity inquiry _

theorem probeTarget (tag : Nat) : Says 16 devices (probeTarget t tag) := by
  rw [probeTarget_eq]
  exact ((scsiInquiry _).attempt).bind (k := 12) fun inquiry => probeReady inquiry _

end Target

theorem probeTargets : ∀ (ts : List MscTarget) (tag : Nat),
    Says (callTransfers * ts.length) devices (probeTargets ts tag)
  | [], _ => pure _
  | t :: ts, tag =>
      ((probeTarget tag).bind (k := callTransfers * ts.length) fun r =>
        (probeTargets ts r.2).bind (k := 0) fun _ => pure _).mono
          (by simp only [List.length_cons, callTransfers]; omega)

end Says

/-! ## What the probe sees of a stick -/

namespace Stick

/-- A calm stick that can say what it is and how large. -/
structure Sound (s : Stick) : Prop where
  calm : s.Calm
  inquiry : 36 ≤ s.inquiry.length
  pos : 0 < s.sectors
  small : s.sectors ≤ 2 ^ 32

/-- It is sound, or it never answers. -/
def Clear (s : Stick) : Prop := s.stage = .dead ∨ s.Sound

/-- What the probe makes of the stick. -/
def shown (s : Stick) (slotId : Byte) : MscProbe :=
  if s.stage = .dead then ⟨slotId, false, none, []⟩
  else ⟨slotId, true, some ⟨Fin.ofNat (2 ^ 32) (s.sectors - 1), 512⟩, (s.medium.view 0).toList⟩

/-- The stick holds what it held. -/
def Same (s s' : Stick) : Prop := s' = s ∨ (s.Sound ∧ s.Later s.medium.view s')

theorem Sound.alive {s : Stick} (h : s.Sound) : s.stage ≠ .dead := by
  rw [h.calm.waiting]
  simp

theorem Later.sound {V : Nat → Sector} {s s' : Stick} (h : Later s V s') (hs : s.Sound) :
    s'.Sound := by
  refine ⟨h.calm hs.calm, ?_, ?_, ?_⟩
  · rw [h.inquiry]
    exact hs.inquiry
  · rw [h.sectors]
    exact hs.pos
  · rw [h.sectors]
    exact hs.small

theorem Same.refl (s : Stick) : Same s s := .inl rfl

theorem Same.trans {s s' s'' : Stick} (h : Same s s') (h' : Same s' s'') : Same s s'' := by
  rcases h with rfl | ⟨hs, h⟩
  · exact h'
  rcases h' with rfl | ⟨-, h'⟩
  · exact .inr ⟨hs, h⟩
  · rw [h.view] at h'
    exact .inr ⟨hs, h.trans h'⟩

theorem Same.sound {s s' : Stick} (h : Same s s') (hs : s.Sound) : s'.Sound := by
  rcases h with rfl | ⟨-, h⟩
  · exact hs
  · exact h.sound hs

theorem Same.clear {s s' : Stick} (h : Same s s') (hs : s.Clear) : s'.Clear := by
  rcases h with rfl | ⟨hs, h⟩
  · exact hs
  · exact .inr (h.sound hs)

theorem Same.shown {s s' : Stick} (h : Same s s') (slotId : Byte) :
    s'.shown slotId = s.shown slotId := by
  rcases h with rfl | ⟨hs, h⟩
  · rfl
  · rw [Stick.shown, Stick.shown, if_neg (h.sound hs).alive, if_neg hs.alive, h.sectors, h.view]

theorem Same.refuses {s s' : Stick} (h : Same s s') : s'.refuses = s.refuses := by
  rcases h with rfl | ⟨-, h⟩
  · rfl
  · exact h.refuses

theorem Same.keeps {s s' : Stick} (h : Same s s') :
    s'.sectors = s.sectors ∧ s'.medium.view = s.medium.view := by
  rcases h with rfl | ⟨-, h⟩
  · exact ⟨rfl, rfl⟩
  · exact ⟨h.sectors, h.view⟩

end Stick

/-! ## The probe on a bus -/

variable {pipe : Pipe} {t : MscTarget} {bytes : List Byte} {status : Byte} {tag : Nat}

theorem nextTag_lt (tag : Nat) : nextTag tag < 2 ^ 32 := Nat.mod_lt _ (by decide)

theorem scsiIn_run (devices : XhciState) {cb : List Byte} (hne : cb ≠ [])
    (hcb : cb.length ≤ 16) (htag : tag < 2 ^ 32) (hc : (bus pipe.slotIdx).Calm)
    (hlen : bytes.length < 2 ^ 32)
    (hobey : (bus pipe.slotIdx).obey cb bytes.length tag =
      { bus pipe.slotIdx with stage := .sending bytes bytes.length tag 0 }) :
    MscM.onBus devices (scsiIn pipe cb bytes.length tag) bus =
      (.ok (0, bytes), upd bus pipe.slotIdx (bus pipe.slotIdx).over) := by
  have hrun := command_read devices 0 hne hcb htag hc.waiting hobey hc.plain hlen
  unfold scsiIn
  rw [onBus_bind_ok (.mscCommand _ _ _ _) (fun _ => .pure (n := 0) _) (by decide) hrun]
  rfl

theorem scsiInquiry_run (devices : XhciState) (pipe : Pipe) (hs : (bus pipe.slotIdx).Sound)
    (htag : tag < 2 ^ 32) :
    MscM.onBus devices (scsiInquiry pipe tag) bus =
      (.ok (0, (bus pipe.slotIdx).inquiry.take 36),
        upd bus pipe.slotIdx (bus pipe.slotIdx).over) := by
  have hlen : ((bus pipe.slotIdx).inquiry.take 36).length = 36 := by
    rw [List.length_take]
    exact Nat.min_eq_left hs.inquiry
  have hobey : (bus pipe.slotIdx).obey [0x12, 0, 0, 0, 36, 0] 36 tag =
      { bus pipe.slotIdx with
        stage := .sending ((bus pipe.slotIdx).inquiry.take 36) 36 tag 0 } := by
    simp [Stick.obey, Stick.send, List.take_take]
  have hrun := scsiIn_run devices (List.cons_ne_nil 0x12 [0, 0, 0, 36, 0]) (by decide) htag hs.calm
    (by rw [hlen]; decide) (by rw [hlen]; exact hobey)
  rw [hlen] at hrun
  exact hrun

theorem scsiTestUnitReady_run (devices : XhciState) (pipe : Pipe)
    (hc : (bus pipe.slotIdx).Calm) (htag : tag < 2 ^ 32) :
    MscM.onBus devices (scsiTestUnitReady pipe tag) bus =
      (.ok 0, upd bus pipe.slotIdx (bus pipe.slotIdx).over) := by
  have hobey : (bus pipe.slotIdx).obey [0, 0, 0, 0, 0, 0] 0 tag =
      (bus pipe.slotIdx).owe tag 0 0 := by
    simp [Stick.obey]
  have hrun := command_none devices 0 (List.cons_ne_nil 0 [0, 0, 0, 0, 0]) (by decide) htag
    hc.waiting hobey hc.plain
  unfold scsiTestUnitReady
  rw [onBus_bind_ok (.mscCommand _ _ _ _) (fun _ => .pure (n := 0) _) (by decide) hrun]
  rfl

theorem scsiReadCapacity10_run (devices : XhciState) (pipe : Pipe)
    (hc : (bus pipe.slotIdx).Calm) (htag : tag < 2 ^ 32) :
    MscM.onBus devices (scsiReadCapacity10 pipe tag) bus =
      (.ok (0, toBe 4 ((bus pipe.slotIdx).sectors - 1) ++ toBe 4 sector),
        upd bus pipe.slotIdx (bus pipe.slotIdx).over) := by
  have hlen : (toBe 4 ((bus pipe.slotIdx).sectors - 1) ++ toBe 4 sector).length = 8 := by
    simp [toBe]
  have hobey : (bus pipe.slotIdx).obey [0x25, 0, 0, 0, 0, 0, 0, 0, 0, 0] 8 tag =
      { bus pipe.slotIdx with
        stage := .sending (toBe 4 ((bus pipe.slotIdx).sectors - 1) ++ toBe 4 sector) 8 tag 0 } := by
    simp only [Stick.obey, Stick.send, List.getD_cons_zero]
    rw [if_neg (by decide), if_neg (by decide), if_pos trivial, if_neg (by decide),
      List.take_of_length_le (Nat.le_of_eq hlen)]
  have hrun := scsiIn_run devices (List.cons_ne_nil 0x25 [0, 0, 0, 0, 0, 0, 0, 0, 0]) (by decide)
    htag hc (by rw [hlen]; decide) (by rw [hlen]; exact hobey)
  rw [hlen] at hrun
  exact hrun

/-- A stick says its size so that the probe can read it. -/
theorem capacityOf_said (n : Nat) : capacityOf (some (0, toBe 4 n ++ toBe 4 sector)) =
    some ⟨Fin.ofNat (2 ^ 32) n, 512⟩ := by
  have hlast : ofBe32 (toBe 4 n ++ toBe 4 sector) = Fin.ofNat (2 ^ 32) n := by
    have htake : (toBe 4 n ++ toBe 4 sector).take 4 = toBe 4 n :=
      List.take_left' (by simp [toBe])
    rw [ofBe32, htake, toBe, List.reverse_reverse, ofLe_leBytes]
    apply Fin.ext
    simp only [Fin.val_ofNat]
    omega
  have hsize : (ofBe32 ((toBe 4 n ++ toBe 4 sector).drop 4)).val = 512 := by
    have hdrop : (toBe 4 n ++ toBe 4 sector).drop 4 = toBe 4 sector :=
      List.drop_left' (by simp [toBe])
    rw [hdrop]
    decide
  rw [capacityOf, if_pos ⟨rfl, by simp [toBe]⟩, hlast, hsize]

/-- Behind a command that moves nothing the stick is the same. -/
theorem moved_over {i : Nat} (bus : Sticks) :
    Moved bus i (bus i).medium.view (upd bus i (bus i).over) :=
  ⟨_, rfl, Stick.later_over _⟩

theorem probeTarget_sound (devices : XhciState) (hs : (bus t.slotIdx).Sound) (tag : Nat) :
    ∃ tag' bus', MscM.onBus devices (probeTarget t tag) bus =
        (.ok ((bus t.slotIdx).shown t.slotId, tag'), bus') ∧
      Moved bus t.slotIdx (bus t.slotIdx).medium.view bus' := by
  have hinquired : isInquired (some (0, (bus t.slotIdx).inquiry.take 36)) = true := by
    simp [isInquired, hs.inquiry]
  -- The bus behind each of the four commands.
  have h₁ := onBus_attempt (.scsiInquiry _) (by decide) (scsiInquiry_run
    devices ⟨t.slotIdx, t.bulkInIdx, t.bulkOutIdx⟩ hs (nextTag_lt tag))
  have hm₁ := moved_over (i := t.slotIdx) bus
  generalize upd bus t.slotIdx (bus t.slotIdx).over = bus₁ at h₁ hm₁
  have hs₁ := hm₁.later.sound hs
  have h₂ := onBus_attempt (.scsiTestUnitReady _) (by decide) (scsiTestUnitReady_run
    devices ⟨t.slotIdx, t.bulkInIdx, t.bulkOutIdx⟩ hs₁.calm
    (nextTag_lt (nextTag tag)))
  have hm₂ := moved_over (i := t.slotIdx) bus₁
  generalize upd bus₁ t.slotIdx (bus₁ t.slotIdx).over = bus₂ at h₂ hm₂
  have hs₂ := hm₂.later.sound hs₁
  have h₃ := onBus_attempt (.scsiReadCapacity10 _) (by decide) (scsiReadCapacity10_run
    devices ⟨t.slotIdx, t.bulkInIdx, t.bulkOutIdx⟩ hs₂.calm
    (nextTag_lt (nextTag (nextTag tag))))
  have hm₃ := moved_over (i := t.slotIdx) bus₂
  generalize upd bus₂ t.slotIdx (bus₂ t.slotIdx).over = bus₃ at h₃ hm₃
  have hs₃ := hm₃.later.sound hs₂
  have hread : MscM.onBus devices (scsiRead10 ⟨t.slotIdx, t.bulkInIdx, t.bulkOutIdx⟩ 0 0 1 512
      (nextTag (nextTag (nextTag (nextTag tag))))) bus₃ = _ :=
    scsiRead10_run 0 hs₃.calm (nextTag_lt _) (by decide) Nat.zero_lt_one (by decide) hs₃.pos
  have h₄ := onBus_attempt (.scsiRead10 _ _ _ _ _) (by decide) hread
  have hm₄ := moved_over (i := t.slotIdx) bus₃
  generalize upd bus₃ t.slotIdx (bus₃ t.slotIdx).over = bus₄ at h₄ hm₄
  have hm := ((hm₁.trans hm₂).trans hm₃).trans hm₄
  have hview : (bus₃ t.slotIdx).medium.view = (bus t.slotIdx).medium.view := by
    rw [hm₃.later.view, hm₂.later.view, hm₁.later.view]
  have hsectors : (bus₂ t.slotIdx).sectors = (bus t.slotIdx).sectors := by
    rw [hm₂.later.sectors, hm₁.later.sectors]
  rw [hview] at hm
  refine ⟨nextTag (nextTag (nextTag (nextTag tag))), bus₄, ?_, hm⟩
  rw [probeTarget_eq, onBus_bind_ok ((Says.scsiInquiry _).attempt)
      (fun inquiry => Says.probeReady (t := t) inquiry _) (by decide) h₁,
    onBus_bind_ok ((Says.scsiTestUnitReady _).attempt)
      (fun _ => Says.probeCapacity (t := t) _ _) (by decide) h₂,
    onBus_bind_ok ((Says.scsiReadCapacity10 _).attempt)
      (fun _ => Says.probeRest (t := t) _ _ _) (by decide) h₃, capacityOf_said, probeRest,
    onBus_bind_ok ((Says.scsiRead10 _ _ _ _ _).attempt) (fun _ => .pure (n := 0) _)
      (by decide) h₄]
  rw [Stick.shown, if_neg hs.alive, onBus_pure, hinquired, blocksAt_one, hview, hsectors]
  rfl

/-! A stick that never answers. -/

theorem mscCommand_dead (devices : XhciState) (pipe : Pipe)
    (h : (bus pipe.slotIdx).stage = .dead) (lun : Byte) (cb : List Byte) (data : DataStage)
    (tag : Nat) :
    ∃ e, MscM.onBus devices (mscCommand pipe lun cb data tag) bus = (.error e, bus) := by
  have hout : MscM.onBus devices (transfer (.out pipe.slotIdx (cbw tag data lun cb))) bus = _ :=
    onBus_transfer (q := .out pipe.slotIdx (cbw tag data lun cb)) fun _ => rfl
  have hsame : upd bus pipe.slotIdx (bus pipe.slotIdx) = bus := upd_same _ _
  have htakes : (bus pipe.slotIdx).takes (cbw tag data lun cb) = (.timeout, bus pipe.slotIdx) := by
    rw [Stick.takes, h]
  simp only [Sticks.answer, htakes, hsame] at hout
  have hfirst : MscM.onBus devices (bulkOut pipe (cbw tag data lun cb)) bus =
      (.error "event-ring deadline elapsed", bus) :=
    onBus_bind_error (.transfer fun _ => rfl) (fun _ => .pure (n := 0) _) (by decide) hout
  unfold mscCommand
  split
  · exact ⟨_, onBus_throw _⟩
  · exact ⟨_, onBus_bind_error (.bulkOut _) (Says.commandRest data tag)
      (by decide) hfirst⟩

theorem probeTarget_dead (devices : XhciState) (h : (bus t.slotIdx).stage = .dead) (tag : Nat) :
    ∃ tag', MscM.onBus devices (probeTarget t tag) bus =
      (.ok ((bus t.slotIdx).shown t.slotId, tag'), bus) := by
  have hin : ∀ cb length tag, MscM.onBus devices
      (attempt (scsiIn ⟨t.slotIdx, t.bulkInIdx, t.bulkOutIdx⟩ cb length tag)) bus =
        (.ok none, bus) := by
    intro cb length tag
    obtain ⟨e, he⟩ := mscCommand_dead devices
      ⟨t.slotIdx, t.bulkInIdx, t.bulkOutIdx⟩ h 0 cb (.read length) tag
    exact onBus_attempt (.scsiIn _ _ _) (by decide)
      (onBus_bind_error (.mscCommand _ _ _ _) (fun _ => .pure (n := 0) _) (by decide) he)
  have hready : ∀ tag, MscM.onBus devices
      (attempt (scsiTestUnitReady ⟨t.slotIdx, t.bulkInIdx, t.bulkOutIdx⟩ tag)) bus =
        (.ok none, bus) := by
    intro tag
    obtain ⟨e, he⟩ := mscCommand_dead devices
      ⟨t.slotIdx, t.bulkInIdx, t.bulkOutIdx⟩ h 0 [0, 0, 0, 0, 0, 0] .none tag
    exact onBus_attempt (.scsiTestUnitReady _) (by decide)
      (onBus_bind_error (.mscCommand _ _ _ _) (fun _ => .pure (n := 0) _) (by decide) he)
  refine ⟨nextTag (nextTag (nextTag tag)), ?_⟩
  rw [probeTarget_eq, onBus_bind_ok ((Says.scsiInquiry _).attempt)
      (fun inquiry => Says.probeReady (t := t) inquiry _) (by decide) (hin _ _ _),
    onBus_bind_ok ((Says.scsiTestUnitReady _).attempt)
      (fun _ => Says.probeCapacity (t := t) _ _) (by decide) (hready _),
    onBus_bind_ok ((Says.scsiReadCapacity10 _).attempt)
      (fun _ => Says.probeRest (t := t) _ _ _) (by decide) (hin _ _ _)]
  rw [Stick.shown, if_pos h]
  rfl

theorem probeTarget_run (devices : XhciState) (h : (bus t.slotIdx).Clear) (tag : Nat) :
    ∃ tag' bus', MscM.onBus devices (probeTarget t tag) bus =
        (.ok ((bus t.slotIdx).shown t.slotId, tag'), bus') ∧
      ∀ i, (bus i).Same (bus' i) := by
  rcases h with hdead | hs
  · obtain ⟨tag', hrun⟩ := probeTarget_dead devices hdead tag
    exact ⟨tag', bus, hrun, fun i => .refl _⟩
  · obtain ⟨tag', bus', hrun, s, rfl, hlater⟩ := probeTarget_sound devices hs tag
    refine ⟨tag', _, hrun, fun i => ?_⟩
    by_cases hi : i = t.slotIdx
    · rw [hi, upd_self]
      exact .inr ⟨hs, hlater⟩
    · rw [upd_other hi]
      exact .refl _

/-- The probe records what each stick shows, and leaves it as it is. -/
theorem probeTargets_run (devices : XhciState) (N : Nat) :
    ∀ (ts : List MscTarget) (bus : Sticks) (tag : Nat),
    callTransfers * ts.length ≤ N → (∀ t ∈ ts, (bus t.slotIdx).Clear) →
    ∃ bus', onSticksFor N devices (probeTargets ts tag) bus =
        (.ok (ts.map fun t => (bus t.slotIdx).shown t.slotId), bus') ∧
      ∀ i, (bus i).Same (bus' i)
  | [], bus, _, _, _ => ⟨bus, onSticksFor_enough (.pure (n := 0) _) (by decide) (Nat.zero_le _),
      fun _ => .refl _⟩
  | t :: ts, bus, tag, hN, hclear => by
      obtain ⟨tag', bus₁, hrun, hsame⟩ := probeTarget_run devices (hclear t List.mem_cons_self) tag
      have hN' : 16 * ts.length + 16 ≤ N := hN
      obtain ⟨bus₂, hrest, hsame'⟩ := probeTargets_run devices N ts bus₁ tag'
        (show 16 * ts.length ≤ N by omega) fun t' ht' =>
        (hsame _).clear (hclear t' (List.mem_cons_of_mem _ ht'))
      refine ⟨bus₂, ?_, fun i => (hsame i).trans (hsame' i)⟩
      have hfirst : onSticksFor N devices (probeTarget t tag) bus =
          (.ok ((bus t.slotIdx).shown t.slotId, tag'), bus₁) :=
        (onSticksFor_enough (.probeTarget tag) (by decide) (by omega)).trans hrun
      have hmap : ts.map (fun t => (bus₁ t.slotIdx).shown t.slotId) =
          ts.map fun t => (bus t.slotIdx).shown t.slotId :=
        List.map_congr_left fun t _ => (hsame t.slotIdx).shown t.slotId
      rw [hmap] at hrest
      unfold probeTargets
      rw [onSticksFor_bind_ok (.probeTarget tag)
          (fun r => (Says.probeTargets ts r.2).bind (k := 0) fun _ => .pure _)
          (show 16 + 16 * ts.length ≤ N by omega) hfirst,
        onSticksFor_bind_ok (.probeTargets ts tag') (fun _ => .pure (n := 0) _)
          (show 16 * ts.length ≤ N by omega) hrest]
      exact onSticksFor_enough (.pure (n := 0) _) (by decide) (Nat.zero_le _)

theorem probeSticks_run (devices : XhciState) (bus : Sticks)
    (hclear : ∀ t ∈ mscTargets devices, (bus t.slotIdx).Clear) :
    ∃ bus', probeSticks devices bus =
        ((mscTargets devices).map fun t => (bus t.slotIdx).shown t.slotId, bus') ∧
      ∀ i, (bus i).Same (bus' i) := by
  by_cases hnone : devices.addressed = []
  · have hts : mscTargets devices = [] := by simp [mscTargets, hnone]
    refine ⟨bus, ?_, fun i => .refl _⟩
    have hrun : onSticksFor (callTransfers * (mscTargets devices).length) devices probeDrives bus =
        onSticksFor (callTransfers * (mscTargets devices).length) devices
          (Fallible.throw "address + configure devices first ([a] [c] [g])" :
            MscM (List MscProbe)) bus := by
      simp only [onSticksFor, probeDrives, hnone, if_true, Fallible.throw]
    rw [probeSticks, hrun, onSticksFor_enough (.throw (n := 0) _) (by decide) (Nat.zero_le _), hts]
    rfl
  · obtain ⟨bus', hrun, hsame⟩ := probeTargets_run devices _ (mscTargets devices) bus
      0xABCD0000 (Nat.le_refl _) hclear
    refine ⟨bus', ?_, hsame⟩
    have heq : onSticksFor (callTransfers * (mscTargets devices).length) devices probeDrives bus =
        onSticksFor (callTransfers * (mscTargets devices).length) devices
          (probeTargets (mscTargets devices) 0xABCD0000) bus := by
      simp only [onSticksFor, probeDrives, hnone, if_false]
    rw [probeSticks, heq, hrun]

/-! ## Discovery -/

theorem mem_mscTargets (h : t ∈ mscTargets devices) :
    resolved devices t.slotId = .ok ⟨t.slotIdx, t.bulkInIdx, t.bulkOutIdx⟩ := by
  obtain ⟨c, -, ht⟩ := List.mem_filterMap.mp h
  cases hr : mscResolveBulk devices c.1 with
  | error e => simp [hr] at ht
  | ok r =>
      simp only [hr, Option.some.injEq] at ht
      subst ht
      rw [resolved, hr]
      rfl

/-- A slot index belongs to one slot id. -/
theorem slotId_of_resolved {slotId : Byte} (h : resolved devices slotId = .ok pipe) :
    ∃ r, devices.slots[pipe.slotIdx]? = some r ∧ r.slotId = slotId := by
  cases hi : devices.slotIndex slotId with
  | none => simp [resolved, mscResolveBulk, hi, Except.map] at h
  | some i =>
      have hpipe : pipe.slotIdx = i := by
        unfold resolved mscResolveBulk at h
        rw [hi] at h
        dsimp only at h
        split at h
        · cases h
        · split at h
          · cases h
          · cases h
            rfl
      rw [hpipe]
      exact slotIndex_lt hi

/-- The stick at `i` is the only one that shows the system id, and the others do
not keep the driver from finding it. -/
structure Sticks.Lone (bus : Sticks) (guid : List Byte) (i : Nat) : Prop where
  sound : (bus i).Sound
  booted : isBooted guid ((bus i).medium.view 0).toList = true
  others : ∀ j, j ≠ i → (bus j).stage = .dead ∨
    ((bus j).Sound ∧ isBooted guid ((bus j).medium.view 0).toList = false)

theorem slotId_shown (s : Stick) (slotId : Byte) : (s.shown slotId).slotId = slotId := by
  unfold Stick.shown
  split
  · rfl
  · rfl

theorem firstBlock_shown {s : Stick} (h : s.stage ≠ .dead) (slotId : Byte) :
    (s.shown slotId).firstBlock = (s.medium.view 0).toList := by
  rw [Stick.shown, if_neg h]

theorem find?_shown (ht : t ∈ mscTargets devices) :
    ((mscTargets devices).map fun t => (bus t.slotIdx).shown t.slotId).find?
      (·.slotId == t.slotId) = some ((bus t.slotIdx).shown t.slotId) := by
  have hmem : ((bus t.slotIdx).shown t.slotId) ∈
      (mscTargets devices).map fun t => (bus t.slotIdx).shown t.slotId := List.mem_map_of_mem ht
  cases hf : ((mscTargets devices).map fun t => (bus t.slotIdx).shown t.slotId).find?
      (·.slotId == t.slotId) with
  | none =>
      have hno := List.find?_eq_none.mp hf _ hmem
      rw [slotId_shown] at hno
      exact absurd (beq_self_eq_true _) hno
  | some p =>
      -- One slot id, one slot index.
      obtain ⟨t', ht', rfl⟩ := List.mem_map.mp (List.mem_of_find?_eq_some hf)
      have hid : t'.slotId = t.slotId := by
        have hid := List.find?_some hf
        rwa [slotId_shown, beq_iff_eq] at hid
      have hresolved := mem_mscTargets ht'
      rw [hid, mem_mscTargets ht] at hresolved
      have hidx : t.slotIdx = t'.slotIdx := congrArg Pipe.slotIdx (Except.ok.inj hresolved)
      rw [hid, hidx]

/-- A sound stick is opened with the size that it has. -/
theorem open_shown (ht : t ∈ mscTargets devices) (hs : (bus t.slotIdx).Sound) :
    UsbMscDevice.open ((mscTargets devices).map fun t => (bus t.slotIdx).shown t.slotId) t.slotId =
      .ok ⟨t.slotId, (bus t.slotIdx).sectors, 512, 0xCAFE0000, none, false⟩ := by
  have hpos := hs.pos
  have hsmall := hs.small
  have hcap : ((bus t.slotIdx).shown t.slotId).capacity =
      some ⟨Fin.ofNat (2 ^ 32) ((bus t.slotIdx).sectors - 1), 512⟩ := by
    rw [Stick.shown, if_neg hs.alive]
  have htotal : CapacityData.totalBlocks ⟨Fin.ofNat (2 ^ 32) ((bus t.slotIdx).sectors - 1), 512⟩ =
      (bus t.slotIdx).sectors := by
    simp only [CapacityData.totalBlocks, Fin.val_ofNat]
    omega
  unfold UsbMscDevice.open
  simp only [find?_shown ht, hcap, htotal]
  rfl

theorem findSome?_eq_of_forall {α β : Type} {f : α → Option β} {l : List α} {x : α} {y : β}
    (hx : x ∈ l) (hf : f x = some y) (h : ∀ x' ∈ l, ∀ y', f x' = some y' → y' = y) :
    l.findSome? f = some y := by
  cases hl : l.findSome? f with
  | none => exact absurd (List.findSome?_eq_none_iff.mp hl x hx) (by simp [hf])
  | some y' =>
      obtain ⟨x', hx', hy'⟩ := List.exists_of_findSome?_eq_some hl
      rw [h x' hx' y' hy']

namespace Sticks.Lone

variable {guid : List Byte} {dataLba : Nat} (h : bus.Lone guid t.slotIdx)

include h

theorem clear (i : Nat) : (bus i).Clear := by
  by_cases hi : i = t.slotIdx
  · rw [hi]
    exact .inr h.sound
  · exact (h.others i hi).imp id fun hs => hs.1

/-- A stick that shows the system id is the one. -/
theorem eq_of_booted {i : Nat} {slotId : Byte}
    (hb : isBooted guid ((bus i).shown slotId).firstBlock = true) : i = t.slotIdx := by
  by_contra hi
  rcases h.others i hi with hdead | ⟨hs, hother⟩
  · rw [Stick.shown, if_pos hdead] at hb
    simp [isBooted] at hb
  · rw [firstBlock_shown hs.alive, hother] at hb
    cases hb

variable (ht : t ∈ mscTargets devices)

include ht

/-- The device that is opened for the slot of the stick. -/
theorem open_run : UsbMscDevice.openWithIdentityGate
      ((mscTargets devices).map fun t => (bus t.slotIdx).shown t.slotId) t.slotId guid =
    .ok ⟨t.slotId, (bus t.slotIdx).sectors, 512, 0xCAFE0000, some guid, false⟩ := by
  unfold UsbMscDevice.openWithIdentityGate
  rw [open_shown ht h.sound]

theorem discover_run (hfit : dataLba < (bus t.slotIdx).sectors) : discoverBootDisk
      ((mscTargets devices).map fun t => (bus t.slotIdx).shown t.slotId) dataLba guid =
    some ⟨⟨t.slotId, (bus t.slotIdx).sectors, 512, 0xCAFE0000, some guid, false⟩, dataLba,
      (bus t.slotIdx).sectors - dataLba⟩ := by
  have hopen := h.open_run ht
  have hshown : (bus t.slotIdx).shown t.slotId = ⟨t.slotId, true,
      some ⟨Fin.ofNat (2 ^ 32) ((bus t.slotIdx).sectors - 1), 512⟩,
      ((bus t.slotIdx).medium.view 0).toList⟩ := by
    rw [Stick.shown, if_neg h.sound.alive]
  unfold discoverBootDisk
  refine findSome?_eq_of_forall (x := (t.slotId, true)) ?_ ?_ ?_
  · refine List.mem_filterMap.mpr ⟨_, List.mem_map_of_mem ht, ?_⟩
    simp only [hshown, h.booted, Bool.true_and, Option.isSome_some, if_true]
  · simp only [Bool.not_true, Bool.false_eq_true, if_false, hopen]
    rw [if_neg (by omega)]
  · rintro ⟨slotId, booted⟩ hmem disk hdisk
    obtain ⟨p, hp, hentry⟩ := List.mem_filterMap.mp hmem
    obtain ⟨t', ht', rfl⟩ := List.mem_map.mp hp
    split at hentry
    · cases hentry
      cases hb : isBooted guid ((bus t'.slotIdx).shown t'.slotId).firstBlock with
      | false => simp [hb] at hdisk
      | true =>
          -- It is the same slot, so the same device.
          have hidx := h.eq_of_booted hb
          obtain ⟨r, hr, hid⟩ := slotId_of_resolved (mem_mscTargets ht)
          obtain ⟨r', hr', hid'⟩ := slotId_of_resolved (mem_mscTargets ht')
          simp only [hidx, hr, Option.some.injEq] at hr'
          rw [hb, slotId_shown, ← hid', ← hr', hid] at hdisk
          simp only [Bool.not_true, Bool.false_eq_true, if_false, hopen] at hdisk
          rw [if_neg (by omega)] at hdisk
          exact (Option.some.inj hdisk).symm
    · cases hentry

end Sticks.Lone

end Usb

end TablesOS
