import TablesOS.Proofs.Devices
import TablesOS.Proofs.StickCommands

/-!
# The driver over a stick that works

The sector calls on a calm stick, up through the device with its identity gate
to the volume behind the boot region. The gate reads the first sector before
each write; what is written lies behind it, so the gate stays open
(`plugged_stands`), and a store on the stick answers as the model does.
-/

namespace TablesOS

open Fallible Medium

namespace Usb

variable {devices : XhciState} {bus : Sticks} {pipe : Pipe} {slotId : Byte} {lba tag : Nat}

/-! ## Sectors -/

/-- The bus, later, with another stick at `i`. -/
def Moved (bus : Sticks) (i : Nat) (V : Nat → Sector) (bus' : Sticks) : Prop :=
  ∃ s, bus' = upd bus i s ∧ (bus i).Later V s

theorem Moved.refl {i : Nat} {bus : Sticks} (h : (bus i).stage = .waiting) :
    Moved bus i (bus i).medium.view bus :=
  ⟨bus i, (upd_same bus i).symm, rfl, rfl, rfl, rfl, h, rfl⟩

theorem Moved.later {i : Nat} {V : Nat → Sector} {bus bus' : Sticks} (h : Moved bus i V bus') :
    (bus i).Later V (bus' i) := by
  obtain ⟨s, rfl, hs⟩ := h
  rwa [upd_self]

theorem Moved.trans {i : Nat} {V W : Nat → Sector} {bus bus' bus'' : Sticks}
    (h : Moved bus i V bus') (h' : Moved bus' i W bus'') : Moved bus i W bus'' := by
  obtain ⟨s, rfl, hs⟩ := h
  obtain ⟨s', rfl, hs'⟩ := h'
  rw [upd_self] at hs'
  exact ⟨s', upd_upd _ _ _ _, hs.trans hs'⟩

theorem mscReadSector_served (hpipe : resolved devices slotId = .ok pipe)
    (hc : (bus pipe.slotIdx).Calm) (htag : tag < 2 ^ 32) (hlba : lba < 2 ^ 32)
    (hfit : lba < (bus pipe.slotIdx).sectors) :
    ∃ bus', MscM.onBus devices (mscReadSector slotId lba sector tag) bus =
        (.ok ((bus pipe.slotIdx).medium.view lba).toList, bus') ∧
      Moved bus pipe.slotIdx (bus pipe.slotIdx).medium.view bus' := by
  refine ⟨_, ?_, _, rfl, Stick.later_over _⟩
  have hrun : MscM.onBus devices (scsiRead10 pipe 0 lba 1 sector tag) bus = _ :=
    scsiRead10_run 0 hc htag hlba Nat.zero_lt_one (by decide) (show lba + 1 ≤ _ from hfit)
  rw [blocksAt_one] at hrun
  unfold mscReadSector
  refine (onBus_resolve (Says.readThrough lba sector tag) (by decide) hpipe).trans ?_
  rw [onBus_bind_ok (.scsiRead10 _ _ _ _ _) (Says.readRest sector) (by decide) hrun]
  simp only [ne_eq, not_true_eq_false, if_false, length_sector_toList, Nat.lt_irrefl]
  rw [onBus_pure, List.take_of_length_le (Nat.le_of_eq (length_sector_toList _))]

theorem writeAttempt_served {data : List Byte} {r : Except String Byte} {bus' : Sticks}
    (h : MscM.onBus devices (scsiWrite10 pipe 0 lba 1 sector data tag) bus = (r, bus')) :
    MscM.onBus devices (writeAttempt pipe lba data tag) bus = (attempted r, bus') := by
  rw [MscM.onBus, writeAttempt_eq]
  exact onSticks_map (Says.scsiWrite10 0 lba 1 sector data tag) (by decide) attempted h

/-- A write reaches the stick, at the second attempt if not at the first. -/
theorem mscWriteSector_served (hpipe : resolved devices slotId = .ok pipe)
    (hc : (bus pipe.slotIdx).Calm) (htag : tag < 2 ^ 32) (hlba : lba < 2 ^ 32)
    (hfit : lba < (bus pipe.slotIdx).sectors) (x : Sector) :
    ∃ bus', MscM.onBus devices (mscWriteSector slotId lba x.toList tag) bus = (.ok (), bus') ∧
      Moved bus pipe.slotIdx (upd (bus pipe.slotIdx).medium.view lba x) bus' := by
  have hdata : x.toList.length = 1 * sector := length_sector_toList x
  -- An attempt that is not refused.
  have htaken : ∀ bus : Sticks, (bus pipe.slotIdx).Calm → lba < (bus pipe.slotIdx).sectors →
      (bus pipe.slotIdx).refuses (bus pipe.slotIdx).steps = none →
      ∃ bus', MscM.onBus devices (writeAttempt pipe lba x.toList tag) bus = (.ok (.ok ()), bus') ∧
        Moved bus pipe.slotIdx (upd (bus pipe.slotIdx).medium.view lba x) bus' := by
    intro bus hc hfit hr
    have hrun : MscM.onBus devices (scsiWrite10 pipe 0 lba 1 sector x.toList tag) bus = _ :=
      scsiWrite10_run 0 hc htag hlba (by decide) (show lba + 1 ≤ _ from hfit) hdata hr
    refine ⟨_, writeAttempt_served hrun, _, rfl, rfl, rfl, rfl, rfl, rfl, ?_⟩
    rw [Stick.blockWrites_one]
    exact Medium.view_write _ _ _
  rw [mscWriteSector_eq]
  cases hr : (bus pipe.slotIdx).refuses (bus pipe.slotIdx).steps with
  | none =>
      obtain ⟨bus', hrun, hmoved⟩ := htaken bus hc hfit hr
      refine ⟨bus', (onBus_resolve (Says.writeThrough lba _ tag) (by decide) hpipe).trans ?_,
        hmoved⟩
      rw [onBus_bind_ok (.writeAttempt lba _ tag) (Says.retried pipe lba _ tag)
        (by decide) hrun]
      rfl
  | some cc =>
      have hrefused : MscM.onBus devices (scsiWrite10 pipe 0 lba 1 sector x.toList tag) bus = _ :=
        scsiWrite10_refused 0 hc htag hlba (by decide) hdata hr
      have hlater := Stick.later_over (bus pipe.slotIdx)
      have hnext : (bus pipe.slotIdx).refuses ((bus pipe.slotIdx).steps + 1) = none :=
        hc.patient _ (by rw [hr]; simp)
      obtain ⟨bus', hrun, hmoved⟩ := htaken (upd bus pipe.slotIdx (bus pipe.slotIdx).over)
        (by rw [upd_self]; exact hlater.calm hc) (by rwa [upd_self]) (by rwa [upd_self])
      rw [upd_self] at hmoved
      refine ⟨bus', (onBus_resolve (Says.writeThrough lba _ tag) (by decide) hpipe).trans ?_,
        Moved.trans ⟨_, rfl, hlater⟩ hmoved⟩
      have hfirst : MscM.onBus devices (writeAttempt pipe lba x.toList tag) bus =
          (.ok (.error "WRITE(10) CSW status != 0"),
            upd bus pipe.slotIdx (bus pipe.slotIdx).over) := writeAttempt_served hrefused
      rw [onBus_bind_ok (.writeAttempt lba _ tag) (Says.retried pipe lba _ tag)
          (by decide) hfirst,
        retried_error, onBus_bind_ok (.writeAttempt lba _ tag)
          (fun r => Says.liftExcept (n := 0) r) (by decide) hrun]
      rfl

/-- Whether the stick synchronizes or not, it holds what it held. -/
theorem mscSyncCache_run (hpipe : resolved devices slotId = .ok pipe)
    (hc : (bus pipe.slotIdx).Calm) (htag : tag < 2 ^ 32) :
    Moved bus pipe.slotIdx (bus pipe.slotIdx).medium.view
      (MscM.onBus devices (mscSyncCache slotId tag) bus).2 := by
  have hend : ∀ (status : Byte) (s : Stick), (bus pipe.slotIdx).Later (bus pipe.slotIdx).medium.view
        s.over → s.Plain →
      (bus pipe.slotIdx).obey [0x35, 0, 0, 0, 0, 0, 0, 0, 0, 0] 0 tag = s.owe tag 0 status →
      Moved bus pipe.slotIdx (bus pipe.slotIdx).medium.view
        (MscM.onBus devices (mscSyncCache slotId tag) bus).2 := by
    intro status s hlater hplain hobey
    have hrun := command_none devices 0 (by simp) (by simp) htag hc.waiting hobey hplain
    refine ⟨s.over, ?_, hlater⟩
    unfold mscSyncCache
    refine (congrArg Prod.snd
      (onBus_resolve (Says.syncThrough tag) (by decide) hpipe)).trans ?_
    rw [onBus_bind_ok (.mscCommand _ _ _ _) (fun r => Says.unlessFailed r.1.scsiStatus _)
      (by decide) hrun]
    split
    · rfl
    · rfl
  cases hr : (bus pipe.slotIdx).refuses (bus pipe.slotIdx).steps with
  | none =>
      exact hend 0 { bus pipe.slotIdx with medium := (bus pipe.slotIdx).medium.flush }
        ⟨rfl, rfl, rfl, rfl, rfl, rfl⟩ hc.plain (by simp [Stick.obey, hr])
  | some cc =>
      exact hend 1 (bus pipe.slotIdx) (Stick.later_over _) hc.plain (by simp [Stick.obey, hr])

/-! ## The device -/

variable {dev : UsbMscDevice}

theorem deviceTag_lt (dev : UsbMscDevice) : dev.bumpTag.nextTag < 2 ^ 32 :=
  Nat.mod_lt _ (Nat.two_pow_pos 32)

theorem onBus_reported {α : Type} {n : Nat} {m : UsbMscDevice → MscM α} {r : Except String α}
    {bus' : Sticks} (hm : Says n devices (m dev.bumpTag)) (hn : n ≤ callTransfers)
    (h : MscM.onBus devices (m dev.bumpTag) bus = (r, bus')) :
    onSticks devices (DeviceM.onWire (UsbMscDevice.onBus m) dev) bus =
      (reported dev.bumpTag r, bus') := by
  rw [onWire_onBus]
  exact onSticks_map hm hn (reported dev.bumpTag) h

/-- The device behind some commands. -/
def UsbMscDevice.tagged (dev : UsbMscDevice) (t : Nat) : UsbMscDevice := { dev with nextTag := t }

/-- The device is there, and lets what it is asked for through. -/
structure InReach (devices : XhciState) (pipe : Pipe) (dev : UsbMscDevice) (bus : Sticks) :
    Prop where
  resolves : resolved devices dev.slotId = .ok pipe
  calm : (bus pipe.slotIdx).Calm
  sectors : dev.sectors = (bus pipe.slotIdx).sectors
  small : dev.sectors ≤ 2 ^ 32
  sound : dev.poisoned = false

theorem InReach.next (h : InReach devices pipe dev bus) {V : Nat → Sector} {bus' : Sticks}
    (hm : Moved bus pipe.slotIdx V bus') (t : Nat) :
    InReach devices pipe (dev.tagged t) bus' :=
  ⟨h.resolves, hm.later.calm h.calm, h.sectors.trans hm.later.sectors.symm, h.small, h.sound⟩

theorem readSector_run (h : InReach devices pipe dev bus) (hlba : lba < dev.sectors) :
    ∃ bus', (UsbMscDevice.readSector lba sector).onBus devices dev bus =
        ((.ok ((bus pipe.slotIdx).medium.view lba).toList, dev.bumpTag), bus') ∧
      Moved bus pipe.slotIdx (bus pipe.slotIdx).medium.view bus' := by
  have hsmall := h.small
  have hresolves : resolved devices dev.bumpTag.slotId = .ok pipe := h.resolves
  obtain ⟨bus', hrun, hmoved⟩ := mscReadSector_served hresolves h.calm (deviceTag_lt dev)
    (show lba < 2 ^ 32 by omega) (by rw [← h.sectors]; exact hlba)
  refine ⟨bus', ?_, hmoved⟩
  rw [DeviceM.onBus, onWire_readSector, if_neg (by simp [h.sound, hlba]), if_neg (by omega)]
  exact onBus_reported (m := fun d => mscReadSector d.slotId lba sector d.nextTag)
    (.mscReadSector _ _ _ _) (by decide) hrun

/-- The identity gate lets a write through when the first sector has the system id. -/
theorem verifyIdentity_run (h : InReach devices pipe dev bus) (hpos : 0 < dev.sectors)
    (hgate : ∀ guid, dev.identityGate = some guid →
      guidOf ((bus pipe.slotIdx).medium.view 0).toList = guid) :
    ∃ t bus', UsbMscDevice.verifyIdentity.onBus devices dev bus =
        ((.ok (), (dev.tagged t)), bus') ∧
      Moved bus pipe.slotIdx (bus pipe.slotIdx).medium.view bus' := by
  cases hg : dev.identityGate with
  | none =>
      refine ⟨dev.nextTag, bus, ?_, .refl h.calm.waiting⟩
      rw [DeviceM.onBus, onWire_verify_none hg]
      rfl
  | some guid =>
      obtain ⟨bus', hrun, hmoved⟩ := mscReadSector_served h.resolves h.calm (deviceTag_lt dev)
        (show 0 < 2 ^ 32 by decide) (by rw [← h.sectors]; exact hpos)
      refine ⟨dev.bumpTag.nextTag, bus', ?_, hmoved⟩
      have hmap := onSticks_map (.mscReadSector _ _ _ _) (by decide) (identified dev.bumpTag guid)
        hrun
      rw [DeviceM.onBus, onWire_verify_some hg, if_neg (by simp [h.sound])]
      refine hmap.trans ?_
      rw [identified, if_pos (hgate guid hg)]
      rfl

theorem writeSector_run (h : InReach devices pipe dev bus) (hlba : lba < dev.sectors)
    (hgate : ∀ guid, dev.identityGate = some guid →
      guidOf ((bus pipe.slotIdx).medium.view 0).toList = guid) (x : Sector) :
    ∃ t bus', (UsbMscDevice.writeSector lba x.toList).onBus devices dev bus =
        ((.ok (), (dev.tagged t)), bus') ∧
      Moved bus pipe.slotIdx (upd (bus pipe.slotIdx).medium.view lba x) bus' := by
  have hsmall := h.small
  obtain ⟨t, bus₁, hverify, hmoved₁⟩ := verifyIdentity_run h (by omega) hgate
  have h₁ := h.next hmoved₁ t
  have hresolves : resolved devices (dev.tagged t).bumpTag.slotId = .ok pipe := h.resolves
  obtain ⟨bus₂, hrun, hmoved₂⟩ := mscWriteSector_served hresolves h₁.calm
    (deviceTag_lt (dev.tagged t)) (show lba < 2 ^ 32 by omega)
    (by rw [← h₁.sectors]; exact hlba) x
  rw [hmoved₁.later.view] at hmoved₂
  refine ⟨(dev.tagged t).bumpTag.nextTag, bus₂, ?_, hmoved₁.trans hmoved₂⟩
  have hlen : x.toList.length = sector := length_sector_toList x
  rw [DeviceM.onBus, onWire_writeSector, if_neg (by simp [h.sound, hlba, hlen]),
    if_neg (by omega), onSticks_andThen (.verifyIdentity dev) (Says.checkedWrite lba x.toList)
      (by decide), show onSticks devices _ bus = _ from hverify]
  exact onBus_reported (m := fun d => mscWriteSector d.slotId lba x.toList d.nextTag)
    (.mscWriteSector _ _ _ _) (by decide) hrun

theorem flush_run (h : InReach devices pipe dev bus) :
    ∃ bus', UsbMscDevice.flush.onBus devices dev bus = ((.ok (), dev.bumpTag), bus') ∧
      Moved bus pipe.slotIdx (bus pipe.slotIdx).medium.view bus' := by
  have hmoved := mscSyncCache_run h.resolves h.calm (deviceTag_lt dev)
  refine ⟨_, ?_, hmoved⟩
  rw [DeviceM.onBus, onWire_flush, if_neg (by simp [h.sound])]
  exact onSticks_map (.mscSyncCache _ _) (by decide) (fun _ => (Except.ok (), dev.bumpTag)) rfl

/-! ## The volume -/

/-- What is left of the answer of a call that has none. -/
def bare : Except StoreError Unit × UsbMscDevice → Except StoreError (List Byte) × UsbMscDevice
  | (.ok (), dev) => (.ok [], dev)
  | (.error e, dev) => (.error e, dev)

theorem onBus_bare {n : Nat} {m : DeviceM Unit} {dev' : UsbMscDevice} {bus' : Sticks}
    (hm : Says n devices (m.onWire dev)) (hn : n ≤ callTransfers)
    (h : m.onBus devices dev bus = ((.ok (), dev'), bus')) :
    (m >>= fun _ => pure [] : DeviceM (List Byte)).onBus devices dev bus =
      ((.ok [], dev'), bus') := by
  have heq : DeviceM.onWire (m >>= fun _ => pure [] : DeviceM (List Byte)) dev = fun w =>
      (bare (m.onWire dev w).1, (m.onWire dev w).2) := by
    funext w
    simp only [DeviceM.onWire, run_bind]
    rcases m (dev, w) with ⟨_ | _, _, _⟩
    · rfl
    · rfl
  rw [DeviceM.onBus, heq]
  exact onSticks_map hm hn bare h

/-- The stick holds what the disk does, from `base` on. -/
structure Holds (devices : XhciState) (pipe : Pipe) (dev : UsbMscDevice) (bus : Sticks) (base : Nat)
    (d : Disk) : Prop where
  reach : InReach devices pipe dev bus
  quiet : d.Quiet
  fit : base + d.sectors ≤ dev.sectors
  gate : ∀ guid, dev.identityGate = some guid →
    0 < base ∧ guidOf ((bus pipe.slotIdx).medium.view 0).toList = guid
  view : ∀ lba, lba < d.sectors → (bus pipe.slotIdx).medium.view (base + lba) = d.view lba

namespace Holds

variable {base : Nat} {d d' : Disk}

theorem next (h : Holds devices pipe dev bus base d) {V : Nat → Sector} {bus' : Sticks}
    (hm : Moved bus pipe.slotIdx V bus') (t : Nat) (hq : d'.Quiet)
    (hsectors : d'.sectors = d.sectors) (hfirst : 0 < base → V 0 = (bus pipe.slotIdx).medium.view 0)
    (hview : ∀ lba, lba < d.sectors → V (base + lba) = d'.view lba) :
    Holds devices pipe (dev.tagged t) bus' base d' := by
  refine ⟨h.reach.next hm t, hq, by rw [hsectors]; exact h.fit, fun guid hg => ?_,
    fun lba hlt => ?_⟩
  · obtain ⟨hpos, hguid⟩ := h.gate guid hg
    rw [hm.later.view, hfirst hpos]
    exact ⟨hpos, hguid⟩
  · rw [hm.later.view]
    exact hview lba (by omega)

theorem read (h : Holds devices pipe dev bus base d) (hlt : lba < d.sectors) :
    ∃ t V bus', (UsbMscDevice.readSector (base + lba) sector).onBus devices dev bus =
        ((.ok (d.view lba).toList, dev.tagged t), bus') ∧ Moved bus pipe.slotIdx V bus' ∧
      ∀ d' : Disk, d'.Quiet → d'.sectors = d.sectors → d'.view = d.view →
        Holds devices pipe (dev.tagged t) bus' base d' := by
  have hfit := h.fit
  obtain ⟨bus', hrun, hmoved⟩ := readSector_run h.reach (show base + lba < dev.sectors by omega)
  refine ⟨dev.bumpTag.nextTag, _, bus', by rw [← h.view lba hlt]; exact hrun, hmoved,
    fun d' hq hs hv => ?_⟩
  refine h.next hmoved _ hq hs (fun _ => rfl) fun lba hlt => ?_
  rw [hv]
  exact h.view lba hlt

theorem write (h : Holds devices pipe dev bus base d) (hlt : lba < d.sectors) (x : Sector) :
    ∃ t V bus', (UsbMscDevice.writeSector (base + lba) x.toList).onBus devices dev bus =
        ((.ok (), dev.tagged t), bus') ∧ Moved bus pipe.slotIdx V bus' ∧
      ∀ d' : Disk, d'.Quiet → d'.sectors = d.sectors → d'.view = upd d.view lba x →
        Holds devices pipe (dev.tagged t) bus' base d' := by
  have hfit := h.fit
  obtain ⟨t, bus', hrun, hmoved⟩ := writeSector_run h.reach (show base + lba < dev.sectors by omega)
    (fun guid hg => (h.gate guid hg).2) x
  refine ⟨t, _, bus', hrun, hmoved, fun d' hq hs hv => ?_⟩
  refine h.next hmoved t hq hs (fun hpos => upd_other (by omega)) fun lba' hlt' => ?_
  rw [hv]
  by_cases heq : lba' = lba
  · rw [heq, upd_self, upd_self]
  · rw [upd_other (by omega), upd_other heq]
    exact h.view lba' hlt'

theorem flush (h : Holds devices pipe dev bus base d) :
    ∃ t V bus', UsbMscDevice.flush.onBus devices dev bus = ((.ok (), dev.tagged t), bus') ∧
      Moved bus pipe.slotIdx V bus' ∧
      ∀ d' : Disk, d'.Quiet → d'.sectors = d.sectors → d'.view = d.view →
        Holds devices pipe (dev.tagged t) bus' base d' := by
  obtain ⟨bus', hrun, hmoved⟩ := flush_run h.reach
  refine ⟨dev.bumpTag.nextTag, _, bus', hrun, hmoved, fun d' hq hs hv => ?_⟩
  refine h.next hmoved _ hq hs (fun _ => rfl) fun lba hlt => ?_
  rw [hv]
  exact h.view lba hlt

end Holds

/-- The volume on its bus stands where the disk does. -/
structure Plugged (v : UsbVolume) (d : Disk) : Prop where
  count : v.disk.sectors = d.sectors
  holds : ∃ pipe, Holds v.devices pipe v.disk.dev v.bus v.disk.base d

namespace UsbVolume

variable {v : UsbVolume} {d : Disk}

/-- The volume after a call. -/
def after (v : UsbVolume) (dev : UsbMscDevice) (bus : Sticks) : UsbVolume :=
  { v with disk := { v.disk with dev }, bus }

theorem perform_run {c : DiskCall} {r : Except StoreError (List Byte)}
    (h : (UsbBootDisk.perform v.disk.base v.disk.sectors c).onBus v.devices v.disk.dev v.bus =
      ((r, dev), bus)) : perform c v = (r, v.after dev bus) := by
  rw [perform, h]
  rfl

theorem plugged_after (h : Plugged v d) {d' : Disk} (hs : d'.sectors = d.sectors)
    (hholds : Holds v.devices pipe dev bus v.disk.base d') : Plugged (v.after dev bus) d' :=
  ⟨h.count.trans hs.symm, pipe, hholds⟩

/-- A call behind the end. -/
theorem perform_outside {c : DiskCall}
    (hc : UsbBootDisk.perform v.disk.base v.disk.sectors c = Fallible.throw .io) :
    perform c v = (.error .io, v) := by
  have hrun : (UsbBootDisk.perform v.disk.base v.disk.sectors c).onBus v.devices v.disk.dev v.bus =
      ((.error .io, v.disk.dev), v.bus) := by
    rw [hc]
    rfl
  exact perform_run hrun

theorem readSector_run (h : Plugged v d) (hlt : lba < d.sectors) :
    ∃ v', (BlockDevice.readSector lba : DevM UsbVolume Sector) v = (.ok (d.view lba), v') ∧
      ∀ d' : Disk, d'.Quiet → d'.sectors = d.sectors → d'.view = d.view → Plugged v' d' := by
  have hcount := h.count
  obtain ⟨pipe, hholds⟩ := h.holds
  obtain ⟨t, V, bus', hrun, -, hnext⟩ := hholds.read hlt
  have hperform : perform (.read lba sector) v =
      (.ok (d.view lba).toList, v.after (v.disk.dev.tagged t) bus') :=
    perform_run (by rw [UsbBootDisk.perform, if_neg (by omega)]; exact hrun)
  refine ⟨v.after (v.disk.dev.tagged t) bus', (run_bind_ok hperform).trans ?_,
    fun d' hq hs hv => ?_⟩
  · rw [asSector_toList, run_pure]
  · exact plugged_after h hs (hnext d' hq hs hv)

theorem writeSector_run (h : Plugged v d) (hlt : lba < d.sectors) (x : Sector) :
    ∃ v', (BlockDevice.writeSector lba x : DevM UsbVolume Unit) v = (.ok (), v') ∧
      ∀ d' : Disk, d'.Quiet → d'.sectors = d.sectors → d'.view = upd d.view lba x →
        Plugged v' d' := by
  have hcount := h.count
  obtain ⟨pipe, hholds⟩ := h.holds
  obtain ⟨t, V, bus', hrun, -, hnext⟩ := hholds.write hlt x
  have hperform : perform (.write lba x.toList) v = (.ok [], v.after (v.disk.dev.tagged t) bus') :=
    perform_run (by
      rw [UsbBootDisk.perform, if_neg (by omega)]
      exact onBus_bare (.writeSector _ _ _) (by decide) hrun)
  exact ⟨v.after (v.disk.dev.tagged t) bus', run_bind_ok hperform,
    fun d' hq hs hv => plugged_after h hs (hnext d' hq hs hv)⟩

theorem flush_run (h : Plugged v d) :
    ∃ v', (BlockDevice.flush : DevM UsbVolume Unit) v = (.ok (), v') ∧
      ∀ d' : Disk, d'.Quiet → d'.sectors = d.sectors → d'.view = d.view → Plugged v' d' := by
  obtain ⟨pipe, hholds⟩ := h.holds
  obtain ⟨t, V, bus', hrun, -, hnext⟩ := hholds.flush
  have hperform : perform .flush v = (.ok [], v.after (v.disk.dev.tagged t) bus') :=
    perform_run (onBus_bare (.flush _) (by decide) hrun)
  exact ⟨v.after (v.disk.dev.tagged t) bus', run_bind_ok hperform,
    fun d' hq hs hv => plugged_after h hs (hnext d' hq hs hv)⟩

theorem outside (hout : v.disk.sectors ≤ lba) :
    (BlockDevice.readSector lba : DevM UsbVolume Sector) v = (.error .io, v) ∧
      ∀ x, (BlockDevice.writeSector lba x : DevM UsbVolume Unit) v = (.error .io, v) :=
  ⟨run_bind_error (perform_outside (if_pos hout)),
    fun _ => run_bind_error (perform_outside (if_pos hout))⟩

end UsbVolume

/-- Every call on the volume is the call on the disk. -/
theorem plugged_stands : Stands Plugged := by
  refine Stands.of_disk (fun v d h => ?_) (fun v d h => ?_) (fun v d h => ?_)
    (fun _ _ _ h hlt => UsbVolume.readSector_run h hlt)
    (fun _ x _ _ h hlt => UsbVolume.writeSector_run h hlt x) (fun _ _ h => UsbVolume.flush_run h)
    fun lba v d h hout => UsbVolume.outside (by rw [h.count]; exact hout)
  · show v.disk.sectors % 2 ^ 64 = d.sectors
    rw [h.count, Nat.mod_eq_of_lt d.sectors_lt]
  · obtain ⟨pipe, hh⟩ := h.holds
    exact hh.quiet
  · obtain ⟨pipe, hh⟩ := h.holds
    exact ⟨h.count, pipe, hh.reach, hh.quiet, hh.fit, hh.gate, hh.view⟩

end Usb

end TablesOS
