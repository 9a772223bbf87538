import TablesOS.Proofs.StickDriver
import TablesOS.Proofs.VolumeRegion

/-!
# A stick as a disk, and a part of it

A calm stick stands for a disk (`carried_stands`), and through it the part of the
stick behind an offset for the part of that disk (`over_stands`). So what a store
does there is known: it is formatted (`format_part`), and a volume that is there is
opened (`open_part`). The sectors in front and the other sticks stay as they were.
-/

namespace TablesOS

open Fallible Medium

/-! ## Parts of devices -/

namespace BaseOffsetDevice

variable {D D' α : Type} [BlockDevice D] [BlockDevice D'] {R : D → D' → Prop}

/-- Parts behind one offset, of devices that `R` relates. -/
structure Over (R : D → D' → Prop) (d : BaseOffsetDevice D) (d' : BaseOffsetDevice D') : Prop where
  inner : R d.inner d'.inner
  base : d.base = d'.base
  sectors : d.sectors = d'.sectors

omit [BlockDevice D] [BlockDevice D'] in
theorem over_onInner {m : DevM D α} {m' : DevM D' α} (hm : Mimics R Eq m m') :
    Mimics (Over R) Eq (onInner m) (onInner m') := by
  intro d d' h
  obtain ⟨ho, hinner⟩ := hm _ _ h.inner
  exact ⟨ho, hinner, h.base, h.sectors⟩

omit [BlockDevice D] [BlockDevice D'] in
theorem over_within {lba : Nat} {m : Nat → DevM D α} {m' : Nat → DevM D' α}
    (hm : ∀ lba, Mimics R Eq (m lba) (m' lba)) :
    Mimics (Over R) Eq (within lba m) (within lba m') := by
  intro d d' h
  unfold within
  rw [h.sectors, h.base]
  split
  · exact ⟨.error _, h⟩
  · exact over_onInner (hm _) d d' h

/-- If one device stands for another, so does a part of it for the same part. -/
theorem over_stands (h : Stands R) : Stands (Over R) := by
  refine ⟨fun d d' hd => hd.sectors, fun lba => ?_, fun lba x => ?_, ?_⟩
  · exact over_within h.read
  · exact over_within fun lba => h.write lba x
  · exact over_onInner h.flush

end BaseOffsetDevice

namespace Usb

variable {devices : XhciState} {bus : Sticks} {pipe : Pipe} {dev : UsbMscDevice} {lba : Nat}

/-! ## A stick as a disk -/

/-- The stick at `i` is what it was on the bus `bus`, and holds what the disk does. -/
structure Carried (bus : Sticks) (i : Nat) (d : UsbDrive) (d' : Disk) : Prop where
  count : d.dev.sectors = d'.sectors
  holds : ∃ pipe, pipe.slotIdx = i ∧ Holds d.devices pipe d.dev d.bus 0 d'
  moved : ∃ V, Moved bus i V d.bus

namespace UsbDrive

variable {d : UsbDrive} {d' : Disk} {i : Nat}

theorem call_run {α : Type} {m : DeviceM α} {r : Except StoreError α} {bus' : Sticks}
    (h : m.onBus d.devices d.dev d.bus = ((r, dev), bus')) :
    call m d = (r, { d with dev, bus := bus' }) := by
  rw [call, h]

theorem carried_after (h : Carried bus i d d') {V : Nat → Sector} {bus' : Sticks} {d'' : Disk}
    (hs : d''.sectors = d'.sectors) {t : Nat} (hpipe : pipe.slotIdx = i)
    (hm : Moved d.bus pipe.slotIdx V bus')
    (hholds : Holds d.devices pipe (d.dev.tagged t) bus' 0 d'') :
    Carried bus i { d with dev := d.dev.tagged t, bus := bus' } d'' := by
  obtain ⟨W, hW⟩ := h.moved
  rw [hpipe] at hm
  exact ⟨h.count.trans hs.symm, ⟨pipe, hpipe, hholds⟩, V, hW.trans hm⟩

theorem readSector_carried (h : Carried bus i d d') (hlt : lba < d'.sectors) :
    ∃ e, (BlockDevice.readSector lba : DevM UsbDrive Sector) d = (.ok (d'.view lba), e) ∧
      ∀ d'' : Disk, d''.Quiet → d''.sectors = d'.sectors → d''.view = d'.view →
        Carried bus i e d'' := by
  obtain ⟨pipe, hpipe, hh⟩ := h.holds
  obtain ⟨t, V, bus', hrun, hm, hnext⟩ := hh.read hlt
  rw [Nat.zero_add] at hrun
  have hcall := call_run hrun
  refine ⟨_, (run_bind_ok hcall).trans ?_, fun d'' hq hs hv =>
    carried_after h hs hpipe hm (hnext d'' hq hs hv)⟩
  rw [asSector_toList, run_pure]

theorem writeSector_carried (h : Carried bus i d d') (hlt : lba < d'.sectors) (x : Sector) :
    ∃ e, (BlockDevice.writeSector lba x : DevM UsbDrive Unit) d = (.ok (), e) ∧
      ∀ d'' : Disk, d''.Quiet → d''.sectors = d'.sectors → d''.view = upd d'.view lba x →
        Carried bus i e d'' := by
  obtain ⟨pipe, hpipe, hh⟩ := h.holds
  obtain ⟨t, V, bus', hrun, hm, hnext⟩ := hh.write hlt x
  rw [Nat.zero_add] at hrun
  exact ⟨_, call_run hrun, fun d'' hq hs hv =>
    carried_after h hs hpipe hm (hnext d'' hq hs hv)⟩

theorem flush_carried (h : Carried bus i d d') :
    ∃ e, (BlockDevice.flush : DevM UsbDrive Unit) d = (.ok (), e) ∧
      ∀ d'' : Disk, d''.Quiet → d''.sectors = d'.sectors → d''.view = d'.view →
        Carried bus i e d'' := by
  obtain ⟨pipe, hpipe, hh⟩ := h.holds
  obtain ⟨t, V, bus', hrun, hm, hnext⟩ := hh.flush
  exact ⟨_, call_run hrun, fun d'' hq hs hv =>
    carried_after h hs hpipe hm (hnext d'' hq hs hv)⟩

/-- A call behind the end does not reach the bus. -/
theorem outside_carried (hout : d.dev.sectors ≤ lba) :
    (BlockDevice.readSector lba : DevM UsbDrive Sector) d = (.error .io, d) ∧
      ∀ x, (BlockDevice.writeSector lba x : DevM UsbDrive Unit) d = (.error .io, d) := by
  have hread : (UsbMscDevice.readSector lba sector).onBus d.devices d.dev d.bus =
      ((.error .io, d.dev), d.bus) := by
    rw [DeviceM.onBus, onWire_readSector, if_pos (Or.inr (Or.inr hout))]
    rfl
  have hwrite : ∀ x : Sector, (UsbMscDevice.writeSector lba x.toList).onBus d.devices d.dev d.bus =
      ((.error .io, d.dev), d.bus) := by
    intro x
    rw [DeviceM.onBus, onWire_writeSector, if_pos (Or.inr (Or.inr hout))]
    rfl
  exact ⟨run_bind_error (call_run hread), fun x => call_run (hwrite x)⟩

end UsbDrive

/-- Every call on the stick is the call on the disk. -/
theorem carried_stands (bus : Sticks) (i : Nat) : Stands (Carried bus i) := by
  refine Stands.of_disk (fun d d' h => ?_) (fun d d' h => ?_) (fun d d' h => ?_)
    (fun _ _ _ h hlt => UsbDrive.readSector_carried h hlt)
    (fun _ x _ _ h hlt => UsbDrive.writeSector_carried h hlt x)
    (fun _ _ h => UsbDrive.flush_carried h)
    fun lba d d' h hout => UsbDrive.outside_carried (by rw [h.count]; exact hout)
  · show d.dev.sectors % 2 ^ 64 = d'.sectors
    rw [h.count, Nat.mod_eq_of_lt d'.sectors_lt]
  · obtain ⟨pipe, -, hh⟩ := h.holds
    exact hh.quiet
  · obtain ⟨pipe, hpipe, hh⟩ := h.holds
    exact ⟨h.count, ⟨pipe, hpipe, hh.reach, hh.quiet, hh.fit, hh.gate, hh.view⟩, h.moved⟩

/-! ## A store behind the offset -/

section Part

open Store
open BaseOffsetDevice (over_stands contained_stands contained_refl region_stands)
open Journal (firstDataPage)

/-- The part of the stick holds what `d'` does; in front of it is what was in front of
the part `B` of the disk. -/
def Part (bus : Sticks) (i : Nat) (B : BaseOffsetDevice Disk) (d : BaseOffsetDevice UsbDrive)
    (d' : Disk) : Prop :=
  ∃ e, BaseOffsetDevice.Over (Carried bus i) d e ∧
    ∃ e', (e = e' ∧ BaseOffsetDevice.Contained B e) ∧ BaseOffsetDevice.Region e' d'

theorem part_stands (bus : Sticks) (i : Nat) (B : BaseOffsetDevice Disk) :
    Stands (Part bus i B) :=
  (over_stands (carried_stands bus i)).comp ((contained_stands B).comp region_stands)

/-- Behind `base` the stick holds what the disk does, in front of it what it held. -/
structure Left (bus : Sticks) (i base : Nat) (d : Disk) (bus' : Sticks) : Prop where
  moved : ∃ V, Moved bus i V bus'
  front : ∀ lba < base, (bus' i).medium.view lba = (bus i).medium.view lba
  volume : ∀ lba < d.sectors, (bus' i).medium.view (base + lba) = d.view lba

variable {b : BaseOffsetDevice UsbDrive} {d : Disk}

/-- What happened before without changing what the stick holds. -/
theorem Left.since {i : Nat} {bus₁ bus₂ : Sticks} {base : Nat} {d : Disk}
    (h : Left bus₁ i base d bus₂) (hm : Moved bus i (bus i).medium.view bus₁) :
    Left bus i base d bus₂ := by
  obtain ⟨V, hV⟩ := h.moved
  refine ⟨⟨V, hm.trans hV⟩, fun lba hlt => ?_, h.volume⟩
  rw [h.front lba hlt, hm.later.view]

/-- The device behind `b` is there, and has the sectors that `b` covers. -/
structure Ready (pipe : Pipe) (b : BaseOffsetDevice UsbDrive) : Prop where
  reach : InReach b.inner.devices pipe b.inner.dev b.inner.bus
  gate : b.inner.dev.identityGate = none
  fit : b.base + b.sectors ≤ b.inner.dev.sectors

theorem part_start (h : Ready pipe b) (hq : d.Quiet) (hsectors : d.sectors = b.sectors)
    (hview : ∀ lba < d.sectors,
      (b.inner.bus pipe.slotIdx).medium.view (b.base + lba) = d.view lba) :
    ∃ B, Part b.inner.bus pipe.slotIdx B b d ∧ B.base = b.base ∧
      B.inner.view = (b.inner.bus pipe.slotIdx).medium.view := by
  have hlt : b.inner.dev.sectors < 2 ^ 64 := Nat.lt_of_le_of_lt h.reach.small (by decide)
  have hcarried : Carried b.inner.bus pipe.slotIdx b.inner
      (Disk.attach b.inner.dev.sectors hlt (b.inner.bus pipe.slotIdx).medium.view
        Disk.noFaults) := by
    refine ⟨rfl, ⟨pipe, rfl, h.reach, fun _ => rfl, ?_, fun guid hg => ?_, fun lba _ => ?_⟩, _,
      .refl h.reach.calm.waiting⟩
    · exact Nat.le_of_eq (Nat.zero_add _)
    · rw [h.gate] at hg
      cases hg
    · rw [Nat.zero_add]
      rfl
  refine ⟨⟨Disk.attach b.inner.dev.sectors hlt (b.inner.bus pipe.slotIdx).medium.view
    Disk.noFaults, b.base, b.sectors, b.sectors_lt⟩,
    ⟨_, ⟨hcarried, rfl, rfl⟩, _, ⟨rfl, contained_refl _⟩, ?_⟩, rfl, rfl⟩
  exact ⟨fun _ => rfl, hq, hsectors.symm, h.fit, fun lba hlba => hview lba (hsectors ▸ hlba)⟩

theorem Part.left {i : Nat} {B : BaseOffsetDevice Disk} {e : BaseOffsetDevice UsbDrive}
    (h : Part bus i B e d) (hview : B.inner.view = (bus i).medium.view) :
    Left bus i B.base d e.inner.bus := by
  obtain ⟨e₁, hover, e₂, ⟨rfl, hkept⟩, hregion⟩ := h
  obtain ⟨pipe, rfl, hholds⟩ := hover.inner.holds
  have hroom := hregion.room
  have hbase := hkept.base
  have hcarried : ∀ lba < e₁.inner.sectors,
      (e.inner.bus pipe.slotIdx).medium.view lba = e₁.inner.view lba := by
    intro lba hlt
    have hlba := hholds.view lba hlt
    rwa [Nat.zero_add] at hlba
  refine ⟨hover.inner.moved, fun lba hlt => ?_, fun lba hlt => ?_⟩
  · rw [hcarried lba (by omega), ← hview]
    exact (hkept.rest lba (Or.inl hlt)).view
  · have hlt' : lba < e₁.sectors := by
      rw [hregion.sectors]
      exact hlt
    rw [← hbase, hcarried _ (by omega)]
    exact hregion.view lba hlt'

/-- With room for its pages the part is formatted. -/
theorem format_part (h : Ready pipe b) (hroom : firstDataPage + 1 < b.sectors / pageSectors) :
    ∃ d₀ pg₀ pg e, d₀.Quiet ∧ formatStore d₀ = (.ok pg₀, pg₀.dev) ∧
      pg₀.dev.sectors = b.sectors ∧ formatStore b = (.ok pg, e) ∧
      Left b.inner.bus pipe.slotIdx b.base pg₀.dev e.inner.bus := by
  have hq : (Disk.attach b.sectors b.sectors_lt
    (fun lba => (b.inner.bus pipe.slotIdx).medium.view (b.base + lba)) Disk.noFaults).Quiet :=
    fun _ => rfl
  obtain ⟨B, hpart, hbase, hview⟩ := part_start h hq rfl fun _ _ => rfl
  obtain ⟨pg₀, hrun, -, -, hsectors, -⟩ := format_clean hq hroom
  obtain ⟨ho, hend⟩ := format_stands (part_stands b.inner.bus pipe.slotIdx B) hpart
  rw [hrun] at ho hend
  rcases hformat : formatStore b with ⟨o, e⟩
  rw [hformat] at ho hend
  cases ho with
  | ok _ =>
      have hleft := hend.left hview
      rw [hbase] at hleft
      exact ⟨_, pg₀, _, e, hq, hrun, hsectors, rfl, hleft⟩

/-- A volume that a store has left in the part is opened. -/
theorem open_part {pg₀ : Pager Disk} (h : Ready pipe b) (hclean : pg₀.Clean)
    (hq : pg₀.dev.Quiet) (hsectors : pg₀.dev.sectors = b.sectors)
    (hview : ∀ lba < pg₀.dev.sectors,
      (b.inner.bus pipe.slotIdx).medium.view (b.base + lba) = pg₀.dev.view lba) :
    ∃ pg e, openStore b = (.ok pg, e) ∧
      Left b.inner.bus pipe.slotIdx b.base pg₀.dev e.inner.bus := by
  obtain ⟨B, hpart, hbase, hfirst⟩ := part_start h hq hsectors hview
  obtain ⟨pg₁, hrun, hstill, -⟩ := open_clean hclean hq
  obtain ⟨k, hdev⟩ := hstill.dev
  obtain ⟨ho, hend⟩ := open_stands (part_stands b.inner.bus pipe.slotIdx B) hpart
  rw [hrun] at ho hend
  rcases hopen : openStore b with ⟨o, e⟩
  rw [hopen] at ho hend
  cases ho with
  | ok _ =>
      have hleft := hend.left hfirst
      rw [hbase, hdev] at hleft
      exact ⟨_, e, rfl, hleft.moved, hleft.front, hleft.volume⟩

end Part

end Usb

end TablesOS
