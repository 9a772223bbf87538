import TablesOS.Engine.Handle
import TablesOS.Kernel.Install

/-!
# The size check of the installer and the room the formatter needs

The installer compares sectors, behind an offset; the formatter compares whole
pages, and wants one more of them than the comment on the check counts. On a
device that answers its calls the formatter gets through exactly when it has
that room, whatever the device is and wherever on it the volume starts, so the
two tests can be compared as numbers: they part on the targets that pass the
check by less than a page.
-/

namespace TablesOS

open Journal Usb

/-! ## Devices that answer -/

/-- A device of `n` sectors in one of the states `I` answers every call within
its range and stays in such a state. -/
structure Works (D : Type) [BlockDevice D] (n : Nat) (I : D → Prop) : Prop where
  count : ∀ d, I d → BlockDevice.sectorCount d = n
  read : ∀ d, I d → ∀ lba < n, ∃ x d', BlockDevice.readSector lba d = (.ok x, d') ∧ I d'
  write : ∀ d, I d → ∀ lba < n, ∀ x, ∃ d', BlockDevice.writeSector lba x d = (.ok (), d') ∧ I d'
  flush : ∀ d, I d → ∃ d', BlockDevice.flush d = (.ok (), d') ∧ I d'

/-- A loop each of whose rounds gets through. -/
theorem forM_answers {D : Type} {I : D → Prop} {ι : Type} {f : ι → DevM D PUnit} {xs : List ι}
    (hf : ∀ x ∈ xs, ∀ d, I d → ∃ d', f x d = (.ok (), d') ∧ I d') :
    ∀ d, I d → ∃ d', xs.forM f d = (.ok (), d') ∧ I d' := by
  induction xs with
  | nil => exact fun d hd => ⟨d, rfl, hd⟩
  | cons x xs ih =>
      intro d hd
      obtain ⟨d₁, h₁, hd₁⟩ := hf x List.mem_cons_self d hd
      obtain ⟨d₂, h₂, hd₂⟩ := ih (fun y hy => hf y (List.mem_cons_of_mem _ hy)) d₁ hd₁
      exact ⟨d₂, (Fallible.run_bind_ok h₁).trans h₂, hd₂⟩

section Works

variable {D : Type} [BlockDevice D] {n : Nat} {I : D → Prop}

namespace Works

theorem sectors_lt (h : Works D n I) {d : D} (hd : I d) : n < 2 ^ 64 := by
  rw [← h.count d hd]
  exact BlockDevice.sectorCount_lt d

theorem writePage (h : Works D n I) {page : Nat} (hp : (page + 1) * pageSectors ≤ n)
    (data : Page) (d : D) (hd : I d) :
    ∃ d', Journal.writePage page data d = (.ok (), d') ∧ I d' := by
  refine forM_answers (fun i hi d hd => ?_) d hd
  have hn := h.sectors_lt hd
  have hi := List.mem_range.mp hi
  have hlt : page * pageSectors + i < n := by
    simp only [pageSectors] at hp hi ⊢
    omega
  have hsector : sectorOf page i = page * pageSectors + i := by
    unfold sectorOf
    exact Nat.mod_eq_of_lt (by omega)
  rw [hsector]
  exact h.write d hd _ hlt _

theorem writeCtrl (h : Works D n I) (hn : (jctrlPages + 1) * pageSectors ≤ n)
    (buf : Buf ctrlSize) (d : D) (hd : I d) :
    ∃ d', Journal.writeCtrl buf d = (.ok (), d') ∧ I d' := by
  refine forM_answers (fun p hp d hd => h.writePage ?_ _ d hd) d hd
  have hp := List.mem_range.mp hp
  simp only [pageSectors, jctrlPages] at hn hp ⊢
  omega

/-- The sectors behind an offset of a device that works. -/
theorem behind (h : Works D n I) {base sectors : Nat} (hfit : base + sectors ≤ n) :
    Works (BaseOffsetDevice D) sectors
      fun v => I v.inner ∧ v.base = base ∧ v.sectors = sectors where
  count := by
    rintro v ⟨-, -, hs⟩
    exact hs
  read := by
    rintro v ⟨hv, rfl, rfl⟩ lba hlt
    obtain ⟨x, d', hr, hd'⟩ := h.read v.inner hv (v.base + lba) (by omega)
    refine ⟨x, { v with inner := d' }, ?_, hd', rfl, rfl⟩
    show BaseOffsetDevice.within lba BlockDevice.readSector v = _
    simp only [BaseOffsetDevice.within, BaseOffsetDevice.onInner, Nat.not_le.mpr hlt, if_false, hr]
  write := by
    rintro v ⟨hv, rfl, rfl⟩ lba hlt x
    obtain ⟨d', hw, hd'⟩ := h.write v.inner hv (v.base + lba) (by omega) x
    refine ⟨{ v with inner := d' }, ?_, hd', rfl, rfl⟩
    show BaseOffsetDevice.within lba (fun lba => BlockDevice.writeSector lba x) v = _
    simp only [BaseOffsetDevice.within, BaseOffsetDevice.onInner, Nat.not_le.mpr hlt, if_false, hw]
  flush := by
    rintro v ⟨hv, hb, hs⟩
    obtain ⟨d', hf, hd'⟩ := h.flush v.inner hv
    refine ⟨{ v with inner := d' }, ?_, hd', hb, hs⟩
    show BaseOffsetDevice.onInner BlockDevice.flush v = _
    simp only [BaseOffsetDevice.onInner, hf]

end Works

/-! ## What the formatter needs -/

/-- The pages `Pager::format` wants. -/
abbrev formatPages : Nat := firstDataPage + 2

/-- With room for its pages the formatter gets through. -/
theorem format_answers (h : Works D n I) (hroom : formatPages * pageSectors ≤ n) (d : D)
    (hd : I d) : ∃ pg d', Store.formatStore d = (.ok pg, d') := by
  have hcount : BlockDevice.sectorCount d = n := h.count d hd
  have hpages : ¬ n / pageSectors ≤ firstDataPage + 1 :=
    Nat.not_le.mpr ((Nat.le_div_iff_mul_le (by decide)).mpr hroom)
  have hctrl : (jctrlPages + 1) * pageSectors ≤ n := Nat.le_trans (by decide) hroom
  have hsuper : (0 + 1) * pageSectors ≤ n := Nat.le_trans (by decide) hroom
  obtain ⟨d₁, h₁, hd₁⟩ := h.writeCtrl hctrl (renderCtrl [] 0 stateEmpty) d hd
  obtain ⟨d₂, h₂, hd₂⟩ := h.flush d₁ hd₁
  have hinit : (Journal.init : DevM D Unit) d = (.ok (), d₂) := (Fallible.run_bind_ok h₁).trans h₂
  obtain ⟨d₃, h₃, hd₃⟩ := h.writePage hsuper
    (⟨n / pageSectors, firstDataPage, 0, 0, 1⟩ : Superblock).encode d₂ hd₂
  obtain ⟨d₄, h₄, -⟩ := h.flush d₃ hd₃
  refine ⟨⟨d₄, ⟨n / pageSectors, firstDataPage, 0, 0, 1⟩, ∅, ∅⟩, d₄, ?_⟩
  unfold Store.formatStore Pager.format
  rw [Fallible.run_bind_ok (Fallible.run_gets _ d), hcount, Fallible.run_if_neg hpages,
    Fallible.run_bind_ok hinit, Fallible.run_bind_ok h₃, Fallible.run_bind_ok h₄]
  rfl

/-- Without it the formatter refuses before it touches the device. -/
theorem format_refuses {d : D} (hcount : BlockDevice.sectorCount d < formatPages * pageSectors) :
    Store.formatStore d = (.error .outOfSpace, d) := by
  have hpages : BlockDevice.sectorCount d / pageSectors ≤ firstDataPage + 1 :=
    Nat.le_of_lt_succ ((Nat.div_lt_iff_lt_mul (by decide)).mpr hcount)
  unfold Store.formatStore Pager.format
  rw [Fallible.run_bind_ok (Fallible.run_gets _ d), Fallible.run_if_pos hpages]
  rfl

end Works

namespace Disk

theorem works (n : Nat) : Works Disk n fun d => d.Quiet ∧ d.sectors = n where
  count := by
    rintro d ⟨-, hs⟩
    exact hs
  read := by
    rintro d ⟨hq, rfl⟩ lba hlt
    refine ⟨d.view lba, { d with clock := d.clock + 1 }, ?_, hq, rfl⟩
    show Disk.call _ _ d = _
    simp [Disk.call, hq d.clock, hlt, Disk.view]
  write := by
    rintro d ⟨hq, rfl⟩ lba hlt x
    refine ⟨{ d with clock := d.clock + 1, medium := d.medium.write lba x }, ?_, hq, rfl⟩
    show Disk.call _ _ d = _
    simp [Disk.call, hq d.clock, hlt]
  flush := by
    rintro d ⟨hq, rfl⟩
    refine ⟨{ d with clock := d.clock + 1, medium := d.medium.flush }, ?_, hq, rfl⟩
    show Disk.call _ _ d = _
    simp [Disk.call, hq d.clock]

end Disk

namespace Installing

/-! ## The two tests -/

/-- The size check lets the target through. -/
abbrev SizeCheckPasses (total dataLba : Nat) : Prop := ¬ total < dataLba + minVolumeSectors

/-- Formatting the volume region of the target `usb` gets through. -/
def Formats {D : Type} [BlockDevice D] (usb : D) (dataLba : Nat) : Prop :=
  ∃ pg d', Store.formatStore (⟨usb, dataLba, BlockDevice.sectorCount usb - dataLba,
    Nat.lt_of_le_of_lt (Nat.sub_le _ _) (BlockDevice.sectorCount_lt usb)⟩ : BaseOffsetDevice D) =
      (.ok pg, d')

/-- On a target of `total` sectors with the volume at `dataLba`, device errors
aside, the check and the formatter agree. -/
structure SizeCheckAgrees (total dataLba : Nat) : Prop where
  /-- What the check lets through can be formatted. -/
  enough : SizeCheckPasses total dataLba → ∀ (D : Type) [BlockDevice D] (I : D → Prop),
    Works D total I → ∀ usb, I usb → Formats usb dataLba
  /-- An install that sends the target anything can be completed. -/
  unwritten : ∀ probes slotId booted newSysGuid runs s dev,
    UsbMscDevice.open probes slotId = .ok dev → dev.sectors = total →
    (install probes slotId dataLba booted newSysGuid runs s).2.wire ≠ s.wire →
    ∀ (D : Type) [BlockDevice D] (I : D → Prop), Works D total I → ∀ usb, I usb →
      Formats usb dataLba
  /-- What the check refuses cannot. -/
  needed : ∀ (D : Type) [BlockDevice D] (I : D → Prop), Works D total I → ∀ usb, I usb →
    Formats usb dataLba → SizeCheckPasses total dataLba

theorem formats_iff {D : Type} [BlockDevice D] {total : Nat} {I : D → Prop}
    (h : Works D total I) {usb : D} (hu : I usb) (dataLba : Nat) :
    Formats usb dataLba ↔ formatPages * pageSectors ≤ total - dataLba := by
  have hcount := h.count usb hu
  constructor
  · rintro ⟨pg, d', hformat⟩
    by_contra hless
    rw [format_refuses (by show BlockDevice.sectorCount usb - dataLba < _; omega)] at hformat
    cases hformat
  · intro hroom
    have hpos : 0 < formatPages * pageSectors := by decide
    have hfit : dataLba + (BlockDevice.sectorCount usb - dataLba) ≤ total := by omega
    have hbehind := h.behind hfit
    exact format_answers hbehind (by omega) _ ⟨hu, rfl, rfl⟩

/-- A target that the check refuses is left alone. -/
theorem install_refused {probes : List MscProbe} {slotId : Byte} {dataLba : Nat}
    {booted newSysGuid : List Byte} {runs : StoreRuns} {s : Installing} {dev : UsbMscDevice}
    (hopen : UsbMscDevice.open probes slotId = .ok dev)
    (hcheck : ¬ SizeCheckPasses dev.sectors dataLba) :
    install probes slotId dataLba booted newSysGuid runs s = (.error (), s) := by
  unfold install
  rw [hopen]
  exact Fallible.run_if_pos (Decidable.not_not.mp hcheck) _ _ s

/-- The check is wrong about the targets that pass it by less than a page. -/
theorem size_check_agrees_iff (total dataLba : Nat) (htotal : total < 2 ^ 64) :
    SizeCheckAgrees total dataLba ↔
      ¬ (dataLba + minVolumeSectors ≤ total ∧
        total < dataLba + minVolumeSectors + pageSectors) := by
  have hpages : formatPages * pageSectors = minVolumeSectors + pageSectors := rfl
  have hone : 0 < pageSectors := by decide
  constructor
  · rintro h ⟨hpass, hless⟩
    have hformats := h.enough (Nat.not_lt.mpr hpass) Disk _ (Disk.works total)
      (Disk.attach total htotal (fun _ => Buf.zero _) Disk.noFaults) ⟨fun _ => rfl, rfl⟩
    rw [formats_iff (Disk.works total) ⟨fun _ => rfl, rfl⟩] at hformats
    omega
  · intro hnot
    have henough : SizeCheckPasses total dataLba → ∀ (D : Type) [BlockDevice D] (I : D → Prop),
        Works D total I → ∀ usb, I usb → Formats usb dataLba := by
      intro hpass D _ I hI usb hu
      rw [formats_iff hI hu]
      have hpass := Nat.not_lt.mp hpass
      omega
    refine ⟨henough, ?_, ?_⟩
    · intro probes slotId booted newSysGuid runs s dev hopen hsectors hsent
      refine henough fun hsmall => hsent ?_
      subst hsectors
      rw [install_refused hopen (not_not_intro hsmall)]
    · intro D _ I hI usb hu hformats
      rw [formats_iff hI hu] at hformats
      exact Nat.not_lt.mpr (by omega)

theorem size_check_agrees_room : 40000 < 2 ^ 64 ∧ (SizeCheckAgrees 40000 16384 ↔
    ¬ (16384 + minVolumeSectors ≤ 40000 ∧ 40000 < 16384 + minVolumeSectors + pageSectors)) :=
  ⟨by decide, size_check_agrees_iff 40000 16384 (by decide)⟩

/-- A target with exactly the sectors the check asks for. -/
theorem size_check_short : ¬ SizeCheckAgrees 32784 16384 := by
  intro h
  have hworks := Disk.works 32784
  have hformats := h.enough (by decide) Disk _ hworks
    (Disk.attach 32784 (by decide) (fun _ => Buf.zero _) Disk.noFaults) ⟨fun _ => rfl, rfl⟩
  rw [formats_iff hworks ⟨fun _ => rfl, rfl⟩] at hformats
  revert hformats
  decide

end Installing

end TablesOS
