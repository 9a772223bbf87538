import TablesOS.Proofs.Installation
import TablesOS.Proofs.Startup

/-!
# An installed system starts

What a complete install leaves on a stick is an image again: the one that the
builder would have made of the same parts under the new system id
(`image_of_complete`). So everything that is known of images holds of it, and a machine
that boots from the stick comes up with the store on the stick, which is empty,
even with the disk that it was copied from still in place (`installed_starts`).
-/

namespace TablesOS

open Fallible

namespace Boot

open Pio Store Usb Installer

variable {p : Parts} {img : Img} {vol guid : List Byte}

/-! ## The same parts under another id -/

theorem dataLba_pos (p : Parts) : 0 < p.dataLba :=
  Nat.lt_of_lt_of_le (by decide) (Nat.le_trans (Nat.le_add_right kernelLba p.kSecs) kSecs_le)

/-- The parts with this id. -/
def Parts.renamed (p : Parts) (guid : List Byte) (hg : guid.length = 16) : Parts :=
  { p with guid, guid_length := hg }

theorem Fits.renamed (hf : Fits p) (hg : guid.length = 16) : Fits (p.renamed guid hg) :=
  ⟨hf.stage1, hf.stage2, hf.kernel, hf.volume⟩

/-- Only the id is different. -/
theorem bootRegion_renamed (hf : Fits p) (hg : guid.length = 16) :
    bootRegion (p.renamed guid hg) = (bootRegion p).put 0x1DC guid := by
  have hguid := p.guid_length
  have hstage2 := hf.stage2
  have hregion : bootRegion (p.renamed guid hg) =
      (((patch p ((Buf.zero imgBytes).put 0 p.stage1)).put 0x1DC guid).put
        (stage2Lba * sectorSize) p.stage2).put (kernelLba * sectorSize) p.kernel := rfl
  ext i hi
  rw [hregion, bootRegion]
  simp only [Buf.get_put _ _ _ hi, hg, hguid, kernelLba, stage2Lba, sectorSize] at hstage2 ⊢
  -- The id lies in front of the stages.
  by_cases hid : 0x1DC ≤ i ∧ i < 0x1DC + 16
  · rw [if_neg (by omega), if_neg (by omega), if_pos hid, if_pos hid]
  · rw [if_neg hid, if_neg hid, if_neg hid]

/-- A byte in front of the volume. -/
theorem get_front (himg : build p vol = some img) {a : Nat} (h : a < p.dataLba * sectorSize) :
    img.get a = (bootRegion p).get a := by
  obtain ⟨hf, -, rfl⟩ := build_eq himg
  rw [Buf.get_put _ _ _ (Nat.lt_of_lt_of_le h (dataLba_le hf)), if_neg (by omega)]

/-- A sector in front of the volume, with the id that the installer gives it. -/
theorem sector_renamed {vol' : List Byte} {img' : Img} (himg : build p vol = some img)
    (hg : guid.length = 16) (himg' : build (p.renamed guid hg) vol' = some img') {lba : Nat}
    (h : lba < p.dataLba) : img'.sector lba = stamped guid lba (img.sector lba) := by
  have hf := (build_eq himg).1
  ext j hj
  have hend : (lba + 1) * sectorSize ≤ p.dataLba * sectorSize := Nat.mul_le_mul_right _ h
  rw [Nat.succ_mul] at hend
  have hsector : ∀ img : Img, (img.sector lba).get j = img.get (lba * sectorSize + j) := fun _ => by
    simp [Buf.get, Img.sector, hj]
  have ha : lba * sectorSize + j < imgBytes :=
    Nat.lt_of_lt_of_le (by omega) (dataLba_le hf)
  rw [hsector, get_front himg' (show _ < p.dataLba * sectorSize by omega),
    bootRegion_renamed hf hg, Buf.get_put _ _ _ ha, stamped]
  by_cases hzero : lba = 0
  · rw [if_pos hzero, Buf.get_put _ _ _ hj, hsector, get_front himg (by omega), hzero, Nat.zero_mul,
      Nat.zero_add]
  · rw [if_neg hzero, hsector, get_front himg (by omega), if_neg]
    simp only [sectorSize]
    omega

/-- Sectors that begin with the boot region under another id are an image. -/
theorem reimaged {V : Nat → Sector} (himg : build p vol = some img) (hg : guid.length = 16)
    (hfront : ∀ lba < p.dataLba, V lba = stamped guid lba (img.sector lba)) :
    ∃ vol' img', build (p.renamed guid hg) vol' = some img' ∧
      ∀ lba < imgSectors, img'.sector lba = V lba := by
  have hf := (build_eq himg).1
  have hlt : imgSectors - p.dataLba < 2 ^ 64 :=
    Nat.lt_of_le_of_lt (Nat.sub_le _ _) (by rw [imgSectors_eq]; decide)
  generalize hd : Disk.attach (imgSectors - p.dataLba) hlt (fun lba => V (p.dataLba + lba))
    Disk.noFaults = d
  have hsectors : d.sectors = imgSectors - p.dataLba := by rw [← hd]; rfl
  have hview : d.view = fun lba => V (p.dataLba + lba) := by rw [← hd]; rfl
  have hlen : (snapshot d).length = imgBytes - p.dataLba * sectorSize := by
    rw [snapshot, Buf.length_toList, hsectors, Nat.sub_mul, imgBytes_eq]
  have hdata : (p.renamed guid hg).dataLba = p.dataLba := rfl
  have hbuild : build (p.renamed guid hg) (snapshot d) = _ :=
    build_of_fits (hf.renamed hg) (by rw [hdata]; exact hlen)
  refine ⟨snapshot d, _, hbuild, fun lba hlba => ?_⟩
  by_cases h : lba < p.dataLba
  · rw [hfront lba h]
    exact sector_renamed himg hg hbuild h
  · have hvolume := volume_sector hbuild (show lba - p.dataLba < d.sectors by omega)
    rw [hdata, Nat.add_sub_cancel' (Nat.le_of_not_lt h), hview] at hvolume
    rw [hdata, hvolume]
    exact congrArg V (Nat.add_sub_cancel' (Nat.le_of_not_lt h))

/-- What a complete install leaves is the image of the renamed parts. -/
theorem image_of_complete {s s' : Site} {i : Nat} (himg : build p vol = some img)
    (hcarries : Carries img s.ata) (hg : guid.length = 16)
    (h : Complete guid p.dataLba i s s') :
    ∃ vol' img', build (p.renamed guid hg) vol' = some img' ∧
      ∀ lba < imgSectors, img'.sector lba = (s'.bus i).medium.view lba := by
  have hvolume := (build_eq himg).1.volume
  refine reimaged himg hg fun lba hlt => ?_
  have hsource : s.ata.medium.view lba = img.sector lba := hcarries.view lba (by omega)
  rw [h.region lba hlt, source, hsource]

/-! ## Who is booted -/

/-- The boot sector of a system is taken for that of the booted one by its id. -/
theorem isBooted_of_parse {s : List Byte} {h : Mbr.Header} (hp : Mbr.parse s = .tablesOs h) :
    isBooted h.sysGuid s = true := by
  unfold Mbr.parse at hp
  by_cases hlen : s.length < 512
  · rw [if_pos hlen] at hp
    cases hp
  · rw [if_neg hlen] at hp
    split at hp
    · next hc =>
        obtain ⟨hmagic, hsig⟩ := hc
        cases hp
        have hm : (s.drop 0x1B0).take 8 = [0x54, 0x42, 0x4C, 0x53, 0x42, 0x4F, 0x4F, 0x54] := hmagic
        obtain ⟨h510, h511⟩ := Bool.and_eq_true_iff.mp hsig
        have hguid : guidOf s = (Mbr.header s).sysGuid := rfl
        rw [isBooted, hm, h510, h511, hguid, decide_eq_true (Nat.le_of_not_lt hlen)]
        simp
    · split at hp
      · split at hp <;> cases hp
      · split at hp <;> cases hp

theorem hasBootMagic_of_parse {s : List Byte} {h : Mbr.Header} (hp : Mbr.parse s = .tablesOs h) :
    hasBootMagic s = true := by
  have hb := isBooted_of_parse hp
  simp only [isBooted, Bool.and_eq_true] at hb
  exact hb.1.1.1.2

/-- A disk with another id is not the boot disk. -/
theorem discoverPorts_other {drive : Drive} (himg : build p vol = some img)
    (h : Carries img drive) (hne : guid ≠ p.guid) :
    discoverPorts p.dataLba guid drive = none := by
  obtain ⟨q, hprobe, -, -, ha⟩ := probePorts_run h.calm h.ident h.capacity p.dataLba
  have hpos : 0 < q.drive.sectors := by
    rw [ha.sectors, h.sectors]
    decide
  obtain ⟨drive', hread, -⟩ := readAbsolute_run ha.calm hpos
  have hguid : guidOf (q.drive.medium.view 0).toList = p.guid := by
    rw [ha.view, h.view 0 (by decide), sector_run]
    exact guid_field himg
  have hboot : Ports.readBootSector q =
      (.ok (q.drive.medium.view 0), { q with drive := drive' }) := by
    rw [Ports.readBootSector, Ports.onDrive, hread]
  rw [discoverPorts, hprobe, Option.bind_some, isSystem, hboot]
  exact if_neg fun hsame => hne (hsame.symm.trans hguid)

/-! ## The start -/

section Start

variable {fw : Firmware} {m m' : Machine} {fuel : Nat} {devices devices' : XhciState}
  {bus₀ bus bus' : Sticks} {t t' : MscTarget} {probes : List MscProbe} {ata ata' : Drive}
  {mscTag : Nat} {s : Site}

/-- The stick at `i` is the one of the install, as far as it can be told; the others
are dead, or not of this system. -/
structure Rebooted (s : Site) (i : Nat) (guid : List Byte) (bus' : Sticks) (i' : Nat) : Prop where
  sound : (bus' i').Sound
  sectors : (bus' i').sectors = (s.bus i).sectors
  view : (bus' i').medium.view = (s.bus i).medium.view
  others : ∀ j, j ≠ i' → (bus' j).stage = .dead ∨
    ((bus' j).Sound ∧ isBooted guid ((bus' j).medium.view 0).toList = false)

/-- The stick of a complete install is found by its id, and its store is empty. -/
theorem Rebooted.mounted {s₀ : Site} {i : Nat} (himg : build p vol = some img)
    (hs : IsStage1 p.stage1) (hcarries : Carries img s₀.ata) (hg : guid.length = 16)
    (hdone : Complete guid p.dataLba i s₀ s) (h : Rebooted s i guid bus' t'.slotIdx)
    (ht' : t' ∈ mscTargets devices') :
    ∃ v pg, discoverStick p.dataLba guid devices' bus' = some v ∧
      mountVolume guid (.usb v) = some (.usb pg) ∧
      ∀ es, HandedOut es [] pg → ∃ ids : List (Option RowId), ids.length = es.length ∧
        Database.AllNew (es.zip ids) [] ∧
        (history es pg).1 = (Database.history (es.zip ids) []).1.map Outcome.ofExcept := by
  obtain ⟨d₀, pg₀, hq, hrun, hsectors, hvolume⟩ := hdone.volume
  obtain ⟨vol', img', himg', hsame⟩ := image_of_complete himg hcarries hg hdone
  have hid : (p.renamed guid hg).header.sysGuid = guid := rfl
  have hbooted := isBooted_of_parse (parse_run himg' (show IsStage1 (p.renamed guid hg).stage1
    from hs))
  rw [hid, ← sector_run, hsame 0 (by decide), ← h.view] at hbooted
  have hlone : bus'.Lone guid t'.slotIdx := ⟨h.sound, hbooted, h.others⟩
  have hm := format_mirrored hq hrun
  have hsize : (bus' t'.slotIdx).sectors = p.dataLba + pg₀.dev.sectors := by
    obtain ⟨V, hV⟩ := hdone.moved
    have hsome := hm.sectors_pos
    rw [hsectors] at hsome
    rw [h.sectors, hV.later.sectors, hsectors, Nat.add_sub_cancel' (by omega)]
  obtain ⟨v, pg, hdiscover, hmount, -, hlife⟩ := hlone.mounted hm ht' (dataLba_pos p) hsize
    (by rw [h.view]; exact hvolume)
  exact ⟨v, pg, hdiscover, hmount, hlife⟩

/-- The whole way, once more. A machine runs from an image and installs itself onto a
stick, and the report says that all is well. Whatever machine is then booted from
the stick refuses its framebuffer or comes up with the store of the stick, although
the disk with the image is still there; and that store is empty, and answers every
history as the model does. -/
theorem installed_starts (tsc : UInt64) (himg : build p vol = some img) (hs : IsStage1 p.stage1)
    (ht : t ∈ mscTargets devices) (hclear : ∀ t ∈ mscTargets devices, (bus₀ t.slotIdx).Clear)
    (hsound : (bus₀ t.slotIdx).Sound) (hprobe : probeSticks devices bus₀ = (probes, bus))
    (hprompt : Prompt ata) (hcarries : Carries img ata)
    (hroom : Journal.firstDataPage + 1 < ((bus₀ t.slotIdx).sectors - p.dataLba) / pageSectors)
    (hother : refuseIfSameDisk p.guid (.ok ((bus₀ t.slotIdx).medium.view 0).toList) = false)
    (htag : mscTag < 2 ^ 32)
    (hinstall : Installer.installToUsb devices probes t.slotId p.dataLba p.guid tsc ata bus
      mscTag = s)
    (hdone : s.report.verifyMountOk = true) (hnew : makeRandomSysGuid tsc ≠ p.guid)
    (hdisk : ∀ lba < imgSectors, fw.disk lba = (s.bus t.slotIdx).medium.view lba)
    (hfirst : m.nreads = 0) (hboot : boot fw p.stage2 fuel m = (.ok (), m'))
    (ht' : t' ∈ mscTargets devices') (hcarries' : Carries img ata')
    (hbus : Rebooted s t.slotIdx (makeRandomSysGuid tsc) bus' t'.slotIdx) :
    (BootInfo.read (seen m'.mem pml4) bootinfo).fbAddr = 0 ∨
    ∃ pg, Usb.kmain (seen m'.mem pml4) bootinfo (some ata') devices' bus' = some (.usb pg) ∧
      ∀ es, HandedOut es [] pg → ∃ ids : List (Option RowId), ids.length = es.length ∧
        Database.AllNew (es.zip ids) [] ∧
        (history es pg).1 = (Database.history (es.zip ids) []).1.map Outcome.ofExcept := by
  have hg : (makeRandomSysGuid tsc).length = 16 := Installing.length_makeRandomSysGuid tsc
  have hvolume := (build_eq himg).1.volume
  have hmagic : hasBootMagic (ata.medium.view 0).toList = true := by
    rw [hcarries.view 0 (by decide), sector_run]
    exact hasBootMagic_of_parse (parse_run himg hs)
  obtain ⟨s', hend, hdone' | ⟨j, -, hstopped, -⟩⟩ := install_probed tsc ht hclear hsound hprobe
    hprompt (show p.dataLba ≤ ata.sectors by rw [hcarries.sectors]; omega) (dataLba_pos p) hmagic
    hroom hother htag
  · obtain rfl : s' = s := hend.symm.trans hinstall
    obtain ⟨v, pg, hdiscover, hmount, hlife⟩ := hbus.mounted himg hs hcarries hg hdone' ht'
    obtain ⟨vol', img', himg', hsame⟩ := image_of_complete himg hcarries hg hdone'
    have hs' : IsStage1 (p.renamed (makeRandomSysGuid tsc) hg).stage1 := hs
    obtain ⟨bios, mode, fb, -, hset, hover⟩ := (boot_ends himg' hs'
      (fun lba hlt => (hdisk lba hlt).trans (hsame lba hlt).symm) hfirst fuel).ok hboot
    rw [Usb.kmain, hover.read_seen]
    by_cases haddr : fb.addr = 0
    · left
      rw [hover.info, haddr]
      rfl
    · right
      have haccepted := hover.accepted hset haddr
      have hdata : (p.renamed (makeRandomSysGuid tsc) hg).dataLba = p.dataLba := rfl
      have hguid : (p.renamed (makeRandomSysGuid tsc) hg).guid = makeRandomSysGuid tsc := rfl
      have hother' := discoverPorts_other himg hcarries' hnew
      refine ⟨pg, ?_, hlife⟩
      simp only [hover.info, hdata, hguid] at haccepted ⊢
      rw [haccepted, if_neg (by decide), Usb.discover, Option.bind_some, hother', hdiscover]
      exact hmount
  · rw [← hinstall, hend, hstopped.report] at hdone
    cases hdone

/-- A stick that is sound, and the others dead, as an install leaves them. -/
theorem rebooted_blank {guid : List Byte} (hprobe : probeSticks devices blankBus = (probes, bus))
    (hmoved : ∃ V, Moved bus 0 V s.bus) : Rebooted s 0 guid s.bus 0 := by
  obtain ⟨bus₁, hrun, hsame⟩ := probeSticks_run devices blankBus fun t _ => blankBus_clear _
  rw [hprobe] at hrun
  obtain ⟨-, rfl⟩ := Prod.mk.inj hrun
  obtain ⟨V, hV⟩ := hmoved
  have hsound : (bus 0).Sound := (hsame 0).sound blankBus_sound
  refine ⟨hV.later.sound hsound, rfl, rfl, fun j hj => Or.inl ?_⟩
  have hdead : (blankBus j).stage = .dead := by rw [blankBus, if_neg hj]
  obtain ⟨st, hst, -⟩ := hV
  rw [hst, Medium.upd_other hj]
  rcases hsame j with heq | ⟨hs, -⟩
  · rw [heq]
    exact hdead
  · exact absurd hdead hs.alive

/-- The stick of the configuration, as the installer lists it. -/
def stickTarget : MscTarget := ⟨1, 0, 0, 0, 1⟩

theorem installed_starts_small : ∃ (img img' : Img) (probes : List MscProbe) (bus : Sticks)
    (s : Site) (m' : Machine) (fuel : Nat) (pg : Pager UsbVolume),
    build smallParts (List.replicate (imgBytes - 2048 * sectorSize) 0) = some img ∧
    probeSticks (enumerate stickConfiguration) blankBus = (probes, bus) ∧
    Installer.installToUsb (enumerate stickConfiguration) probes 1 smallParts.dataLba
      smallParts.guid 7 (imageDrive img) bus 5 = s ∧
    boot (goodFirmware img') smallParts.stage2 fuel emptyMachine = (.ok (), m') ∧
    Usb.kmain (seen m'.mem pml4) bootinfo (some (imageDrive img)) (enumerate stickConfiguration)
      s.bus = some (.usb pg) ∧
    ∃ ids : List (Option RowId), ids.length = 2 ∧
      (history [.call (.createTable "t"), .call (.scan "t")] pg).1 =
        (Database.history ([.call (.createTable "t"), .call (.scan "t")].zip ids)
          []).1.map Outcome.ofExcept := by
  have hb := build_of_fits smallParts_fits smallVolume_length
  generalize (bootRegion smallParts).put (smallParts.dataLba * sectorSize)
    (List.replicate (imgBytes - 2048 * sectorSize) 0) = img at hb
  have ht : stickTarget ∈ mscTargets (enumerate stickConfiguration) := by decide
  have hfirst : blankBus stickTarget.slotIdx = blankStick := blankBus_first
  have hprompt : Prompt (imageDrive img) := by
    refine ⟨(carries_imageDrive img).calm, fun i => ?_⟩
    show i % 1000 ≤ 500000
    omega
  have hother : refuseIfSameDisk smallParts.guid
      (.ok ((blankBus stickTarget.slotIdx).medium.view 0).toList) = false := by
    rw [hfirst]
    decide +kernel
  have hroom : Journal.firstDataPage + 1 <
      ((blankBus stickTarget.slotIdx).sectors - smallParts.dataLba) / pageSectors := by
    rw [hfirst, smallParts_dataLba]
    decide
  have hsource : smallParts.dataLba ≤ (imageDrive img).sectors := by
    rw [smallParts_dataLba]
    show 2048 ≤ imgSectors
    decide
  have hmagic : hasBootMagic ((imageDrive img).medium.view 0).toList = true := by
    rw [(carries_imageDrive img).view 0 (by decide), sector_run]
    exact hasBootMagic_of_parse (parse_run hb isStage1_small)
  have hnew : makeRandomSysGuid 7 ≠ smallParts.guid := by decide +kernel
  rcases hprobe : probeSticks (enumerate stickConfiguration) blankBus with ⟨probes, bus⟩
  have hsound : (blankBus stickTarget.slotIdx).Sound := blankBus_sound
  have hpatient : ∀ k, (blankBus stickTarget.slotIdx).refuses k = none := fun k => by
    rw [hfirst]
    rfl
  obtain ⟨s, hinstall, hdone | ⟨j, -, -, k, hk⟩⟩ :=
    @install_probed (enumerate stickConfiguration) smallParts.dataLba stickTarget blankBus bus
      probes smallParts.guid (imageDrive img) 5 7 ht (fun t _ => blankBus_clear t.slotIdx) hsound
      hprobe hprompt hsource (dataLba_pos smallParts) hmagic hroom hother (by decide)
  · have hg : (makeRandomSysGuid 7).length = 16 := Installing.length_makeRandomSysGuid 7
    obtain ⟨vol', img', himg', hsame⟩ := image_of_complete hb (carries_imageDrive img) hg hdone
    obtain ⟨fuel, hfuel⟩ : ∃ n, n = 3 := ⟨3, rfl⟩
    have hstage1 : IsStage1 (smallParts.renamed (makeRandomSysGuid 7) hg).stage1 := isStage1_small
    have hstage2 : (smallParts.renamed (makeRandomSysGuid 7) hg).stage2.length ≤
        diagSecs * sectorSize := smallParts_stage2
    obtain ⟨m', fb, hrun, haddr, hover⟩ := goodFirmware_boots himg' hstage1 hstage2 hfuel
    have hreport : s.report.verifyMountOk = true := by rw [hdone.report]
    rcases installed_starts 7 hb isStage1_small ht (fun t _ => blankBus_clear t.slotIdx) hsound
      hprobe hprompt (carries_imageDrive img) hroom hother (by decide) hinstall hreport hnew
      (fun lba hlba => hsame lba hlba) rfl hrun ht (carries_imageDrive img)
      (rebooted_blank hprobe hdone.moved) with hzero | ⟨pg, hkmain, hlife⟩
    · rw [hover.read_seen, hover.info] at hzero
      exact absurd (UInt32.toNat_inj.mp hzero) haddr
    · obtain ⟨ids, hlen, -, hos⟩ := hlife [.call (.createTable "t"), .call (.scan "t")]
        ⟨trivial, trivial, trivial⟩
      exact ⟨img, img', probes, bus, s, m', fuel, pg, hb, rfl, hinstall, hrun, hkmain, ids,
        hlen, hos⟩
  · exact absurd (hpatient k) hk

end Start

end Boot

end TablesOS
