import TablesOS.Kernel.Installer
import TablesOS.Proofs.BootMedium
import TablesOS.Proofs.PortDriver
import TablesOS.Proofs.StickMount
import TablesOS.Proofs.StickRegion

/-!
# What an install leaves

The source drive is calm and prompt, the target a calm stick that may still refuse
a write. The copy is made in chunks, each of which lies on the stick or is refused
as a whole, and a refusal ends the install. So either the boot region of the source
is on the stick, with the new system id and an empty store behind it, and the
report says so; or the report says how far the copy got, and the stick holds that
much of it and is otherwise as it was (`install_ends`).
-/

namespace TablesOS

open Fallible Medium

/-! ## Reading the source -/

namespace Pio

variable {d : Drive} {lba : Nat}

/-- A drive that is not busy for longer than `read_sector_at` waits. -/
structure Prompt (d : Drive) : Prop where
  calm : Calm d
  delay : ∀ i, d.delay i ≤ slotPollLimit

/-- The loop of `read_sector_at` ends when the drive hands over a sector. -/
theorem slotLoop_run {n : Nat} : ∀ {d : Drive} {ws : List UInt16}, d.phase = .sending ws →
    d.busy < n → slotLoop n d = (.ok (), d.waited (d.busy + 1)) := by
  induction n with
  | zero => exact fun _ h => absurd h (Nat.not_lt_zero _)
  | succ n ih =>
      intro d ws hp hlt
      obtain ⟨s, hs, hzero, hbusy⟩ := readStatus_run d
      rw [slotLoop, run_bind_ok hs]
      by_cases hb : d.busy = 0
      · have hstatus : s = 0x58 := by
          rw [hzero hb, hp]
          rfl
        rw [hstatus, hb]
        rfl
      · obtain ⟨hbsy, herr⟩ := hbusy hb
        have hne : s ≠ 0xFF := by
          rintro rfl
          exact absurd herr (by decide)
        rw [if_neg hne, if_neg (not_not.mpr herr), if_neg fun h => busy_ne (hbsy.symm.trans h.1)]
        rw [ih (d := d.waited 1) hp (show d.busy - 1 < n by omega), Drive.waited_waited]
        congr 2
        show 1 + (d.busy - 1 + 1) = d.busy + 1
        omega

/-- The drive is as it was, and prompt. -/
structure Unmoved (d d' : Drive) : Prop where
  sectors : d'.sectors = d.sectors
  view : d'.medium.view = d.medium.view
  prompt : Prompt d'

theorem readSlot_run (h : Prompt d) (hlba : lba < d.sectors) :
    ∃ d', readSlot lba d = (.ok (d.medium.view lba), d') ∧ Unmoved d d' := by
  obtain ⟨w, ws, hwords, hlen⟩ := sectorWords_cons (d.medium.view lba)
  have hcommand := (command_aimed h.calm hlba).1
  rw [hwords] at hcommand
  generalize hd₁ : ((d.waited 4).aimed lba 1).begun (.sending (w :: ws)) = d₁ at hcommand
  have hbusy : d₁.busy ≤ slotPollLimit := by
    rw [← hd₁]
    exact h.delay _
  have hphase : d₁.phase = .sending (w :: ws) := by rw [← hd₁]; rfl
  have hloop := slotLoop_run hphase (Nat.lt_succ_of_le hbusy)
  have hread := readWords_run ws (d := d₁.waited (d₁.busy + 1)) hphase
  rw [hlen] at hread
  refine ⟨{ d₁.waited (d₁.busy + 1) with phase := .ready false }, ?_, ?_⟩
  · unfold readSlot
    rw [run_bind_ok (select_run h.calm.idle lba 1), run_bind_ok hcommand, run_bind_ok hloop,
      run_bind_ok hread, ← hwords, ofWords_sectorWords]
    rfl
  · subst hd₁
    refine ⟨rfl, rfl, ⟨h.calm.size, h.calm.delay, h.calm.works, rfl, ?_⟩, h.delay⟩
    exact Nat.sub_eq_zero_of_le (Nat.le_succ _)

theorem Unmoved.trans {d' d'' : Drive} (h : Unmoved d d') (h' : Unmoved d' d'') : Unmoved d d'' :=
  ⟨h'.sectors.trans h.sectors, h'.view.trans h.view, h'.prompt⟩

end Pio

/-! ## Writing runs of blocks -/

namespace Usb

variable {devices : XhciState} {bus : Sticks} {pipe : Pipe} {slotId : Byte}
  {V X : Nat → Sector} {lba n tag : Nat}

/-- The sectors `X` in the place of those from `lba` on. -/
def laid (V X : Nat → Sector) (lba n : Nat) : Nat → Sector := fun a =>
  if lba ≤ a ∧ a < lba + n then X a else V a

theorem blocksAt_succ (V : Nat → Sector) (lba n : Nat) :
    blocksAt V lba (n + 1) = (V lba).toList ++ blocksAt V (lba + 1) n := by
  simp [blocksAt, List.range_succ_eq_map, List.flatMap_map, Nat.add_comm, Nat.add_left_comm]

theorem block_blocksAt (V : Nat → Sector) : ∀ {k n : Nat} (lba : Nat), k < n →
    asSector (((blocksAt V lba n).drop (k * sectorSize)).take sectorSize) = V (lba + k) := by
  intro k
  induction k with
  | zero =>
      intro n lba hn
      obtain ⟨m, rfl⟩ := Nat.exists_eq_succ_of_ne_zero (Nat.ne_of_gt hn)
      rw [blocksAt_succ, Nat.zero_mul, List.drop_zero, List.take_left' (length_sector_toList _),
        asSector_toList, Nat.add_zero]
  | succ k ih =>
      intro n lba hn
      obtain ⟨m, rfl⟩ := Nat.exists_eq_succ_of_ne_zero (Nat.ne_of_gt (Nat.lt_of_le_of_lt
        (Nat.zero_le _) hn))
      rw [blocksAt_succ, Nat.succ_mul, Nat.add_comm, ← List.drop_drop,
        List.drop_left' (length_sector_toList _), ih (lba + 1) (Nat.lt_of_succ_lt_succ hn),
        Nat.add_assoc, Nat.add_comm 1]

/-- What the stick makes of a run of blocks. -/
theorem updAll_blockWrites (V X : Nat → Sector) (lba n : Nat) :
    updAll V (blockWrites lba (blocksAt X lba n) n) = laid V X lba n := by
  have hmem : ∀ w ∈ blockWrites lba (blocksAt X lba n) n, ∃ k < n, w = (lba + k, X (lba + k)) := by
    intro w hw
    obtain ⟨k, hk, rfl⟩ := List.mem_map.mp hw
    have hk := List.mem_range.mp hk
    exact ⟨k, hk, by rw [block_blocksAt X lba hk]⟩
  funext a
  unfold laid
  split
  · next ha =>
      refine updAll_mem (fun w hw hwa => ?_) (Or.inl ?_)
      · obtain ⟨k, -, rfl⟩ := hmem w hw
        rw [← hwa]
      · refine ⟨_, List.mem_map_of_mem (List.mem_range.mpr (show a - lba < n by omega)), ?_⟩
        show lba + (a - lba) = a
        omega
  · next ha =>
      refine updAll_other fun w hw hwa => ha ?_
      obtain ⟨k, hk, rfl⟩ := hmem w hw
      simp only at hwa
      omega

/-- A run of blocks is written or refused as a whole. -/
theorem mscWriteBlocks_served (hpipe : resolved devices slotId = .ok pipe)
    (hc : (bus pipe.slotIdx).Calm) (htag : tag < 2 ^ 32) (hlba : lba < 2 ^ 32) (hn : n < 2 ^ 16)
    (hfit : lba + n ≤ (bus pipe.slotIdx).sectors) (X : Nat → Sector) :
    ∃ bus', (MscM.onBus devices (mscWriteBlocks slotId lba n (blocksAt X lba n) tag) bus =
          (.ok (), bus') ∧
        Moved bus pipe.slotIdx (laid (bus pipe.slotIdx).medium.view X lba n) bus') ∨
      ((∃ e, MscM.onBus devices (mscWriteBlocks slotId lba n (blocksAt X lba n) tag) bus =
          (.error e, bus')) ∧
        Moved bus pipe.slotIdx (bus pipe.slotIdx).medium.view bus' ∧
        (bus pipe.slotIdx).refuses (bus pipe.slotIdx).steps ≠ none) := by
  have hlen : (blocksAt X lba n).length = n * sector := length_blocksAt X lba n
  have hresolve : MscM.onBus devices (mscWriteBlocks slotId lba n (blocksAt X lba n) tag) bus = _ :=
    onBus_resolve (Says.blocksThrough lba n (blocksAt X lba n) tag) (by decide) hpipe
  cases hr : (bus pipe.slotIdx).refuses (bus pipe.slotIdx).steps with
  | none =>
      have hrun : MscM.onBus devices
          (scsiWrite10 pipe 0 lba n sector (blocksAt X lba n) tag) bus = _ :=
        scsiWrite10_run 0 hc htag hlba hn hfit hlen hr
      generalize hs : ({ (bus pipe.slotIdx).over with medium := Stick.write _ _ } : Stick) = s
        at hrun
      refine ⟨upd bus pipe.slotIdx s, Or.inl ⟨hresolve.trans ?_, s, rfl, ?_⟩⟩
      · rw [onBus_bind_ok (.scsiWrite10 _ _ _ _ _ _)
          (fun status => Says.unlessFailed status _) (by decide) hrun, if_neg fun h => h rfl]
        rfl
      · subst hs
        exact ⟨rfl, rfl, rfl, rfl, rfl,
          (Stick.view_write _ _).trans (updAll_blockWrites _ X lba n)⟩
  | some cc =>
      have hrun : MscM.onBus devices
          (scsiWrite10 pipe 0 lba n sector (blocksAt X lba n) tag) bus = _ :=
        scsiWrite10_refused 0 hc htag hlba hn hlen hr
      refine ⟨upd bus pipe.slotIdx (bus pipe.slotIdx).over,
        Or.inr ⟨⟨"WRITE(10) CSW status != 0", hresolve.trans ?_⟩, moved_over bus, by simp⟩⟩
      rw [onBus_bind_ok (.scsiWrite10 _ _ _ _ _ _)
        (fun status => Says.unlessFailed status _) (by decide) hrun, if_pos (by decide),
        onBus_throw]

theorem laid_laid (V X : Nat → Sector) (lba n : Nat) :
    laid (laid V X 0 lba) X lba n = laid V X 0 (lba + n) := by
  funext a
  unfold laid
  by_cases hlow : a < lba
  · rw [if_neg (by omega), if_pos (by omega), if_pos (by omega)]
  · by_cases hhigh : a < lba + n
    · rw [if_pos (by omega), if_pos (by omega)]
    · rw [if_neg (by omega), if_neg (by omega), if_neg (by omega)]

theorem laid_zero (V X : Nat → Sector) : laid V X 0 0 = V := by
  funext a
  exact if_neg (by omega)

end Usb

/-! ## The copy -/

namespace Installer

open Usb Pio
open Installing (chunkStarts chunkSectors)

variable {devices : XhciState} {pipe : Pipe} {slotId : Byte} {guid : List Byte}
  {dataLba lba : Nat} {s₀ s s' : Site}

theorem readSlot_site (h : Prompt s.ata) (hlba : lba < s.ata.sectors) :
    ∃ ata, readSlot lba s = (.ok (s.ata.medium.view lba), { s with ata }) ∧
      Unmoved s.ata ata := by
  obtain ⟨ata, hread, hata⟩ := readSlot_run h hlba
  refine ⟨ata, ?_, hata⟩
  rw [readSlot, hread]

theorem readChunk_run (guid : List Byte) : ∀ (lbas : List Nat) {s : Site}, Prompt s.ata →
    (∀ lba ∈ lbas, lba < s.ata.sectors) →
    ∃ ata, readChunk guid lbas s = (.ok (lbas.flatMap fun lba =>
        (stamped guid lba (s.ata.medium.view lba)).toList), { s with ata }) ∧ Unmoved s.ata ata
  | [], s, h, _ => ⟨s.ata, rfl, rfl, rfl, h⟩
  | lba :: lbas, s, h, hlt => by
      obtain ⟨ata₁, hread, h₁⟩ := readSlot_site h (hlt lba List.mem_cons_self)
      obtain ⟨ata₂, hrest, h₂⟩ := readChunk_run guid lbas (s := { s with ata := ata₁ }) h₁.prompt
        fun lba' hlba' => by
          show lba' < ata₁.sectors
          rw [h₁.sectors]
          exact hlt lba' (List.mem_cons_of_mem _ hlba')
      refine ⟨ata₂, ?_, h₁.trans h₂⟩
      rw [readChunk, run_bind_ok hread, run_bind_ok hrest, run_pure]
      simp only [h₁.view, List.flatMap_cons]

theorem writeBlocks_ok {n : Nat} {data : List Byte} {bus' : Sticks}
    (h : MscM.onBus devices (mscWriteBlocks slotId lba n data s.mscTag) s.bus = (.ok (), bus')) :
    writeBlocks devices slotId lba n data s = (.ok (), { s with
      bus := bus', mscTag := nextTag s.mscTag,
      report := { s.report with sectorsCopied := lba + n } }) := by
  rw [writeBlocks, h]

theorem writeBlocks_error {n : Nat} {data : List Byte} {bus' : Sticks} {e : String}
    (h : MscM.onBus devices (mscWriteBlocks slotId lba n data s.mscTag) s.bus = (.error e, bus')) :
    writeBlocks devices slotId lba n data s =
      (.error (), { s with bus := bus', mscTag := nextTag s.mscTag }) := by
  rw [writeBlocks, h]

/-- What the copy puts on the target. -/
def source (guid : List Byte) (V : Nat → Sector) : Nat → Sector := fun lba =>
  stamped guid lba (V lba)

/-- The first `lba` sectors are copied, and nothing else is done. -/
structure Copied (guid : List Byte) (i : Nat) (s₀ : Site) (lba : Nat) (s : Site) : Prop where
  ata : Unmoved s₀.ata s.ata
  moved : Moved s₀.bus i
    (laid (s₀.bus i).medium.view (source guid s₀.ata.medium.view) 0 lba) s.bus
  report : s.report = { s₀.report with sectorsCopied := lba }
  tag : s.mscTag < 2 ^ 32

/-- A round of the copy, or its end. -/
theorem copyChunk_run (hpipe : resolved devices slotId = .ok pipe)
    (hc : (s₀.bus pipe.slotIdx).Calm) (h : Copied guid pipe.slotIdx s₀ lba s)
    (hlt : lba < dataLba) (hsource : dataLba ≤ s₀.ata.sectors)
    (htarget : dataLba ≤ (s₀.bus pipe.slotIdx).sectors) (hsmall : dataLba ≤ 2 ^ 32) :
    ∃ s', (copyChunk devices slotId dataLba guid lba s = (.ok (), s') ∧
        Copied guid pipe.slotIdx s₀ (lba + min chunkSectors (dataLba - lba)) s') ∨
      (copyChunk devices slotId dataLba guid lba s = (.error (), s') ∧
        Copied guid pipe.slotIdx s₀ lba s' ∧ ∃ k, (s₀.bus pipe.slotIdx).refuses k ≠ none) := by
  have hle : lba + min chunkSectors (dataLba - lba) ≤ dataLba := by
    simp only [chunkSectors]
    omega
  have hn : min chunkSectors (dataLba - lba) < 2 ^ 16 :=
    Nat.lt_of_le_of_lt (Nat.min_le_left _ _) (by decide)
  have hchunk : copyChunk devices slotId dataLba guid lba =
      (readChunk guid ((List.range (min chunkSectors (dataLba - lba))).map (lba + ·)) >>=
        writeBlocks devices slotId lba (min chunkSectors (dataLba - lba))) := rfl
  rw [hchunk]
  generalize min chunkSectors (dataLba - lba) = n at hle hn ⊢
  have hV := h.ata.view
  have hS := h.ata.sectors
  obtain ⟨ata, hread, hata⟩ := readChunk_run guid ((List.range n).map (lba + ·)) h.ata.prompt
    fun lba' hlba' => by
      obtain ⟨k, hk, rfl⟩ := List.mem_map.mp hlba'
      have hk := List.mem_range.mp hk
      omega
  rw [List.flatMap_map, hV] at hread
  have hlater := h.moved.later
  obtain ⟨bus', hwrite⟩ := mscWriteBlocks_served hpipe (hlater.calm hc) h.tag
    (show lba < 2 ^ 32 by omega) hn (by rw [hlater.sectors]; omega)
    (source guid s₀.ata.medium.view)
  rw [hlater.view, laid_laid] at hwrite
  rcases hwrite with ⟨hrun, hmoved⟩ | ⟨⟨e, hrun⟩, hmoved, hrefuses⟩
  · have hdone := writeBlocks_ok (s := { s with ata }) hrun
    refine ⟨_, Or.inl ⟨(run_bind_ok hread).trans hdone, h.ata.trans hata, h.moved.trans hmoved, ?_,
      nextTag_lt _⟩⟩
    show { s.report with sectorsCopied := lba + n } = _
    rw [h.report]
  · have hdone := writeBlocks_error (s := { s with ata }) hrun
    rw [hlater.refuses] at hrefuses
    exact ⟨_, Or.inr ⟨(run_bind_ok hread).trans hdone, ⟨h.ata.trans hata, h.moved.trans hmoved,
      h.report, nextTag_lt _⟩, _, hrefuses⟩⟩

/-- The rounds from the `k`-th on. -/
theorem copy_run (hpipe : resolved devices slotId = .ok pipe) (hc : (s₀.bus pipe.slotIdx).Calm)
    (hsource : dataLba ≤ s₀.ata.sectors) (htarget : dataLba ≤ (s₀.bus pipe.slotIdx).sectors)
    (hsmall : dataLba ≤ 2 ^ 32) : ∀ (r k : Nat) {s : Site}, k + r = (dataLba + 63) / 64 →
      Copied guid pipe.slotIdx s₀ (min (k * chunkSectors) dataLba) s →
      ∃ s', (((List.range' k r).map (· * chunkSectors)).forM
            (copyChunk devices slotId dataLba guid) s = (.ok (), s') ∧
          Copied guid pipe.slotIdx s₀ dataLba s') ∨
        (((List.range' k r).map (· * chunkSectors)).forM
            (copyChunk devices slotId dataLba guid) s = (.error (), s') ∧
          ∃ j, j * chunkSectors < dataLba ∧ Copied guid pipe.slotIdx s₀ (j * chunkSectors) s' ∧
            ∃ k, (s₀.bus pipe.slotIdx).refuses k ≠ none)
  | 0, k, s, hk, h => by
      rw [Nat.min_eq_right (by simp only [chunkSectors]; omega)] at h
      exact ⟨s, Or.inl ⟨rfl, h⟩⟩
  | r + 1, k, s, hk, h => by
      have hlt : k * 64 < dataLba := by omega
      rw [Nat.min_eq_left (Nat.le_of_lt hlt)] at h
      obtain ⟨s₁, ⟨hrun, h₁⟩ | ⟨hrun, h₁⟩⟩ := copyChunk_run hpipe hc h hlt hsource htarget hsmall
      · have hnext : k * chunkSectors + min chunkSectors (dataLba - k * chunkSectors) =
            min ((k + 1) * chunkSectors) dataLba := by
          simp only [chunkSectors]
          omega
        rw [hnext] at h₁
        obtain ⟨s', ⟨hrest, h'⟩ | ⟨hrest, h'⟩⟩ := copy_run hpipe hc hsource htarget hsmall r (k + 1)
          (by omega) h₁
        · exact ⟨s', Or.inl ⟨(run_bind_ok hrun).trans hrest, h'⟩⟩
        · exact ⟨s', Or.inr ⟨(run_bind_ok hrun).trans hrest, h'⟩⟩
      · exact ⟨s₁, Or.inr ⟨run_bind_error hrun, k, hlt, h₁⟩⟩

/-! ## The boot sector -/

theorem stamped_run (hg : guid.length = 16) (x : Sector) :
    guidOf (stamped guid 0 x).toList = guid ∧
      hasBootMagic (stamped guid 0 x).toList = hasBootMagic x.toList := by
  have hput : stamped guid 0 x = x.put 0x1DC guid := if_pos rfl
  have hmagic : ∀ y : Sector, (y.toList.drop 0x1B0).take 8 = y.slice 0x1B0 8 := fun y => by
    rw [Buf.toList, Buf.take_drop_slice (by decide), Nat.zero_add]
  rw [hput]
  refine ⟨?_, ?_⟩
  · have hself : (x.put 0x1DC guid).slice 0x1DC guid.length = guid :=
      Buf.slice_put_self (by rw [hg]; decide)
    rw [hg] at hself
    rw [guidOf, Buf.toList, Buf.take_drop_slice (by decide), Nat.zero_add]
    exact hself
  · rw [hasBootMagic, hasBootMagic, hmagic, hmagic, Buf.slice_put_disjoint (by rw [hg]; decide)]

/-! ## Behind the copy -/

section Behind

open Store

variable {probes : List MscProbe} {dev : UsbMscDevice} {α : Type}

theorem onDevice_run {m : DeviceM α} {r : Except StoreError α} {dev' : UsbMscDevice}
    {bus' : Sticks} (h : m.onBus devices dev s.bus = ((r, dev'), bus')) :
    onDevice devices dev m s = (.ok (r, dev'), { s with bus := bus' }) := by
  rw [onDevice, h]

theorem onVolume_run {sectors : Nat} {m : DevM (BaseOffsetDevice UsbDrive) α}
    {r : Except StoreError α} {e : BaseOffsetDevice UsbDrive}
    (h : m (behind devices dev s.bus dataLba sectors) = (r, e)) :
    onVolume devices dev dataLba sectors m s = (.ok r, { s with bus := e.inner.bus }) := by
  rw [onVolume, h]

theorem ready_behind {bus : Sticks} {sectors : Nat} (h : InReach devices pipe dev bus)
    (hgate : dev.identityGate = none) (hfit : dataLba + sectors = dev.sectors) :
    Ready pipe (behind devices dev bus dataLba sectors) ∧
      (behind devices dev bus dataLba sectors).sectors = sectors := by
  have hsmall := h.small
  have hmod : sectors % 2 ^ 64 = sectors := Nat.mod_eq_of_lt (by omega)
  refine ⟨⟨h, hgate, ?_⟩, hmod⟩
  show dataLba + sectors % 2 ^ 64 ≤ dev.sectors
  rw [hmod]
  exact Nat.le_of_eq hfit

/-- A new system is checked and found to be there. -/
theorem verify_run {pg₀ : Pager Disk} {sectors : Nat}
    (hopen : UsbMscDevice.open probes slotId = .ok dev) (h : InReach devices pipe dev s.bus)
    (hgate : dev.identityGate = none) (hfit : dataLba + sectors = dev.sectors)
    (hpos : 0 < dataLba) (hboot : hasBootMagic ((s.bus pipe.slotIdx).medium.view 0).toList = true)
    (hguid : guidOf ((s.bus pipe.slotIdx).medium.view 0).toList = guid) (hclean : pg₀.Clean)
    (hq : pg₀.dev.Quiet) (hsectors : pg₀.dev.sectors = sectors)
    (hview : ∀ lba < pg₀.dev.sectors,
      (s.bus pipe.slotIdx).medium.view (dataLba + lba) = pg₀.dev.view lba) :
    ∃ bus', verify devices probes slotId dataLba sectors guid s = (.ok (), { s with
        bus := bus', report := { s.report with verifyMbrOk := true, verifyMountOk := true } }) ∧
      Left s.bus pipe.slotIdx dataLba pg₀.dev bus' := by
  obtain ⟨bus₁, hread, hmoved⟩ := readSector_run h (show 0 < dev.sectors by omega)
  have h₁ : InReach devices pipe dev.bumpTag bus₁ := h.next hmoved dev.bumpTag.nextTag
  have hview₁ := hmoved.later.view
  obtain ⟨hready, hcount⟩ := ready_behind h₁ hgate hfit
  obtain ⟨pg, e, hmount, hleft⟩ := open_part hready hclean hq (hsectors.trans hcount.symm)
    fun lba hlt => by
      show (bus₁ pipe.slotIdx).medium.view (dataLba + lba) = _
      rw [hview₁]
      exact hview lba hlt
  refine ⟨e.inner.bus, ?_, hleft.since hmoved⟩
  have hok : (hasBootMagic ((s.bus pipe.slotIdx).medium.view 0).toList &&
      guidOf ((s.bus pipe.slotIdx).medium.view 0).toList == guid) = true := by
    rw [hboot, hguid, beq_self_eq_true]
    rfl
  rw [verify, hopen]
  dsimp only
  rw [run_bind_ok (onDevice_run hread)]
  dsimp only
  rw [hok]
  refine (run_bind_ok rfl).trans ?_
  rw [if_neg (by decide)]
  exact (run_bind_ok (onVolume_run (s := { s with
    bus := bus₁, report := { s.report with verifyMbrOk := true } }) hmount)).trans rfl

/-- The volume is formatted, and the new system is checked. -/
theorem formatVolume_run {t : Nat} (hopen : UsbMscDevice.open probes slotId = .ok dev)
    (h : InReach devices pipe dev s.bus) (hgate : dev.identityGate = none) (hpos : 0 < dataLba)
    (hroom : Journal.firstDataPage + 1 < (dev.sectors - dataLba) / pageSectors)
    (hboot : hasBootMagic ((s.bus pipe.slotIdx).medium.view 0).toList = true)
    (hguid : guidOf ((s.bus pipe.slotIdx).medium.view 0).toList = guid) :
    ∃ d₀ pg₀ bus', d₀.Quiet ∧ formatStore d₀ = (.ok pg₀, pg₀.dev) ∧
      pg₀.dev.sectors = dev.sectors - dataLba ∧
      formatVolume devices probes slotId dataLba guid (dev.tagged t) s = (.ok (), { s with
        bus := bus', report := { s.report with
          volumeSectors := dev.sectors - dataLba, verifyMbrOk := true, verifyMountOk := true } }) ∧
      Left s.bus pipe.slotIdx dataLba pg₀.dev bus' := by
  have hfit : dataLba + (dev.sectors - dataLba) = dev.sectors := by
    simp only [pageSectors] at hroom
    omega
  obtain ⟨bus₁, hflush, hmoved⟩ := flush_run (h.next (.refl h.calm.waiting) t)
  have h₁ : InReach devices pipe (dev.tagged t).bumpTag bus₁ := h.next hmoved _
  obtain ⟨hready, hcount⟩ := ready_behind h₁ hgate hfit
  rw [← hcount] at hroom
  obtain ⟨d₀, pg₀, pg, e, hq, hrun, hsectors, hformat, hleft⟩ := format_part hready hroom
  rw [hcount] at hsectors
  have hleft₁ : Left s.bus pipe.slotIdx dataLba pg₀.dev e.inner.bus := hleft.since hmoved
  obtain ⟨V, hV⟩ := hleft₁.moved
  have h₂ : InReach devices pipe dev e.inner.bus := h.next hV dev.nextTag
  obtain ⟨hboot₂, hguid₂⟩ : hasBootMagic ((e.inner.bus pipe.slotIdx).medium.view 0).toList = true ∧
      guidOf ((e.inner.bus pipe.slotIdx).medium.view 0).toList = guid := by
    rw [hleft₁.front 0 hpos]
    exact ⟨hboot, hguid⟩
  obtain ⟨hclean, hq₀⟩ : pg₀.Clean ∧ pg₀.dev.Quiet := by
    have hm := format_mirrored hq hrun
    exact ⟨hm.clean, hm.quiet⟩
  obtain ⟨bus₃, hverify, hleft₃⟩ := verify_run (s := { s with
    bus := e.inner.bus, report := { s.report with volumeSectors := dev.sectors - dataLba } })
    hopen h₂ hgate hfit hpos hboot₂ hguid₂ hclean hq₀ hsectors hleft₁.volume
  obtain ⟨W, hW⟩ := hleft₃.moved
  refine ⟨d₀, pg₀, bus₃, hq, hrun, hsectors, ?_, ⟨W, hV.trans hW⟩, fun lba hlt => ?_,
    hleft₃.volume⟩
  · have hvolume := onVolume_run (s := { s with
      bus := bus₁, report := { s.report with volumeSectors := dev.sectors - dataLba } }) hformat
    have hrecord : record (fun r => { r with volumeSectors := dev.sectors - dataLba })
        { s with bus := bus₁ } = (.ok (), { s with
          bus := bus₁, report := { s.report with volumeSectors := dev.sectors - dataLba } }) := rfl
    rw [formatVolume, run_bind_ok (onDevice_run hflush)]
    exact (run_bind_ok hrecord).trans ((run_bind_ok hvolume).trans hverify)
  · rw [hleft₃.front lba hlt]
    exact hleft₁.front lba hlt

/-- The boot region of the source is on the target, under a system id of its own, and
behind it a store that has just been formatted; and the report says so. -/
structure Complete (guid : List Byte) (dataLba i : Nat) (s s' : Site) : Prop where
  ata : Unmoved s.ata s'.ata
  moved : ∃ V, Moved s.bus i V s'.bus
  report : s'.report = { s.report with
    sectorsCopied := dataLba, volumeSectors := (s.bus i).sectors - dataLba,
    verifyMbrOk := true, verifyMountOk := true }
  region : ∀ lba < dataLba, (s'.bus i).medium.view lba = source guid s.ata.medium.view lba
  volume : ∃ (d₀ : Disk) (pg₀ : Pager Disk), d₀.Quiet ∧ formatStore d₀ = (.ok pg₀, pg₀.dev) ∧
    pg₀.dev.sectors = (s.bus i).sectors - dataLba ∧
    ∀ lba < pg₀.dev.sectors, (s'.bus i).medium.view (dataLba + lba) = pg₀.dev.view lba

theorem install_run {booted : List Byte} (hopen : UsbMscDevice.open probes slotId = .ok dev)
    (hslot : dev.slotId = slotId) (h : InReach devices pipe dev s.bus)
    (hgate : dev.identityGate = none) (hata : Prompt s.ata) (hsource : dataLba ≤ s.ata.sectors)
    (hpos : 0 < dataLba) (hroom : Journal.firstDataPage + 1 < (dev.sectors - dataLba) / pageSectors)
    (hboot : hasBootMagic (s.ata.medium.view 0).toList = true)
    (hother : refuseIfSameDisk booted (.ok ((s.bus pipe.slotIdx).medium.view 0).toList) = false)
    (hg : guid.length = 16) (htag : s.mscTag < 2 ^ 32) (hfresh : s.report.sectorsCopied = 0) :
    ∃ s', (install devices probes slotId dataLba booted guid s = (.ok (), s') ∧
        Complete guid dataLba pipe.slotIdx s s') ∨
      (install devices probes slotId dataLba booted guid s = (.error (), s') ∧
        ∃ j, j * chunkSectors < dataLba ∧
          Copied guid pipe.slotIdx s (j * chunkSectors) s' ∧
            ∃ k, (s.bus pipe.slotIdx).refuses k ≠ none) := by
  have hpages : Journal.firstDataPage + 1 < (dev.sectors - dataLba) / 8 := hroom
  have hsmall := h.small
  have hfits : ¬ dev.sectors < dataLba + Installing.minVolumeSectors := by
    show ¬ dev.sectors < dataLba + (Journal.firstDataPage + 1) * 8
    omega
  have hle : dataLba ≤ (s.bus pipe.slotIdx).sectors := by
    rw [← h.sectors]
    omega
  obtain ⟨bus₁, hread, hmoved⟩ := readSector_run h (show 0 < dev.sectors by omega)
  have hstart : Copied guid pipe.slotIdx s (min (0 * chunkSectors) dataLba)
      { s with bus := bus₁ } := by
    rw [Nat.zero_mul, Nat.zero_min]
    refine ⟨⟨rfl, rfl, hata⟩, ?_, ?_, htag⟩
    · rw [laid_zero]
      exact hmoved
    · show s.report = { s.report with sectorsCopied := 0 }
      rw [← hfresh]
  have hpipe : resolved devices slotId = .ok pipe := by
    rw [← hslot]
    exact h.resolves
  have hrounds : chunkStarts dataLba =
      (List.range' 0 ((dataLba + 63) / 64)).map (· * chunkSectors) := by
    rw [chunkStarts, List.range_eq_range']
    rfl
  have hinstall : install devices probes slotId dataLba booted guid s =
      ((chunkStarts dataLba).forM (copyChunk devices slotId dataLba guid) >>= fun _ =>
        formatVolume devices probes slotId dataLba guid dev.bumpTag) { s with bus := bus₁ } := by
    rw [install, hopen]
    dsimp only
    rw [if_neg hfits, run_bind_ok (onDevice_run hread)]
    exact run_if_neg (by rw [hother]; exact Bool.false_ne_true) _ _ _
  rw [hinstall, hrounds]
  obtain ⟨s₂, ⟨hcopy, h₂⟩ | ⟨hcopy, j, hj, h₂⟩⟩ := copy_run hpipe h.calm hsource hle
    (by omega) ((dataLba + 63) / 64) 0 (Nat.zero_add _) hstart
  · have hcopied : ∀ lba < dataLba, (s₂.bus pipe.slotIdx).medium.view lba =
        source guid s.ata.medium.view lba := by
      intro lba hlt
      rw [h₂.moved.later.view]
      exact if_pos ⟨Nat.zero_le _, by omega⟩
    obtain ⟨hguid, hmagic⟩ := stamped_run hg (s.ata.medium.view 0)
    have hfirst : (s₂.bus pipe.slotIdx).medium.view 0 = stamped guid 0 (s.ata.medium.view 0) :=
      hcopied 0 hpos
    obtain ⟨d₀, pg₀, bus', hq, hrun, hsectors, hformat, hleft⟩ := formatVolume_run
      (t := dev.bumpTag.nextTag) hopen (h.next h₂.moved dev.nextTag) hgate hpos hroom
      (hfirst ▸ hmagic.trans hboot) (hfirst ▸ hguid)
    obtain ⟨V, hV⟩ := hleft.moved
    have hall : (_ >>= fun _ =>
        formatVolume devices probes slotId dataLba guid dev.bumpTag) _ = _ :=
      (run_bind_ok hcopy).trans hformat
    refine ⟨_, Or.inl ⟨hall, h₂.ata, ⟨V, h₂.moved.trans hV⟩, ?_, fun lba hlt => ?_, d₀, pg₀, hq,
      hrun, ?_, hleft.volume⟩⟩
    · rw [h₂.report, h.sectors]
    · exact (hleft.front lba hlt).trans (hcopied lba hlt)
    · rw [hsectors, h.sectors]
  · exact ⟨s₂, Or.inr ⟨run_bind_error hcopy, j, hj, h₂⟩⟩

end Behind

/-! ## The install -/

section Whole

variable {t : MscTarget} {bus₀ bus : Sticks} {probes : List MscProbe} {booted : List Byte}
  {ata : Drive} {mscTag : Nat}

/-- The install as it begins. -/
def begun (slotId : Byte) (guid : List Byte) (ata : Drive) (bus : Sticks) (mscTag : Nat) : Site :=
  ⟨⟨slotId, 0, 0, guid, false, false⟩, ata, bus, mscTag⟩

section Chosen

variable (tsc : UInt64) (ht : t ∈ mscTargets devices)
  (hclear : ∀ t ∈ mscTargets devices, (bus₀ t.slotIdx).Clear) (hs : (bus₀ t.slotIdx).Sound)
  (hprobe : probeSticks devices bus₀ = (probes, bus)) (hata : Prompt ata)
  (hsource : dataLba ≤ ata.sectors) (hpos : 0 < dataLba)
  (hboot : hasBootMagic (ata.medium.view 0).toList = true)
  (hroom : Journal.firstDataPage + 1 < ((bus₀ t.slotIdx).sectors - dataLba) / pageSectors)
  (hother : refuseIfSameDisk booted (.ok ((bus₀ t.slotIdx).medium.view 0).toList) = false)
  (htag : mscTag < 2 ^ 32)

include ht hclear hs hprobe hata hsource hpos hboot hroom hother htag

theorem install_probed :
    ∃ s', installToUsb devices probes t.slotId dataLba booted tsc ata bus mscTag = s' ∧
      (Complete (makeRandomSysGuid tsc) dataLba t.slotIdx
          (begun t.slotId (makeRandomSysGuid tsc) ata bus mscTag) s' ∨
        ∃ j, j * chunkSectors < dataLba ∧
          Copied (makeRandomSysGuid tsc) t.slotIdx
            (begun t.slotId (makeRandomSysGuid tsc) ata bus mscTag) (j * chunkSectors) s' ∧
          ∃ k, (bus₀ t.slotIdx).refuses k ≠ none) := by
  obtain ⟨bus', hrun, hsame⟩ := probeSticks_run devices bus₀ hclear
  rw [hprobe] at hrun
  obtain ⟨rfl, rfl⟩ := Prod.mk.inj hrun
  have hs' := (hsame t.slotIdx).sound hs
  obtain ⟨hsectors, hview⟩ := (hsame t.slotIdx).keeps
  have hreach : InReach devices ⟨t.slotIdx, t.bulkInIdx, t.bulkOutIdx⟩
      ⟨t.slotId, (bus₀ t.slotIdx).sectors, 512, 0xCAFE0000, none, false⟩ bus :=
    ⟨mem_mscTargets ht, hs'.calm, hsectors.symm, hs.small, rfl⟩
  rw [← hview] at hother
  rw [← (hsame t.slotIdx).refuses]
  obtain ⟨s', ⟨hend, h'⟩ | ⟨hend, h'⟩⟩ := install_run
    (s := begun t.slotId (makeRandomSysGuid tsc) ata bus mscTag) (open_shown ht hs) rfl hreach rfl
    hata hsource hpos hroom hboot hother (Installing.length_makeRandomSysGuid tsc) htag rfl
  · exact ⟨s', congrArg Prod.snd hend, Or.inl h'⟩
  · exact ⟨s', congrArg Prod.snd hend, Or.inr h'⟩

/-- The sticks have been probed, and the user has chosen one that has room and is not
the booted disk. Then either the new system is complete and the report says so, or
the stick refused a chunk: the report says how far the copy got, and that much of it
is on the stick and nothing else is changed. -/
theorem install_ends :
    Complete (makeRandomSysGuid tsc) dataLba t.slotIdx
        (begun t.slotId (makeRandomSysGuid tsc) ata bus mscTag)
        (installToUsb devices probes t.slotId dataLba booted tsc ata bus mscTag) ∨
      ∃ j, j * chunkSectors < dataLba ∧
        Copied (makeRandomSysGuid tsc) t.slotIdx
          (begun t.slotId (makeRandomSysGuid tsc) ata bus mscTag) (j * chunkSectors)
          (installToUsb devices probes t.slotId dataLba booted tsc ata bus mscTag) ∧
        ∃ k, (bus₀ t.slotIdx).refuses k ≠ none := by
  obtain ⟨s', hend, h⟩ := install_probed tsc ht hclear hs hprobe hata hsource hpos hboot hroom
    hother htag
  rw [hend]
  exact h

end Chosen

/-- A stick with nothing on it, which refuses nothing. -/
def blankStick : Stick where
  sectors := 131072
  inquiry := List.replicate 36 0
  medium := ⟨fun _ => Buf.zero sectorSize, []⟩
  stage := .waiting
  steps := 0
  refuses _ := none
  spoils i := if i % 3 = 0 then some 4 else none

/-- The stick alone on its bus. -/
def blankBus : Sticks := fun i => if i = 0 then blankStick else { blankStick with stage := .dead }

theorem blankStick_sound : blankStick.Sound := by
  refine ⟨⟨rfl, fun n cc h => ?_, fun n h => absurd rfl h⟩, Nat.le_refl _, ?_, ?_⟩
  · simp only [blankStick] at h
    split at h
    · cases h
      decide
    · cases h
  · show 0 < 131072
    decide
  · show 131072 ≤ 2 ^ 32
    decide

theorem blankBus_first : blankBus 0 = blankStick := if_pos rfl

theorem blankBus_sound : (blankBus 0).Sound := by
  rw [blankBus_first]
  exact blankStick_sound

theorem blankBus_clear (i : Nat) : (blankBus i).Clear := by
  by_cases hi : i = 0
  · rw [hi]
    exact .inr blankBus_sound
  · rw [blankBus, if_neg hi]
    exact .inl rfl

/-- A drive that shows the boot sector everywhere, busy for a while with every step. -/
def bootDrive : Drive := Store.shelfDrive fun _ => asSector stickMbr

theorem install_ends_blank : ∃ probes bus,
    probeSticks (enumerate stickConfiguration) blankBus = (probes, bus) ∧
    Complete (makeRandomSysGuid 7) 64 0 (begun 1 (makeRandomSysGuid 7) bootDrive bus 5)
      (installToUsb (enumerate stickConfiguration) probes 1 64 (guidOf stickMbr) 7 bootDrive bus
        5) := by
  have ht : (⟨1, 0, 0, 0, 1⟩ : MscTarget) ∈ mscTargets (enumerate stickConfiguration) := by decide
  have hboot : hasBootMagic (bootDrive.medium.view 0).toList = true := by
    have hsource : ∀ x, (Store.shelfDrive fun _ => x).medium.view 0 = x := fun _ => rfl
    rw [bootDrive, hsource]
    decide +kernel
  have hprompt : Prompt bootDrive := by
    refine ⟨Store.calm_shelfDrive _, fun i => ?_⟩
    show i % 1000 ≤ 500000
    omega
  have hother : refuseIfSameDisk (guidOf stickMbr)
      (.ok ((blankBus 0).medium.view 0).toList) = false := by
    rw [blankBus_first]
    decide +kernel
  have hroom : Journal.firstDataPage + 1 < ((blankBus 0).sectors - 64) / pageSectors := by
    rw [blankBus_first]
    decide
  rcases h : probeSticks (enumerate stickConfiguration) blankBus with ⟨probes, bus⟩
  refine ⟨probes, bus, rfl, ?_⟩
  rcases @install_ends (enumerate stickConfiguration) 64 ⟨1, 0, 0, 0, 1⟩ blankBus bus probes
    (guidOf stickMbr) bootDrive 5 7 ht (fun t _ => blankBus_clear t.slotIdx)
    blankBus_sound h hprompt (by show 64 ≤ 64 + 2100 * pageSectors; decide)
    (by decide) hboot hroom hother (by decide) with hdone | ⟨j, -, -, k, hk⟩
  · exact hdone
  · exact absurd rfl hk

end Whole

end Installer

end TablesOS
