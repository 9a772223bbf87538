import TablesOS.Proofs.DiskContainment
import TablesOS.Proofs.StickProbe

/-!
# A store on a stick, from the probe on

The stick that carries the system id is found among the others on the bus, opened
behind the identity gate, let through by the gate of the kernel, and mounted. The
volume that some life of a store has left on it then answers every history as the
model does (`sticks_refine`).
-/

namespace TablesOS

open Fallible Medium

theorem Store.Mirrored.sectors_pos {led : Ledger RowId} {pg : Pager Disk}
    {db : Database RowId} (hm : Store.Mirrored led pg db) : 0 < pg.dev.sectors := by
  have hpages := hm.clean.fits.pages
  have hjournal := hm.clean.fits.journal
  simp only [Journal.firstDataPage, Journal.jdataStartPage, pageSectors] at hpages hjournal
  omega

namespace Usb

open Store

variable {devices : XhciState} {bus : Sticks} {t : MscTarget} {guid : List Byte} {dataLba : Nat}
  {v : UsbVolume} {d : Disk}

/-- The volume that is discovered stands where the disk does whose sectors the stick
holds behind the boot region. -/
theorem Sticks.Lone.discovered (h : bus.Lone guid t.slotIdx) (ht : t ∈ mscTargets devices)
    (hpos : 0 < dataLba) (hq : d.Quiet) (hsome : 0 < d.sectors)
    (hsize : (bus t.slotIdx).sectors = dataLba + d.sectors)
    (hview : ∀ lba, lba < d.sectors → (bus t.slotIdx).medium.view (dataLba + lba) = d.view lba) :
    ∃ v, discoverStick dataLba guid devices bus = some v ∧
      v.disk.dev.identityGate = some guid ∧ Plugged v d := by
  obtain ⟨bus', hprobe, hsame⟩ := probeSticks_run devices bus fun t' _ => h.clear t'.slotIdx
  have hdiscover := h.discover_run ht (show dataLba < (bus t.slotIdx).sectors by omega)
  have hs' := (hsame t.slotIdx).sound h.sound
  have hkeeps := (hsame t.slotIdx).keeps
  have hguid : guidOf ((bus t.slotIdx).medium.view 0).toList = guid := by
    have hbooted := h.booted
    simp only [isBooted, Bool.and_eq_true, beq_iff_eq] at hbooted
    exact hbooted.2
  have hsmall := h.sound.small
  have hrun : discoverStick dataLba guid devices bus =
      some ⟨⟨⟨t.slotId, (bus t.slotIdx).sectors, 512, 0xCAFE0000, some guid, false⟩, dataLba,
        (bus t.slotIdx).sectors - dataLba⟩, devices, bus'⟩ := by
    simp only [discoverStick, hprobe, hdiscover, Option.map_some]
  refine ⟨_, hrun, rfl, ?_, _, ⟨mem_mscTargets ht, hs'.calm, hkeeps.1.symm, hsmall, rfl⟩, hq,
    Nat.le_of_eq hsize.symm, ?_, ?_⟩
  · show (bus t.slotIdx).sectors - dataLba = d.sectors
    omega
  · intro guid' hg
    cases hg
    rw [hkeeps.2]
    exact ⟨hpos, hguid⟩
  · intro lba hlt
    rw [hkeeps.2]
    exact hview lba hlt

/-- The kernel's own identity gate lets the stick through. -/
theorem isSystemStick_run (h : Plugged v d) (hg : v.disk.dev.identityGate = some guid) :
    ∃ v', isSystemStick guid v = some v' ∧ Plugged v' d := by
  obtain ⟨pipe, hh⟩ := h.holds
  obtain ⟨hpos, hguid⟩ := hh.gate guid hg
  have hfit := hh.fit
  obtain ⟨bus', hrun, hmoved⟩ := readSector_run hh.reach (show 0 < v.disk.dev.sectors by omega)
  have hperform : UsbVolume.perform (.readBoot sector) v =
      (.ok ((v.bus pipe.slotIdx).medium.view 0).toList, v.after v.disk.dev.bumpTag bus') :=
    UsbVolume.perform_run hrun
  have hread : UsbVolume.readBootSector v =
      (.ok ((v.bus pipe.slotIdx).medium.view 0), v.after v.disk.dev.bumpTag bus') := by
    rw [UsbVolume.readBootSector, run_bind_ok hperform, run_pure, asSector_toList]
  refine ⟨_, ?_, UsbVolume.plugged_after h rfl
    (hh.next hmoved v.disk.dev.bumpTag.nextTag hh.quiet rfl (fun _ => rfl) hh.view)⟩
  rw [isSystemStick, hread]
  exact if_pos hguid

/-- What is discovered is mounted, and from then on answers as the model does. -/
theorem Sticks.Lone.mounted {led : Ledger RowId} {pg₀ : Pager Disk} {db : Database RowId}
    (hm : Mirrored led pg₀ db) (h : bus.Lone guid t.slotIdx) (ht : t ∈ mscTargets devices)
    (hpos : 0 < dataLba) (hsize : (bus t.slotIdx).sectors = dataLba + pg₀.dev.sectors)
    (hview : ∀ lba, lba < pg₀.dev.sectors →
      (bus t.slotIdx).medium.view (dataLba + lba) = pg₀.dev.view lba) :
    ∃ v pg, discoverStick dataLba guid devices bus = some v ∧
      mountVolume guid (.usb v) = some (.usb pg) ∧
      (∀ op, op.writes = false → led.Covers (.call op) → ∀ fresh,
          (run op pg₀).1 = Outcome.ofExcept (db.step fresh op).1) ∧
        ∀ es, HandedOut es led pg → ∃ ids : List (Option RowId), ids.length = es.length ∧
          Database.AllNew (es.zip ids) db ∧
          (history es pg).1 = (Database.history (es.zip ids) db).1.map Outcome.ofExcept := by
  have hsome := hm.sectors_pos
  obtain ⟨v, hdiscover, hgate, hplugged⟩ := h.discovered ht hpos hm.quiet hsome hsize hview
  obtain ⟨v', hsystem, hplugged'⟩ := isSystemStick_run hplugged hgate
  obtain ⟨pg, v'', hopen, hlife⟩ := stands_life plugged_stands hm hplugged'
  refine ⟨v, pg, hdiscover, ?_, hlife⟩
  rw [mountVolume, hsystem, Option.bind_some, hopen]

/-- No system disk on the ATA side; on the bus one stick carries the system id, with
the volume that some life of a store has left behind its boot region. The start
finds it, mounts it, and the store answers as the model does, from the tables that
were there. -/
theorem sticks_refine {d₀ : Disk} {led : Ledger RowId} {pg₀ : Pager Disk} {ata : Option Pio.Drive}
    (hq : d₀.Quiet) (hreach : Store.Reachable d₀ led pg₀)
    (hata : ata.bind (discoverPorts dataLba guid) = none) (ht : t ∈ mscTargets devices)
    (hlone : bus.Lone guid t.slotIdx) (hpos : 0 < dataLba)
    (hsize : (bus t.slotIdx).sectors = dataLba + pg₀.dev.sectors)
    (hview : ∀ lba, lba < pg₀.dev.sectors →
      (bus t.slotIdx).medium.view (dataLba + lba) = pg₀.dev.view lba) :
    ∃ v pg, discover dataLba guid ata devices bus = some (.usb v) ∧
      mountVolume guid (.usb v) = some (.usb pg) ∧
      ∃ db, (∀ op, op.writes = false → led.Covers (.call op) → ∀ fresh,
          (run op pg₀).1 = Outcome.ofExcept (db.step fresh op).1) ∧
        ∀ es, HandedOut es led pg → ∃ ids : List (Option RowId), ids.length = es.length ∧
          Database.AllNew (es.zip ids) db ∧
          (history es pg).1 = (Database.history (es.zip ids) db).1.map Outcome.ofExcept := by
  obtain ⟨db, hm⟩ := hreach.mirrored hq
  obtain ⟨v, pg, hdiscover, hmount, hlife⟩ := hlone.mounted hm ht hpos hsize hview
  refine ⟨v, pg, ?_, hmount, db, hlife⟩
  rw [discover, hata, hdiscover]
  rfl

/-- The configuration of a stick: one interface, two bulk endpoints. -/
def stickConfiguration : List Byte :=
  [9, 2, 32, 0, 1, 1, 0, 0x80, 50,
   9, 4, 0, 0, 2, 8, 6, 0x50, 0,  7, 5, 0x81, 2, 0, 2, 0,  7, 5, 2, 2, 0, 2, 0]

/-- A boot region of 64 sectors and the volume behind it. The stick refuses every other
write, and spoils every third status. -/
def shelfStick (V : Nat → Sector) : Stick where
  sectors := 64 + 2100 * pageSectors
  inquiry := List.replicate 36 0
  medium := ⟨fun lba => if lba = 0 then asSector stickMbr else V (lba - 64), []⟩
  stage := .waiting
  steps := 0
  refuses i := if i % 2 = 0 then some 6 else none
  spoils i := if i % 3 = 0 then some 4 else none

/-- The stick alone on its bus. -/
def shelfBus (V : Nat → Sector) : Sticks := fun i =>
  if i = 0 then shelfStick V else { shelfStick V with stage := .dead }

theorem shelfStick_sound (V : Nat → Sector) : (shelfStick V).Sound := by
  refine ⟨⟨rfl, fun n cc h => ?_, fun n h => ?_⟩, Nat.le_refl _, ?_, ?_⟩
  · simp only [shelfStick] at h
    split at h
    · cases h
      decide
    · cases h
  · simp only [shelfStick] at h ⊢
    rw [if_neg]
    by_contra hnext
    rw [if_neg (by omega)] at h
    exact h rfl
  · show 0 < 64 + 2100 * pageSectors
    decide
  · show 64 + 2100 * pageSectors ≤ 2 ^ 32
    decide

theorem shelfBus_lone (V : Nat → Sector) : (shelfBus V).Lone (guidOf stickMbr) 0 := by
  have hbooted : isBooted (guidOf stickMbr) (asSector stickMbr).toList = true := by decide +kernel
  have hview : (shelfBus V 0).medium.view = fun lba =>
      if lba = 0 then asSector stickMbr else V (lba - 64) := rfl
  have hfirst : (shelfBus V 0).medium.view 0 = asSector stickMbr := by
    rw [hview]
    exact if_pos rfl
  rw [← hfirst] at hbooted
  exact ⟨shelfStick_sound V, hbooted, fun j hj => .inl (by rw [shelfBus, if_neg hj])⟩

/-- Two notes are on the volume of the stick; the start finds them, and one is deleted. -/
theorem sticks_refine_notes : ∃ (a b : RowId) (pg₀ : Pager Disk) (v : UsbVolume)
    (pg : Pager UsbVolume), Store.Reachable wideDisk [("notes", a), ("notes", b)] pg₀ ∧
    discover 64 (guidOf stickMbr) none (enumerate stickConfiguration) (shelfBus pg₀.dev.view) =
      some (.usb v) ∧
    mountVolume (guidOf stickMbr) (.usb v) = some (.usb pg) ∧
    (run (.scan "notes") pg).1 =
      .ok (.rows [(a, [some (.str "a")]), (b, [some (.str "b")])]) ∧
    ∃ (db : Database RowId) (ids : List (Option RowId)), ids.length = 2 ∧
      (history [.call (.delete "notes" a), .call (.scan "notes")] pg).1 =
        (Database.history ([.call (.delete "notes" a), .call (.scan "notes")].zip ids)
          db).1.map Outcome.ofExcept := by
  obtain ⟨a, b, pg₀, hreach, hsectors, hscan⟩ :=
    notes_written wideDisk_quiet (by decide) (by decide)
  have hsize : pg₀.dev.sectors = 2100 * pageSectors := hsectors
  have ht : (⟨1, 0, 0, 0, 1⟩ : MscTarget) ∈ mscTargets (enumerate stickConfiguration) := by decide
  obtain ⟨v, pg, hdiscover, hmount, db, hreads, hes⟩ := @sticks_refine _ (shelfBus pg₀.dev.view) _ _
    64 _ _ _ none wideDisk_quiet hreach rfl ht (shelfBus_lone _) (by decide)
    (by rw [hsize]; rfl) (fun lba _ => by
      show (if 64 + lba = 0 then _ else pg₀.dev.view (64 + lba - 64)) = _
      rw [if_neg (by omega), Nat.add_sub_cancel_left])
  have hrows : (run (.scan "notes") pg).1 = (run (.scan "notes") pg₀).1 :=
    life_reads hreads hes rfl trivial
  obtain ⟨ids, hlen, -, hos⟩ := hes [.call (.delete "notes" a), .call (.scan "notes")]
    ⟨List.mem_cons_self, trivial, trivial⟩
  exact ⟨a, b, pg₀, v, pg, hreach, hdiscover, hmount, hrows.trans hscan, db, ids, hlen, hos⟩

end Usb

end TablesOS
