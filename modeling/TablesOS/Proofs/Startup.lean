import TablesOS.Kernel.Startup
import TablesOS.Proofs.Handover
import TablesOS.Proofs.PortDriver

/-!
# From the image to the store

The builder, the boot stages, the kernel's start, the driver and the store, one
behind the other: an image that was built around the volume of some life of a
store is booted, and the kernel has that store.
-/

namespace TablesOS

namespace Boot

open Fallible Pio Store Usb

variable {p : Parts} {img : Img} {vol : List Byte}

/-- `snapshot`: the sectors of a device, one behind the other. -/
def snapshot (d : Disk) : List Byte :=
  (Buf.join d.view : Buf (d.sectors * sectorSize)).toList

/-- A sector of the volume on the image. -/
theorem volume_sector {d : Disk} (himg : build p (snapshot d) = some img) {lba : Nat}
    (h : lba < d.sectors) : img.sector (p.dataLba + lba) = d.view lba := by
  have hvol := volume_slice himg
  have hlen : (snapshot d).length = d.sectors * sectorSize := Buf.length_toList _
  have hend : (lba + 1) * sectorSize ≤ d.sectors * sectorSize := Nat.mul_le_mul_right _ h
  have himgend : p.dataLba * sectorSize + (snapshot d).length ≤ imgBytes := by
    rw [(build_eq himg).2.1, Nat.add_sub_cancel' (dataLba_le (build_eq himg).1)]
  rw [Nat.succ_mul] at hend
  ext j hj
  have hget := congrArg (fun bs : List Byte => bs.getD (lba * sectorSize + j) 0) hvol
  simp only [Buf.getD_slice (show lba * sectorSize + j < (snapshot d).length by omega)] at hget
  have hplace : (p.dataLba + lba) * sectorSize + j =
      p.dataLba * sectorSize + (lba * sectorSize + j) := by
    rw [Nat.add_mul, Nat.add_assoc]
  have hsector : (img.sector (p.dataLba + lba)).get j =
      img.get ((p.dataLba + lba) * sectorSize + j) := by
    simp [Buf.get, Img.sector, hj]
  rw [hsector, hplace, hget, snapshot, Buf.getD_toList (by omega), Buf.get_join _ (by omega)]
  simp only [sectorSize] at hj ⊢
  rw [show (lba * 512 + j) / 512 = lba by omega, show (lba * 512 + j) % 512 = j by omega]

/-- The memory as the processor shows it with these page tables. -/
def seen (mem : Mem) (root : Nat) : Mem := fun v =>
  match Paging.translate mem root v with
  | some a => mem a
  | none => 0

/-- The kernel reads the boot information that was handed over. -/
theorem HandedOver.read_seen {fw : Firmware} {fb : Vesa.Framebuffer} {mem : Mem}
    (h : HandedOver p fw fb mem) :
    BootInfo.read (seen mem pml4) bootinfo = BootInfo.read mem bootinfo := by
  have hseen : ∀ v < 2 ^ 32, seen mem pml4 v = mem v := by
    intro v hv
    rw [seen, h.identity v (by omega), if_pos hv]
  have hgetLe : ∀ k a, a + k ≤ 2 ^ 32 → (seen mem pml4).getLe k a = mem.getLe k a :=
    fun k a hle => Mem.getLe_congr fun j _ _ => hseen j (by omega)
  have hbytes : (seen mem pml4).bytes (bootinfo + 0x30) 16 = mem.bytes (bootinfo + 0x30) 16 :=
    Mem.bytes_congr fun j _ hj => hseen j (by simp only [bootinfo] at hj; omega)
  unfold BootInfo.read
  rw [hbytes, hgetLe _ _ (by decide), hgetLe _ _ (by decide), hgetLe _ _ (by decide),
    hgetLe _ _ (by decide), hgetLe _ _ (by decide), hgetLe _ _ (by decide),
    hgetLe _ _ (by decide), hgetLe _ _ (by decide), hgetLe _ _ (by decide)]

/-- The kernel takes what it is handed unless the framebuffer is at 0. -/
theorem HandedOver.accepted {fw : Firmware} {fb : Vesa.Framebuffer} {mem : Mem}
    (h : HandedOver p fw fb mem) {bios : Vesa.Bios} {mode : UInt16} {fuel : Nat}
    (hset : Vesa.vesaSet bios fuel = some (.set mode fb)) (haddr : fb.addr ≠ 0) :
    (BootInfo.read mem bootinfo).accepted = true := by
  obtain ⟨hfits, rfl⟩ := pass_set fuel _ hset
  obtain ⟨hw, hh, hbpp⟩ := fits_framebuffer hfits
  have hzero : (bios.info mode).2.framebuffer.addr.toNat ≠ 0 := fun hz =>
    haddr (UInt32.toNat_inj.mp hz)
  rw [h.info, BootInfo.accepted, hbpp]
  simp [hzero]
  omega

/-! ## The boot disk -/

/-- The boot sector is read and shows the system id; the disk is as before. -/
theorem isSystem_run {q : Ports} {d : Disk} {guid : List Byte} (h : Attached q d)
    (hpos : 0 < q.drive.sectors) (hguid : guidOf (q.drive.medium.view 0).toList = guid) :
    ∃ q', isSystem guid q = some q' ∧ Attached q' d ∧
      q'.drive.medium.view = q.drive.medium.view ∧ q'.drive.sectors = q.drive.sectors := by
  obtain ⟨drive, hread, ha⟩ := readAbsolute_run h.calm hpos
  refine ⟨{ q with drive }, ?_, h.next ha h.quiet rfl h.view, ha.view, ha.sectors⟩
  have hboot : Ports.readBootSector q = (.ok (q.drive.medium.view 0), { q with drive }) := by
    rw [Ports.readBootSector, Ports.onDrive, hread]
  rw [isSystem, hboot]
  exact if_pos hguid

/-- The drive that the image was written to. -/
structure Carries (img : Img) (drive : Drive) : Prop where
  calm : Calm drive
  ident : drive.ident.length = 256
  capacity : capacityWords drive.ident = drive.sectors
  sectors : drive.sectors = imgSectors
  view : ∀ lba < imgSectors, drive.medium.view lba = img.sector lba

/-- The whole way. An image is built around the volume of some life of a store, and a
machine boots it. Once the loader has handed over, the kernel refuses its
framebuffer or comes up with that store: what it answers from then on is what the
model answers, from the tables that were on the volume. -/
theorem system_starts {fw : Firmware} {m m' : Machine} {fuel : Nat} {d₀ : Disk}
    {led : Ledger RowId} {pg₀ : Pager Disk} {drive : Drive} (hq : d₀.Quiet)
    (hreach : Reachable d₀ led pg₀) (hsize : pg₀.dev.sectors = imgSectors - p.dataLba)
    (himg : build p (snapshot pg₀.dev) = some img) (hs : IsStage1 p.stage1)
    (hdisk : ∀ lba < imgSectors, fw.disk lba = img.sector lba) (hfirst : m.nreads = 0)
    (hboot : boot fw p.stage2 fuel m = (.ok (), m')) (hdrive : Carries img drive) :
    (BootInfo.read (seen m'.mem pml4) bootinfo).fbAddr = 0 ∨
    ∃ pg, kmain (seen m'.mem pml4) bootinfo drive = some pg ∧
      ∃ db, (∀ op, op.writes = false → led.Covers (.call op) → ∀ fresh,
          (run op pg₀).1 = Outcome.ofExcept (db.step fresh op).1) ∧
        ∀ es, HandedOut es led pg → ∃ ids : List (Option RowId), ids.length = es.length ∧
          Database.AllNew (es.zip ids) db ∧
          (history es pg).1 = (Database.history (es.zip ids) db).1.map Outcome.ofExcept := by
  obtain ⟨bios, mode, fb, -, hset, hover⟩ := (boot_ends himg hs hdisk hfirst fuel).ok hboot
  rw [kmain, hover.read_seen]
  by_cases haddr : fb.addr = 0
  · left
    rw [hover.info, haddr]
    rfl
  · right
    have hdata := (build_eq himg).1.volume
    have hroom : drive.sectors = p.dataLba + pg₀.dev.sectors := by
      rw [hdrive.sectors, hsize]
      omega
    obtain ⟨q, hprobe, -, hq₁, ha⟩ := attached_probe hq hreach hdrive.calm hdrive.ident
      hdrive.capacity hroom fun lba hlt => by
        rw [hdrive.view _ (by omega), volume_sector himg hlt]
    have hguid : guidOf (q.drive.medium.view 0).toList = p.guid := by
      rw [ha.view, hdrive.view 0 (by decide), sector_run]
      exact guid_field himg
    have hpos : 0 < q.drive.sectors := by
      rw [ha.sectors, hdrive.sectors]
      decide
    obtain ⟨q₂, hfound, hq₂, hview₂, hsectors₂⟩ := isSystem_run hq₁ hpos hguid
    have hguid₂ : guidOf (q₂.drive.medium.view 0).toList = p.guid := by
      rw [hview₂]
      exact hguid
    obtain ⟨q₃, hgate, hq₃, -, -⟩ := isSystem_run hq₂ (by rw [hsectors₂]; exact hpos) hguid₂
    obtain ⟨pg, p', hopen, hlife⟩ := attached_life hq hreach hq₃
    refine ⟨pg, ?_, hlife⟩
    have hdiscover : discoverPorts p.dataLba p.guid drive = some q₂ := by
      rw [discoverPorts, hprobe]
      exact hfound
    have haccepted := hover.accepted hset haddr
    simp only [hover.info] at haccepted ⊢
    rw [haccepted, if_neg (by decide), hdiscover, Option.bind_some, hgate, Option.bind_some, hopen]

/-- A kernel of 55 MiB. -/
@[irreducible]
def largeKernel : List Byte := List.replicate (112576 * sectorSize) 0xF4

theorem length_largeKernel : largeKernel.length = 112576 * sectorSize := by
  rw [largeKernel, List.length_replicate]

/-- It leaves 2304 pages for the volume. -/
def largeParts : Parts := { smallParts with kernel := largeKernel }

theorem largeParts_kernel : largeParts.kernel = largeKernel := rfl

theorem largeParts_dataLba : largeParts.dataLba = 112640 := by
  have hsecs : largeParts.kSecs = 112576 := by
    rw [Parts.kSecs, largeParts_kernel, length_largeKernel]
    rfl
  rw [Parts.dataLba, hsecs]
  rfl

theorem largeParts_fits : Fits largeParts := by
  refine ⟨smallParts_fits.stage1, smallParts_fits.stage2, ?_, ?_⟩
  · rw [largeParts_dataLba, largeParts_kernel, length_largeKernel]
    exact Nat.le_refl _
  · rw [largeParts_dataLba]
    decide

/-- An empty disk with the sectors behind the boot region of the large parts. -/
def emptyVolume : Disk :=
  Disk.attach (imgSectors - 112640) (by decide) (fun _ => Buf.zero sectorSize) Disk.noFaults

/-- A drive that the image was written to, busy for a while with every step. -/
def imageDrive (img : Img) : Drive where
  sectors := imgSectors
  ident := (List.range 256).map fun i => if i = 61 then 2 else 0
  medium := ⟨img.sector, []⟩
  device := 0
  seccount := 0
  lba0 := 0
  lba1 := 0
  lba2 := 0
  phase := .ready false
  busy := 0
  steps := 0
  polls := 0
  delay := fun i => i % 1000
  fails := fun _ => false
  heeds := fun i => i % 2 == 0
  junk := fun i => UInt8.ofNat i

theorem carries_imageDrive (img : Img) : Carries img (imageDrive img) := by
  refine ⟨⟨by show imgSectors ≤ 2 ^ 28; decide, fun i => ?_, fun _ => rfl, rfl, rfl⟩, ?_, ?_, rfl,
    fun _ _ => rfl⟩
  · show i % 1000 ≤ 5000000
    omega
  · simp [imageDrive]
  · simp [imageDrive, capacityWords, List.getD_eq_getElem?_getD, imgSectors_eq]

/-- An image with two notes on its volume is booted, and the first of them is deleted. -/
theorem system_starts_notes : ∃ (p : Parts) (a b : RowId) (pg₀ : Pager Disk) (img : Img)
    (m' : Machine) (fuel : Nat) (pg : Pager Ports), Reachable emptyVolume [("notes", a), ("notes", b)] pg₀ ∧
    build p (snapshot pg₀.dev) = some img ∧
    boot (goodFirmware img) p.stage2 fuel emptyMachine = (.ok (), m') ∧
    kmain (seen m'.mem pml4) bootinfo (imageDrive img) = some pg ∧
    (run (.scan "notes") pg).1 =
      .ok (.rows [(a, [some (.str "a")]), (b, [some (.str "b")])]) ∧
    ∃ (db : Database RowId) (ids : List (Option RowId)), ids.length = 2 ∧
      (history [.call (.delete "notes" a), .call (.scan "notes")] pg).1 =
        (Database.history ([.call (.delete "notes" a), .call (.scan "notes")].zip ids)
          db).1.map Outcome.ofExcept := by
  have hquiet : emptyVolume.Quiet := fun _ => rfl
  have hpages : emptyVolume.sectors / pageSectors = 2304 := rfl
  obtain ⟨a, b, pg₀, hreach, hsectors, hscan⟩ := notes_written hquiet (by rw [hpages]; decide)
    (by rw [hpages]; decide)
  -- the kernel is not looked into
  obtain ⟨p, hfits, hstage1, hstage2, hdata⟩ : ∃ p : Parts, Fits p ∧ IsStage1 p.stage1 ∧
      p.stage2.length ≤ diagSecs * sectorSize ∧ p.dataLba = 112640 :=
    ⟨largeParts, largeParts_fits, isStage1_small, smallParts_stage2, largeParts_dataLba⟩
  have hsize : pg₀.dev.sectors = imgSectors - p.dataLba := by
    rw [hsectors, hdata]
    rfl
  have hlen : (snapshot pg₀.dev).length = imgBytes - p.dataLba * sectorSize := by
    rw [snapshot, Buf.length_toList, hsize, Nat.sub_mul, imgBytes_eq]
  have hb := build_of_fits hfits hlen
  generalize (bootRegion p).put (p.dataLba * sectorSize) (snapshot pg₀.dev) = img at hb
  obtain ⟨fuel, hfuel⟩ : ∃ n, n = 3 := ⟨3, rfl⟩
  obtain ⟨m', fb, hrun, haddr, hover⟩ :=
    goodFirmware_boots hb hstage1 hstage2 hfuel
  have hdisk : ∀ lba < imgSectors, (goodFirmware img).disk lba = Img.sector img lba :=
    fun _ _ => rfl
  rcases system_starts hquiet hreach hsize hb hstage1 hdisk rfl hrun
    (carries_imageDrive img) with hzero | ⟨pg, hkmain, db, hreads, hlife⟩
  · rw [hover.read_seen, hover.info] at hzero
    exact absurd (UInt32.toNat_inj.mp hzero) haddr
  · have hrows : (run (.scan "notes") pg).1 = (run (.scan "notes") pg₀).1 :=
      life_reads hreads hlife rfl trivial
    obtain ⟨ids, hlen, -, hos⟩ := hlife [.call (.delete "notes" a), .call (.scan "notes")]
      ⟨List.mem_cons_self, trivial, trivial⟩
    exact ⟨p, a, b, pg₀, img, m', fuel, pg, hreach, hb, hrun, hkmain, hrows.trans hscan, db,
      ids, hlen, hos⟩

end Boot

end TablesOS
