import TablesOS.Kernel.BootInfo
import TablesOS.Proofs.ImageLayout
import TablesOS.Proofs.LoaderMemory
import TablesOS.Proofs.VideoMode
import TablesOS.Spec.Paging

/-!
# What the kernel is handed

The loader either jumps into the kernel or stops for a reason that the firmware
has given it. When it jumps, the kernel lies at its address as it was built, the
boot information says where the volume is and which system this is, and every
address below 4 GiB stands for itself.
-/

namespace TablesOS

namespace Boot

open Fallible

variable {fw : Firmware} {m m' : Machine} {p : Parts} {img : Img} {vol : List Byte}

/-! ## The boot information -/

/-- The memory with the boot information in it. -/
def infoMem (fw : Firmware) (fb : Vesa.Framebuffer) (mem : Mem) : Mem :=
  ((((((((((((mem.putLe 4 0x7000 0x5342544F).putLe 4 0x7004 fb.w.toNat).putLe 4 0x7008
    fb.h.toNat).putLe 4 0x700C fb.pitch.toNat).putLe 4 0x7010 fb.addr.toNat).putLe 4 0x7014
    0).putLe 1 0x7018 fb.bpp.toNat).putLe 1 0x7019 fb.fmt.toNat).putLe 4 0x7020
    (mem.getLe 4 (s1 + 0x1BC))).putLe 4 0x7024 (mem.getLe 4 (s1 + 0x1C0))).putLe 1 0x7028
    fw.drive.toNat)).put 0x7030 (mem.bytes (s1 + 0x1DC) 16)

section Low

variable {mem : Mem} {b : Bool} {k a v n : Nat}

theorem store_low (h : a + k ≤ 0x10000) :
    store k a v ⟨mem, true, b, n⟩ = (.ok (), ⟨mem.putLe k a v, true, b, n⟩) :=
  store_run rfl (reaches_low h)

theorem load_low (h : a + k ≤ 0x10000) :
    load k a ⟨mem, true, b, n⟩ = (.ok (mem.getLe k a), ⟨mem, true, b, n⟩) :=
  load_run rfl (reaches_low h)

end Low

theorem buildBootinfo_run (fb : Vesa.Framebuffer) (ha : m.a20 = true) :
    buildBootinfo fw fb m = (.ok (), { m with mem := infoMem fw fb m.mem }) := by
  obtain ⟨mem, a20, big, nreads⟩ := m
  cases (ha : a20 = true)
  unfold buildBootinfo
  rw [run_bind_ok (store_low (by decide)), run_bind_ok (store_low (by decide)),
    run_bind_ok (store_low (by decide)), run_bind_ok (store_low (by decide)),
    run_bind_ok (store_low (by decide)), run_bind_ok (store_low (by decide)),
    run_bind_ok (store_low (by decide)), run_bind_ok (store_low (by decide)),
    run_bind_ok (load_low (by decide)), run_bind_ok (store_low (by decide)),
    run_bind_ok (load_low (by decide)), run_bind_ok (store_low (by decide)),
    run_bind_ok (store_low (by decide)), cpguid_run 16 _ _ _ rfl (by decide) (by decide)]
  simp (disch := (simp only [length_leBytes]; decide)) only [infoMem, bootinfo, s1,
    Mem.putLe, Mem.getLe_put_of_disjoint, Mem.bytes_put_of_disjoint]

theorem apart_infoMem (fw : Firmware) (fb : Vesa.Framebuffer) (mem : Mem) :
    Mem.Apart mem (infoMem fw fb mem) 0x7000 0x7040 := by
  intro i hi
  unfold infoMem Mem.putLe
  rw [Mem.put_apply_out (by simp; omega), Mem.put_apply_out (by simp; omega),
    Mem.put_apply_out (by simp; omega), Mem.put_apply_out (by simp; omega),
    Mem.put_apply_out (by simp; omega), Mem.put_apply_out (by simp; omega),
    Mem.put_apply_out (by simp; omega), Mem.put_apply_out (by simp; omega),
    Mem.put_apply_out (by simp; omega), Mem.put_apply_out (by simp; omega),
    Mem.put_apply_out (by simp; omega), Mem.put_apply_out (by simp; omega)]

/-- What the kernel reads there. -/
theorem read_infoMem (fw : Firmware) (fb : Vesa.Framebuffer) (mem : Mem) :
    BootInfo.read (infoMem fw fb mem) bootinfo = {
      magic := bootInfoMagic
      fbWidth := fb.w.toNat
      fbHeight := fb.h.toNat
      fbPitch := fb.pitch.toNat
      fbAddr := fb.addr.toNat
      fbBpp := fb.bpp.toNat
      fbFmt := fb.fmt.toNat
      dataLba := mem.getLe 8 (s1 + 0x1BC)
      bootDrive := fw.drive.toNat
      sysGuid := mem.bytes (s1 + 0x1DC) 16 } := by
  have hw := fb.w.toNat_lt
  have hh := fb.h.toNat_lt
  have hp := fb.pitch.toNat_lt
  have ha := fb.addr.toNat_lt
  have hb := fb.bpp.toNat_lt
  have hf := fb.fmt.toNat_lt
  have hd := fw.drive.toNat_lt
  have hlo := mem.getLe_lt 4 (s1 + 0x1BC)
  have hhi := mem.getLe_lt 4 (s1 + 0x1C0)
  have hguid : (mem.bytes (s1 + 0x1DC) 16).length = 16 := Mem.length_bytes _ _ _
  have hsum : ∀ a, mem.getLe 8 a = mem.getLe 4 a + 256 ^ 4 * mem.getLe 4 (a + 4) :=
    fun a => mem.getLe_add 4 4 a
  have hsum' : ∀ a, (infoMem fw fb mem).getLe 8 a =
      (infoMem fw fb mem).getLe 4 a + 256 ^ 4 * (infoMem fw fb mem).getLe 4 (a + 4) :=
    fun a => (infoMem fw fb mem).getLe_add 4 4 a
  simp only [BootInfo.read, bootinfo, hsum, hsum']
  simp (disch := omega) only [infoMem, Mem.getLe_putLe_of_disjoint, Mem.getLe_putLe_self,
    Mem.getLe_put_of_disjoint, Mem.bytes_put_self]
  simp

/-! ## The page tables -/

/-- The rounds of `.pd` write one large page each. -/
theorem pdLoop_run (n : Nat) : ∀ (m : Machine) (eax edi : Nat), m.a20 = true → m.big = true →
    eax + n * 0x200000 ≤ 2 ^ 32 + 0x83 → eax < 2 ^ 32 →
    ∃ mem, pdLoop n eax edi m = (.ok (), { m with mem }) ∧
      (∀ i < n, mem.getLe 8 (edi + 8 * i) = eax + i * 0x200000) ∧
      Mem.Apart m.mem mem edi (edi + 8 * n) := by
  induction n with
  | zero =>
      intro m eax edi _ _ _ _
      exact ⟨m.mem, rfl, fun i hi => absurd hi (Nat.not_lt_zero i), Mem.Apart.refl _ _ _⟩
  | succ n ih =>
      intro m eax edi ha hb hsum hlt
      have hlow := store_run (k := 4) (a := edi) (v := eax) ha (reaches_big hb _ _)
      have hhigh : store 4 (edi + 4) 0 { m with mem := m.mem.putLe 4 edi eax } =
          (.ok (), { m with mem := (m.mem.putLe 4 edi eax).putLe 4 (edi + 4) 0 }) :=
        store_run ha (reaches_big hb _ _)
      have hentry : ((m.mem.putLe 4 edi eax).putLe 4 (edi + 4) 0).getLe 8 edi = eax := by
        exact Mem.getLe_putLe_putLe (k := 4) (by omega) (by decide)
      have happart : Mem.Apart m.mem ((m.mem.putLe 4 edi eax).putLe 4 (edi + 4) 0) edi
          (edi + 8) := by
        intro i hi
        unfold Mem.putLe
        rw [Mem.put_apply_out (by simp; omega), Mem.put_apply_out (by simp; omega)]
      obtain ⟨mem, hrounds, hvalues, hrest⟩ := ih
        { m with mem := (m.mem.putLe 4 edi eax).putLe 4 (edi + 4) 0 } ((eax + 0x200000) % 2 ^ 32)
        (edi + 8) ha hb (by omega) (Nat.mod_lt _ (by decide))
      refine ⟨mem, ?_, fun i hi => ?_, ?_⟩
      · rw [pdLoop, run_bind_ok hlow, run_bind_ok hhigh, hrounds]
      · cases i with
        | zero => rw [Nat.mul_zero, Nat.add_zero, hrest.getLe (by omega), hentry]; omega
        | succ i =>
            have hplace : edi + 8 * (i + 1) = edi + 8 + 8 * i := by omega
            rw [hplace, hvalues i (by omega), Nat.mod_eq_of_lt (by omega)]
            omega
      · exact (happart.mono (Nat.le_refl _) (by omega)).trans
          (hrest.mono (Nat.le_add_right _ _) (by omega))

/-- The page tables, without the entries of the large pages. -/
def tablesMem (mem : Mem) : Mem :=
  (((((mem.put 0x70000 (List.replicate 0x6000 0)).putLe 4 0x70000 0x71003).putLe 4 0x71000
    0x72003).putLe 4 0x71008 0x73003).putLe 4 0x71010 0x74003).putLe 4 0x71018 0x75003

theorem apart_tablesMem (mem : Mem) : Mem.Apart mem (tablesMem mem) 0x70000 0x76000 := by
  intro i hi
  unfold tablesMem Mem.putLe
  rw [Mem.put_apply_out (by simp; omega), Mem.put_apply_out (by simp; omega),
    Mem.put_apply_out (by simp; omega), Mem.put_apply_out (by simp; omega),
    Mem.put_apply_out (by simp; omega), Mem.put_apply_out (by rw [List.length_replicate]; omega)]

/-- The tables that long mode is entered with. -/
structure Tables (mem : Mem) : Prop where
  root : mem.getLe 8 0x70000 = 0x71003
  root_rest : ∀ i, 0 < i → i < 512 → mem.getLe 8 (0x70000 + 8 * i) = 0
  dir : ∀ i < 4, mem.getLe 8 (0x71000 + 8 * i) = 0x72003 + i * 0x1000
  dir_rest : ∀ i, 4 ≤ i → i < 512 → mem.getLe 8 (0x71000 + 8 * i) = 0
  page : ∀ i < 2048, mem.getLe 8 (0x72000 + 8 * i) = 0x83 + i * 0x200000

/-- An entry of the tables that nothing was written to. -/
theorem tablesMem_zero (mem : Mem) {a : Nat} (h : 0x70004 ≤ a ∧ a + 8 ≤ 0x71000 ∨
    0x7101C ≤ a ∧ a + 8 ≤ 0x76000) : (tablesMem mem).getLe 8 a = 0 := by
  unfold tablesMem
  rw [Mem.getLe_putLe_of_disjoint (by omega), Mem.getLe_putLe_of_disjoint (by omega),
    Mem.getLe_putLe_of_disjoint (by omega), Mem.getLe_putLe_of_disjoint (by omega),
    Mem.getLe_putLe_of_disjoint (by omega), Mem.getLe_zeros (by omega) (by omega)]

/-- The entries that were written, whose upper halves are those of empty ones. -/
theorem tablesMem_entry (mem : Mem) :
    (tablesMem mem).getLe 8 0x70000 = 0x71003 ∧
      ∀ i < 4, (tablesMem mem).getLe 8 (0x71000 + 8 * i) = 0x72003 + i * 0x1000 := by
  have hsum : ∀ a, (tablesMem mem).getLe 8 a =
      (tablesMem mem).getLe 4 a + 256 ^ 4 * (tablesMem mem).getLe 4 (a + 4) :=
    fun a => (tablesMem mem).getLe_add 4 4 a
  refine ⟨?_, fun i hi => ?_⟩
  · rw [hsum]
    simp (disch := omega) only [tablesMem, Mem.getLe_putLe_of_disjoint, Mem.getLe_putLe_self,
      Mem.getLe_zeros, Nat.mul_zero, Nat.add_zero]
  · rw [hsum]
    obtain rfl | rfl | rfl | rfl : i = 0 ∨ i = 1 ∨ i = 2 ∨ i = 3 := by omega
    all_goals
      simp (disch := omega) only [tablesMem, Mem.getLe_putLe_of_disjoint, Mem.getLe_putLe_self,
        Mem.getLe_zeros, Nat.mul_zero, Nat.add_zero, Nat.reduceMul, Nat.reduceAdd]

theorem buildPaging_run (ha : m.a20 = true) (hb : m.big = true) :
    ∃ mem, buildPaging m = (.ok (), { m with mem }) ∧ Tables mem ∧
      Mem.Apart m.mem mem 0x70000 0x76000 := by
  obtain ⟨mem, a20, big, n⟩ := m
  cases (ha : a20 = true)
  cases (hb : big = true)
  have hstore : ∀ (k a v : Nat) (mem : Mem), store k a v ⟨mem, true, true, n⟩ =
      (.ok (), ⟨mem.putLe k a v, true, true, n⟩) := fun k a v mem => store_run rfl rfl
  obtain ⟨mem', hpd, hpage, hrest⟩ := pdLoop_run 2048 ⟨tablesMem mem, true, true, n⟩ 0x83 0x72000
    rfl rfl (by decide) (by decide)
  have hzero : zeroDwords (6 * 4096 / 4) pml4 ⟨mem, true, true, n⟩ =
      (.ok (), ⟨mem.put 0x70000 (List.replicate 0x6000 0), true, true, n⟩) := by
    rw [zeroDwords_run _ _ _ rfl rfl]
  refine ⟨mem', ?_, ?_, ?_⟩
  · rw [buildPaging, run_bind_ok hzero, run_bind_ok (hstore _ _ _ _),
      run_bind_ok (hstore _ _ _ _), run_bind_ok (hstore _ _ _ _), run_bind_ok (hstore _ _ _ _),
      run_bind_ok (hstore _ _ _ _)]
    exact hpd
  · obtain ⟨hroot, hdir⟩ := tablesMem_entry mem
    refine ⟨?_, fun i h0 hi => ?_, fun i hi => ?_, fun i h4 hi => ?_, hpage⟩
    · rw [hrest.getLe (Or.inl (by decide)), hroot]
    · rw [hrest.getLe (Or.inl (by omega)), tablesMem_zero _ (by omega)]
    · rw [hrest.getLe (Or.inl (by omega)), hdir i hi]
    · rw [hrest.getLe (Or.inl (by omega)), tablesMem_zero _ (by omega)]
  · exact (apart_tablesMem mem).trans (hrest.mono (by decide) (by decide))

open Paging in
/-- Below 4 GiB every address stands for itself, and nothing is mapped above. -/
theorem translate_tables {mem : Mem} (h : Tables mem) {v : Nat} (hv : v < 2 ^ 48) :
    Paging.translate mem 0x70000 v = if v < 2 ^ 32 then some v else none := by
  unfold Paging.translate
  rw [walk]
  by_cases hroot : v < 2 ^ 39
  · have he3 : entry mem 0x70000 (12 + 9 * (2 + 1)) v = 0x71003 := by
      have hi : v / 2 ^ (12 + 9 * (2 + 1)) % 512 = 0 := by omega
      rw [entry, hi, h.root]
    have hf3 : frame 0x71003 12 = 0x71000 := by decide
    rw [he3, if_neg (by decide), if_neg (by decide), hf3, walk]
    have hi2 : v / 2 ^ (12 + 9 * (1 + 1)) % 512 = v / 2 ^ 30 := by omega
    by_cases hdir : v < 2 ^ 32
    · have hlt : v / 2 ^ 30 < 4 := by omega
      have he2 : entry mem 0x71000 (12 + 9 * (1 + 1)) v = 0x72003 + v / 2 ^ 30 * 0x1000 := by
        rw [entry, hi2, h.dir _ hlt]
      have hp2 : isPresent (0x72003 + v / 2 ^ 30 * 0x1000) := by
        unfold isPresent
        omega
      have hl2 : ¬ isLarge (0x72003 + v / 2 ^ 30 * 0x1000) := by
        unfold isLarge
        omega
      have hf2 : frame (0x72003 + v / 2 ^ 30 * 0x1000) 12 = 0x72000 + v / 2 ^ 30 * 0x1000 := by
        unfold frame
        omega
      rw [he2, if_neg (not_not.mpr hp2), if_neg fun hc => hl2 hc.2, hf2, walk]
      have he1 : entry mem (0x72000 + v / 2 ^ 30 * 0x1000) (12 + 9 * (0 + 1)) v =
          0x83 + v / 2 ^ 21 * 0x200000 := by
        have hplace : 0x72000 + v / 2 ^ 30 * 0x1000 + 8 * (v / 2 ^ (12 + 9 * (0 + 1)) % 512) =
            0x72000 + 8 * (v / 2 ^ 21) := by omega
        rw [entry, hplace, h.page _ (by omega)]
      have hp1 : isPresent (0x83 + v / 2 ^ 21 * 0x200000) := by
        unfold isPresent
        omega
      have hl1 : isLarge (0x83 + v / 2 ^ 21 * 0x200000) := by
        unfold isLarge
        omega
      have hf1 : frame (0x83 + v / 2 ^ 21 * 0x200000) (12 + 9 * (0 + 1)) +
          v % 2 ^ (12 + 9 * (0 + 1)) = v := by
        unfold frame
        omega
      rw [he1, if_neg (not_not.mpr hp1), if_pos ⟨by decide, hl1⟩, hf1, if_pos hdir]
    · have he2 : entry mem 0x71000 (12 + 9 * (1 + 1)) v = 0 := by
        rw [entry, hi2, h.dir_rest _ (by omega) (by omega)]
      rw [he2, if_pos (by decide), if_neg hdir]
  · have he3 : entry mem 0x70000 (12 + 9 * (2 + 1)) v = 0 := by
      rw [entry, h.root_rest _ (by omega) (by omega)]
    rw [he3, if_pos (by decide), if_neg (by omega)]

/-! ## The video mode -/

section Mode

open Vesa

variable {b : Bios}

/-- Nothing, or a mode that fits. -/
def Suits (b : Bios) (best : Best) : Prop :=
  best.mode = 0xFFFF ∨ (b.info best.mode).2.fits = true

theorem suits_consider {ceil : Area} {best : Best} (h : Suits b best) (cx : UInt16) :
    Suits b (Vesa.consider b ceil best cx) := by
  unfold Vesa.consider
  dsimp only
  split
  · rename_i hc
    simp only [Bool.and_eq_true] at hc
    exact Or.inr hc.1.1.2
  · exact h

theorem suits_scan {ceil : Area} (fuel : Nat) : ∀ (idx : UInt16) {best best' : Best}, Suits b best →
    Vesa.scan b ceil fuel idx best = some best' → Suits b best' := by
  induction fuel with
  | zero =>
      intro idx best best' _ h
      cases h
  | succ fuel ih =>
      intro idx best best' hs h
      rw [Vesa.scan] at h
      split at h
      · cases h
        exact hs
      · exact ih _ (suits_consider hs _) h

/-- The mode that was set fits, and the parameters are its own. -/
theorem pass_set {scanFuel : Nat} (fuel : Nat) : ∀ (ceil : Area) {mode : UInt16}
    {fb : Framebuffer}, Vesa.pass b scanFuel fuel ceil = some (.set mode fb) →
    (b.info mode).2.fits = true ∧ fb = (b.info mode).2.framebuffer := by
  induction fuel with
  | zero =>
      intro ceil mode fb h
      cases h
  | succ fuel ih =>
      intro ceil mode fb h
      rw [Vesa.pass] at h
      split at h
      · cases h
      · rename_i best hscan
        split at h
        · cases h
        · rename_i hmode
          split at h
          · cases h
            exact ⟨(suits_scan scanFuel 0 (Or.inl rfl) hscan).resolve_left hmode, rfl⟩
          · exact ih _ h

/-- What `kmain` asks of a mode, but for the address. -/
theorem fits_framebuffer {i : ModeInfo} (h : i.fits = true) :
    1024 ≤ i.framebuffer.w.toNat ∧ 720 ≤ i.framebuffer.h.toNat ∧ i.framebuffer.bpp = 4 := by
  simp only [ModeInfo.fits, Bool.and_eq_true, Bool.not_eq_true', decide_eq_false_iff_not,
    decide_eq_true_eq] at h
  obtain ⟨⟨⟨-, hbpp⟩, hw⟩, hh⟩ := h
  refine ⟨Nat.le_of_not_lt fun hlt => hw hlt, Nat.le_of_not_lt fun hlt => hh hlt, ?_⟩
  show i.bpp >>> 3 = 4
  rw [hbpp]
  decide

end Mode

/-! ## Stage 1 -/

theorem slice_add (img : Img) (o a b : Nat) :
    img.slice o (a + b) = img.slice o a ++ img.slice (o + a) b := by
  simp [Buf.slice, List.range_add, Nat.add_assoc, Function.comp_def]

theorem run_add (img : Img) (lba a b : Nat) :
    img.run lba (a + b) = img.run lba a ++ img.run (lba + a) b := by
  rw [Img.run, Nat.add_mul, slice_add, Img.run, Img.run, Nat.add_mul]

theorem sector_run (img : Img) (lba : Nat) : (img.sector lba).toList = img.run lba 1 := by
  refine List.ext_getElem (by simp [Img.run]) fun i h1 h2 => ?_
  have hi : i < sectorSize := by simpa using h1
  simp only [Buf.toList, Img.run, Buf.getElem_slice, Nat.zero_add]
  simp [Buf.get, Img.sector, hi]

/-- The firmware reads the image. -/
theorem sectorsAt_run (hdisk : ∀ lba < imgSectors, fw.disk lba = img.sector lba) (n : Nat) :
    ∀ lba, lba + n ≤ imgSectors → fw.sectorsAt lba n = img.run lba n := by
  induction n with
  | zero =>
      intro lba _
      simp [Firmware.sectorsAt, Img.run, Buf.slice]
  | succ n ih =>
      intro lba h
      rw [Firmware.sectorsAt, hdisk lba (by omega), sector_run, ih (lba + 1) (by omega),
        Nat.add_comm n 1, run_add]

/-- The header in memory, as stage 2 finds it. -/
structure Resident (img : Img) (mem : Mem) : Prop where
  header : ∀ o k, 0x1B0 ≤ o → o + k ≤ sectorSize → mem.bytes (s1 + o) k = img.slice o k

theorem Resident.apart {mem mem' : Mem} {a b : Nat} (h : Resident img mem)
    (ha : Mem.Apart mem mem' a b) (hd : b ≤ 0x7C00 ∨ 0x7E00 ≤ a) : Resident img mem' := by
  refine ⟨fun o k ho hk => ?_⟩
  simp only [sectorSize] at hk
  rw [ha.bytes (by simp only [s1]; omega), h.header o k ho hk]

/-- Stage 1 leaves the header in memory, and stage 2 behind it where the read
delivered all of it. -/
theorem stage1_run (hdisk : ∀ lba < imgSectors, fw.disk lba = img.sector lba) (m : Machine) :
    ∃ m', stage1 fw m = (.ok (), m') ∧ m'.a20 = m.a20 ∧ Resident img m'.mem ∧
      (fw.reads m.nreads = true → m'.mem.bytes s2 (diagSecs * sectorSize) =
        img.run stage2Lba diagSecs) := by
  refine ⟨_, rfl, rfl, ?_, fun hread => ?_⟩
  · have hsize : (fw.disk 0).toList.length = sectorSize := Buf.length_toList _
    have hmbr : Resident img
        ((m.mem.put s1 (fw.disk 0).toList).put s1 (fw.scratch.take 0x1B0)) := by
      refine ⟨fun o k ho hk => ?_⟩
      have hscratch : (fw.scratch.take 0x1B0).length ≤ 0x1B0 := by
        rw [List.length_take]
        exact Nat.min_le_left _ _
      rw [Mem.bytes_put_of_disjoint (by omega), Mem.bytes_put_within (by omega) (by omega),
        hdisk 0 (by decide), sector_run, Nat.add_sub_cancel_left]
      exact field_sector hk
    have hfill := hmbr.apart (Mem.apart_put _ s2 (List.replicate (diagSecs * sectorSize) 0xCC))
      (Or.inr (by decide))
    exact hfill.apart (Mem.apart_put _ s2 _) (Or.inr (by decide))
  · have hlen : (fw.sectorsAt stage2Lba diagSecs).length = diagSecs * sectorSize :=
      length_sectorsAt fw _ _
    have hbytes : (if fw.reads m.nreads then fw.sectorsAt stage2Lba diagSecs
        else (fw.junk m.nreads).take (diagSecs * sectorSize)) = img.run stage2Lba diagSecs := by
      rw [if_pos hread, sectorsAt_run hdisk _ _ (by decide)]
    have hput := Mem.bytes_put_self (m := ((m.mem.put s1 (fw.disk 0).toList).put s1
      (fw.scratch.take 0x1B0)).put s2 (List.replicate (diagSecs * sectorSize) 0xCC)) (a := s2) hlen
    rw [sectorsAt_run hdisk _ _ (by decide)] at hput
    rw [← hbytes] at hput ⊢
    exact hput

/-- Stage 2 is all there unless the read failed or it is longer than what is read. -/
theorem code_resident (himg : build p vol = some img) {mem : Mem}
    (h : mem.bytes s2 (diagSecs * sectorSize) = img.run stage2Lba diagSecs)
    (hlen : p.stage2.length ≤ diagSecs * sectorSize) :
    mem.bytes s2 p.stage2.length = p.stage2 := by
  have hsecs : p.s2Secs ≤ diagSecs := sectors_le hlen (by decide)
  have hrest : p.stage2.length + (diagSecs * sectorSize - p.stage2.length) =
      diagSecs * sectorSize := by omega
  have hsplit : p.s2Secs + (diagSecs - p.s2Secs) = diagSecs := by omega
  rw [← hrest, Mem.bytes_add, ← hsplit, run_add, stage2_run himg, padded,
    List.append_assoc] at h
  exact List.append_inj_left h (Mem.length_bytes _ _ _)

/-! ## Stage 2 -/

/-- A word of the header in memory. -/
theorem Resident.word {mem : Mem} (h : Resident img mem) {o k : Nat} (ho : 0x1B0 ≤ o)
    (hk : o + k ≤ sectorSize) : mem.getLe k (s1 + o) = Mbr.word (img.run 0 1) o k := by
  rw [Mem.getLe, h.header o k ho hk, Mbr.word, field_sector hk]

/-- The load of the kernel, from the header in memory. -/
theorem loadKernel_ends (himg : build p vol = some img) (hs : IsStage1 p.stage1)
    (hdisk : ∀ lba < imgSectors, fw.disk lba = img.sector lba) (ha : m.a20 = true)
    (hb : m.big = true) (hres : Resident img m.mem) :
    Ends (loadKernel fw) m
      (fun _ m' => m'.a20 = true ∧ m'.big = true ∧ Resident img m'.mem ∧
        m'.mem.bytes kernelDst (p.kSecs * sectorSize) = padded p.kernel)
      (fun e => e = .die ∧ fw.GivesUp) := by
  obtain ⟨-, hwlba, hwsecs⟩ := header_words himg hs
  have hlba : m.mem.getLe 4 (s1 + 0x1CC) = kernelLba := by
    rw [hres.word (by decide) (by decide), hwlba]
  have hsecs : m.mem.getLe 4 (s1 + 0x1D0) = p.kSecs := by
    rw [hres.word (by decide) (by decide), hwsecs]
  have hk := kSecs_le (p := p)
  have hv := (build_eq himg).1.volume
  rw [imgSectors_eq] at hv
  simp only [kernelLba] at hk
  unfold loadKernel
  refine .bind_ok (load_run ha (reaches_big hb _ _))
    (.bind_ok (load_run ha (reaches_big hb _ _)) ?_)
  rw [hlba, hsecs]
  refine (lkLoop_ends fw p.kSecs kernelLba kernelDst m ha hb (by decide)
    (by simp only [kernelDst, sectorSize]; omega) (by simp only [kernelLba]; omega)).imp ?_
    fun _ he => he
  rintro - m' ⟨ha', hb', hbytes, hframe⟩
  refine ⟨ha', hb', ⟨fun o k ho hk => ?_⟩, ?_⟩
  · simp only [sectorSize] at hk
    rw [← hres.header o k ho hk]
    exact Mem.bytes_congr fun j _ hj => hframe j (Or.inl (by simp only [s1, bounce] at *; omega))
  · rw [hbytes, sectorsAt_run hdisk _ _ (by rw [imgSectors_eq]; simp only [kernelLba]; omega),
      kernel_run himg]

/-- The first store of the page tables, without the limit. -/
theorem buildPaging_fault (hb : m.big = false) : buildPaging m = (.error .fault, m) := by
  have hreach : m.reaches 4 pml4 = false := by
    rw [Machine.reaches, hb]
    rfl
  have hstore : store 4 pml4 0 m = (.error .fault, m) := by
    rw [store, if_neg (by rw [hreach]; decide)]
  rw [buildPaging]
  exact run_bind_error (run_bind_error hstore)

/-! ## The handover -/

/-- The memory that the kernel is entered with. -/
structure HandedOver (p : Parts) (fw : Firmware) (fb : Vesa.Framebuffer) (mem : Mem) : Prop where
  kernel : mem.bytes kernelDst (p.kSecs * sectorSize) = padded p.kernel
  info : BootInfo.read mem bootinfo = {
    magic := bootInfoMagic
    fbWidth := fb.w.toNat
    fbHeight := fb.h.toNat
    fbPitch := fb.pitch.toNat
    fbAddr := fb.addr.toNat
    fbBpp := fb.bpp.toNat
    fbFmt := fb.fmt.toNat
    dataLba := p.dataLba
    bootDrive := fw.drive.toNat
    sysGuid := p.guid }
  identity : ∀ v < 2 ^ 48, Paging.translate mem pml4 v = if v < 2 ^ 32 then some v else none

/-- What the firmware has done when the boot ends without a jump. Of the modes of
one area only the one listed first is tried. -/
def Cause (fw : Firmware) (a20 : Bool) (code : List Byte) : Stop → Prop
  | .die => fw.opensA20 a20 = false ∨ fw.GivesUp ∨ fw.vbe = none ∨
      ∃ bios modes, fw.vbe = some bios ∧ bios.Lists 0 modes ∧
        ∀ mode, Descent.First bios.area (modes.filter bios.matching) mode →
          bios.settable mode = false
  | .fault => fw.videoKeeps = false
  | .hang => ∃ bios, fw.vbe = some bios ∧ ∀ modes, ¬ bios.Lists 0 modes
  | .astray => fw.reads 0 = false ∨ diagSecs * sectorSize < code.length

/-- The fuel is not enough for the mode list. -/
def Unended (fw : Firmware) (fuel : Nat) (e : Stop) : Prop :=
  e = .hang ∧ ∃ bios, fw.vbe = some bios ∧ Vesa.vesaSet bios fuel = none

/-- For a list that ends, some fuel is enough. -/
theorem exists_fuel (fw : Firmware) (a20 : Bool) (code : List Byte) :
    ∃ N, ∀ fuel, N ≤ fuel → ∀ e, Unended fw fuel e → Cause fw a20 code e := by
  by_cases hlists : ∃ bios modes, fw.vbe = some bios ∧ bios.Lists 0 modes
  · obtain ⟨bios, modes, hvbe, hlists⟩ := hlists
    obtain ⟨r, hends, -⟩ := Vesa.vesaSet_found hlists
    refine ⟨modes.length + 1, fun fuel hfuel e ⟨_, bios', hvbe', hnone⟩ => ?_⟩
    cases hvbe.symm.trans hvbe'
    rw [hends fuel hfuel] at hnone
    cases hnone
  · refine ⟨0, fun fuel _ e ⟨he, bios, hvbe, _⟩ => ?_⟩
    subst he
    exact ⟨bios, hvbe, fun modes h => hlists ⟨bios, modes, hvbe, h⟩⟩

theorem read_apart {mem mem' : Mem} {a b : Nat} (h : Mem.Apart mem mem' a b)
    (hd : b ≤ 0x7000 ∨ 0x7040 ≤ a) : BootInfo.read mem' bootinfo = BootInfo.read mem bootinfo := by
  unfold BootInfo.read bootinfo
  rw [h.getLe (by omega), h.getLe (by omega), h.getLe (by omega), h.getLe (by omega),
    h.getLe (by omega), h.getLe (by omega), h.getLe (by omega), h.getLe (by omega),
    h.getLe (by omega), h.bytes (by omega)]

theorem vesaMode_ends (fw : Firmware) (fuel : Nat) (m : Machine) :
    Ends (vesaMode fw fuel) m
      (fun fb m' => m' = { m with
          mem := m.mem.put 0x20000 (fw.vbeBlocks.take 0x300), big := m.big && fw.videoKeeps } ∧
        ∃ bios mode, fw.vbe = some bios ∧ Vesa.vesaSet bios fuel = some (.set mode fb))
      (fun e => e = .die ∧ (fw.vbe = none ∨ ∃ bios modes, fw.vbe = some bios ∧
          bios.Lists 0 modes ∧ ∀ mode, Descent.First bios.area (modes.filter bios.matching) mode →
            bios.settable mode = false) ∨
        Unended fw fuel e) := by
  refine .bind_ok rfl ?_
  cases hvbe : fw.vbe with
  | none => exact .throw (Or.inl ⟨rfl, Or.inl rfl⟩)
  | some bios =>
      dsimp only
      split
      · rename_i hset
        exact .throw (Or.inr ⟨rfl, bios, hvbe, hset⟩)
      · rename_i hset
        obtain ⟨modes, hlists, hno⟩ := Vesa.vesaSet_die hset
        exact .throw (Or.inl ⟨rfl, Or.inr ⟨bios, modes, rfl, hlists, hno⟩⟩)
      · rename_i hset
        exact .pure ⟨rfl, bios, _, rfl, hset⟩

/-- Stage 2 hands over, or ends for a cause. -/
theorem stage2_ends (himg : build p vol = some img) (hs : IsStage1 p.stage1)
    (hdisk : ∀ lba < imgSectors, fw.disk lba = img.sector lba) (hres : Resident img m.mem)
    (fuel : Nat) :
    Ends (stage2 fw fuel) m
      (fun _ m' => ∃ bios mode fb, fw.vbe = some bios ∧
        Vesa.vesaSet bios fuel = some (.set mode fb) ∧ HandedOver p fw fb m'.mem)
      (fun e => Cause fw m.a20 p.stage2 e ∨ Unended fw fuel e) := by
  refine .bind_ok rfl ?_
  have hopens := a20Enable_run fw { m with big := m.big && fw.videoKeeps }
  cases hopen : fw.opensA20 m.a20 with
  | false =>
      rw [if_neg (by rw [hopen]; decide)] at hopens
      exact .of_error (run_bind_error hopens) (.inl (Or.inl hopen))
  | true =>
      rw [if_pos hopen] at hopens
      refine .bind_ok hopens (.bind_ok rfl (.bind_ok rfl ?_))
      refine ((loadKernel_ends (m := ⟨m.mem, true, true, m.nreads⟩) himg hs hdisk rfl rfl hres).imp
        (fun _ _ hq => hq) ?_).bind ?_
      · rintro e ⟨rfl, hgives⟩
        exact .inl (Or.inr (Or.inl hgives))
      rintro - m₁ ⟨ha₁, hb₁, hres₁, hkernel⟩
      refine .bind_ok rfl (((vesaMode_ends fw fuel _).imp (fun _ _ hq => hq) ?_).bind ?_)
      · rintro e (⟨rfl, hdie⟩ | hhang)
        · exact .inl (Or.inr (Or.inr hdie))
        · exact .inr hhang
      rintro fb m₂ ⟨rfl, bios, mode, hvbe, hset⟩
      have hblocks := Mem.apart_put m₁.mem 0x20000 (fw.vbeBlocks.take 0x300)
      have hsize : (fw.vbeBlocks.take 0x300).length ≤ 0x300 := by
        rw [List.length_take]
        exact Nat.min_le_left _ _
      refine .bind_ok (buildBootinfo_run fb ha₁) ?_
      cases hkeeps : fw.videoKeeps with
      | false =>
          refine .of_error (run_bind_error (buildPaging_fault ?_)) (.inl hkeeps)
          simp
      | true =>
          have hres₂ := hres₁.apart hblocks (Or.inr (by decide))
          obtain ⟨mem', hpaging, htables, hrest⟩ := buildPaging_run
            (m := ⟨infoMem fw fb (m₁.mem.put 0x20000 (fw.vbeBlocks.take 0x300)), m₁.a20,
              m₁.big && true && true, m₁.nreads⟩) ha₁ (by simp [hb₁])
          have hinfo := apart_infoMem fw fb (m₁.mem.put 0x20000 (fw.vbeBlocks.take 0x300))
          refine .bind_ok hpaging (.of_ok rfl ⟨bios, mode, fb, hvbe, hset, ?_, ?_, ?_⟩)
          · rw [hrest.bytes (Or.inr (by decide)), hinfo.bytes (Or.inr (by decide)),
              hblocks.bytes (Or.inr (by simp only [kernelDst]; omega)), hkernel]
          · have hlba : (m₁.mem.put 0x20000 (fw.vbeBlocks.take 0x300)).getLe 8 (s1 + 0x1BC) =
                p.dataLba := by
              rw [hres₂.word (by decide) (by decide), (header_words himg hs).1]
            have hguid : (m₁.mem.put 0x20000 (fw.vbeBlocks.take 0x300)).bytes (s1 + 0x1DC) 16 =
                p.guid := by
              rw [hres₂.header _ _ (by decide) (by decide), ← field_sector (by decide),
                guid_field himg]
            rw [read_apart hrest (Or.inr (by decide)), read_infoMem, hlba, hguid]
          · exact fun v hv => translate_tables htables hv

theorem boot_ends (himg : build p vol = some img) (hs : IsStage1 p.stage1)
    (hdisk : ∀ lba < imgSectors, fw.disk lba = img.sector lba) (hfirst : m.nreads = 0)
    (fuel : Nat) :
    Ends (boot fw p.stage2 fuel) m (fun _ m' => ∃ bios mode fb, fw.vbe = some bios ∧
      Vesa.vesaSet bios fuel = some (.set mode fb) ∧ HandedOver p fw fb m'.mem)
      (fun e => Cause fw m.a20 p.stage2 e ∨ Unended fw fuel e) := by
  obtain ⟨m₁, hrun, ha, hres, hcode⟩ := stage1_run hdisk m
  refine .bind_ok hrun ?_
  by_cases hthere : m₁.mem.bytes s2 p.stage2.length = p.stage2
  · have hstage2 := stage2_ends himg hs hdisk hres fuel
    rw [ha] at hstage2
    unfold Ends jumpStage2
    rw [if_pos hthere]
    exact hstage2
  · refine .of_error (if_neg hthere) ?_
    by_cases hread : fw.reads 0 = false
    · exact .inl (Or.inl hread)
    · refine .inl (Or.inr (Nat.lt_of_not_le fun hlen => hthere ?_))
      exact code_resident himg (hcode (by rw [hfirst]; simpa using hread)) hlen

/-- From the BIOS on: whenever the kernel is entered, it lies there as it was built,
with where its volume is and a memory in which every address stands for itself;
and where it is not entered, with fuel enough for the mode list, the firmware is
to blame. -/
theorem boot_hands_over (himg : build p vol = some img) (hs : IsStage1 p.stage1)
    (hdisk : ∀ lba < imgSectors, fw.disk lba = img.sector lba) (hfirst : m.nreads = 0) :
    (∀ fuel m', boot fw p.stage2 fuel m = (.ok (), m') → ∃ bios mode fb, fw.vbe = some bios ∧
        Vesa.vesaSet bios fuel = some (.set mode fb) ∧ HandedOver p fw fb m'.mem) ∧
      ∃ N, ∀ fuel, N ≤ fuel → ∀ e m', boot fw p.stage2 fuel m = (.error e, m') →
        Cause fw m.a20 p.stage2 e := by
  refine ⟨fun fuel _ h => (boot_ends himg hs hdisk hfirst fuel).ok h, ?_⟩
  obtain ⟨N, hN⟩ := exists_fuel fw m.a20 p.stage2
  refine ⟨N, fun fuel hfuel e m' h => ?_⟩
  exact ((boot_ends himg hs hdisk hfirst fuel).error h).elim id (hN fuel hfuel e)

/-- One mode, of 1024x768. -/
def goodBios : Vesa.Bios where
  word := fun i => if i = 0 then 0x118 else 0xFFFF
  off := 0
  info := fun _ => (true, ⟨0x90, 4096, 1024, 768, 32, 16, 0xE0000000⟩)
  set := fun _ => true

theorem goodBios_set : Vesa.vesaSet goodBios 3 =
    some (.set 0x118 ⟨1024, 768, 4096, 0xE0000000, 4, 1⟩) := by decide

/-- A firmware that has this mode, opens the A20 line and reads the image,
every third time at the second try. -/
def goodFirmware (img : Img) : Firmware where
  drive := 0x80
  disk := img.sector
  reads := fun i => i % 3 ≠ 1
  junk := fun _ => [0xEE]
  readKeeps := fun _ => false
  resetKeeps := fun _ => false
  videoKeeps := true
  a20Bios := false
  port92 := 0
  a20Fast := true
  vbe := some goodBios
  vbeBlocks := []
  scratch := []

/-- A machine before its first read, with the A20 line closed. -/
def emptyMachine : Machine := ⟨fun _ => 0, false, false, 0⟩

/-- The mode is the first of its area, whatever else the list may hold. -/
theorem goodBios_works {modes : List UInt16} (h : goodBios.Lists 0 modes) :
    Descent.First goodBios.area (modes.filter goodBios.matching) 0x118 := by
  have hword : goodBios.word (goodBios.off + ((0 : UInt16) <<< 1)) = 0x118 := by decide
  cases modes with
  | nil => exact absurd (hword.symm.trans h) (by decide)
  | cons mode modes =>
      obtain rfl : mode = 0x118 := h.1.symm.trans hword
      rw [List.filter_cons_of_pos (by decide)]
      exact ⟨[], _, rfl, fun a ha => absurd ha List.not_mem_nil⟩

theorem goodFirmware_no_cause (img : Img) {code : List Byte}
    (hlen : code.length ≤ diagSecs * sectorSize) (e : Stop) :
    ¬ (Cause (goodFirmware img) false code e ∨ Unended (goodFirmware img) 3 e) := by
  have hreads : ∀ i, (goodFirmware img).reads i = decide (i % 3 ≠ 1) := fun _ => rfl
  have hopens : (goodFirmware img).opensA20 false = true := by
    simp [Firmware.opensA20, goodFirmware]
  rintro (hcause | ⟨-, bios, hbios, hnone⟩)
  · cases e with
    | die =>
        rcases hcause with h | ⟨i, h⟩ | h | ⟨bios, modes, hbios, hlists, hno⟩
        · rw [hopens] at h
          cases h
        · have h0 := h 0 (by decide)
          have h1 := h 1 (by decide)
          rw [hreads, decide_eq_false_iff_not] at h0 h1
          omega
        · cases h
        · cases hbios
          exact absurd (hno _ (goodBios_works hlists)) (by decide)
    | fault => exact Bool.noConfusion hcause
    | hang =>
        obtain ⟨bios, hbios, hno⟩ := hcause
        cases hbios
        obtain ⟨modes, hlists, -⟩ := Vesa.lists_of_vesaSet goodBios_set
        exact hno modes hlists
    | astray =>
        rcases hcause with h | h
        · rw [hreads] at h
          exact absurd h (by decide)
        · omega
  · cases hbios
    rw [goodBios_set] at hnone
    cases hnone

/-- It boots whatever fits. -/
theorem goodFirmware_boots (himg : build p vol = some img) (hs : IsStage1 p.stage1)
    (hlen : p.stage2.length ≤ diagSecs * sectorSize) {fuel : Nat} (hfuel : fuel = 3) :
    ∃ m' fb, boot (goodFirmware img) p.stage2 fuel emptyMachine = (.ok (), m') ∧ fb.addr ≠ 0 ∧
      HandedOver p (goodFirmware img) fb m'.mem := by
  have hdisk : ∀ lba < imgSectors, (goodFirmware img).disk lba = img.sector lba := fun _ _ => rfl
  have hends := boot_ends (m := emptyMachine) himg hs hdisk rfl fuel
  rcases hrun : boot (goodFirmware img) p.stage2 fuel emptyMachine with ⟨e | u, m'⟩
  · have hcause := hends.error hrun
    rw [hfuel] at hcause
    exact absurd hcause (goodFirmware_no_cause img hlen e)
  · obtain ⟨bios, mode, fb, hvbe, hset, hover⟩ := hends.ok hrun
    refine ⟨m', fb, rfl, ?_, hover⟩
    cases hvbe
    rw [hfuel, goodBios_set] at hset
    cases hset
    decide

theorem smallParts_stage2 : smallParts.stage2.length ≤ diagSecs * sectorSize := by
  simp [smallParts, diagSecs, sectorSize, -List.reduceReplicate]

theorem boot_hands_over_small : ∃ img m' fuel,
    build smallParts (List.replicate (imgBytes - 2048 * sectorSize) 0) = some img ∧
      boot (goodFirmware img) smallParts.stage2 fuel emptyMachine = (.ok (), m') ∧
      ∃ fb, HandedOver smallParts (goodFirmware img) fb m'.mem := by
  have hb := build_of_fits smallParts_fits smallVolume_length
  generalize (bootRegion smallParts).put (smallParts.dataLba * sectorSize)
    (List.replicate (imgBytes - 2048 * sectorSize) 0) = img at hb
  obtain ⟨fuel, hfuel⟩ : ∃ n, n = 3 := ⟨3, rfl⟩
  obtain ⟨m', -, hrun, -, -⟩ := goodFirmware_boots hb isStage1_small smallParts_stage2 hfuel
  have hdisk : ∀ lba < imgSectors, (goodFirmware img).disk lba = Img.sector img lba :=
    fun _ _ => rfl
  obtain ⟨-, -, fb, -, -, hover⟩ :=
    (boot_hands_over (m := emptyMachine) hb isStage1_small hdisk rfl).1 fuel m' hrun
  exact ⟨img, m', fuel, hb, hrun, fb, hover⟩

end Boot

end TablesOS
