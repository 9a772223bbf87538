import TablesOS.Boot.Image
import TablesOS.Kernel.Mbr
import Mathlib.Data.List.GetD

/-!
# The image reads back

Who parses the first sector of an image finds where the builder put the stages,
the kernel and the volume, and at these places what it put there. The parts are
apart, so none of them is written over, and no count is cut off on its way into
a field of the header: a part that is too long for its count does not fit onto
the image either.
-/

namespace TablesOS

namespace Boot

open Mbr

variable {p : Parts} {vol : List Byte} {img : Img}

/-- A run of bytes, filled up with zeros to whole sectors. -/
def padded (bs : List Byte) : List Byte :=
  bs ++ List.replicate (sectors bs.length * sectorSize - bs.length) 0

/-- The sectors of an image from an LBA on. -/
def Img.run (img : Img) (lba n : Nat) : List Byte := img.slice (lba * sectorSize) (n * sectorSize)

/-- Stage 1 as it is assembled: one sector, with the magic, the version and the
boot signature in their places. -/
structure IsStage1 (s : List Byte) : Prop where
  length : s.length = sectorSize
  magic : field s 0x1B0 8 = bootMagic
  version : field s 0x1B8 2 = [1, 0]
  signature : field s 510 2 = [0x55, 0xAA]

/-! ## What a build went through -/

/-- The image before the volume is on it. -/
def bootRegion (p : Parts) : Img :=
  (((patch p ((Buf.zero imgBytes).put 0 p.stage1)).put 0x1DC p.guid).put
    (stage2Lba * sectorSize) p.stage2).put (kernelLba * sectorSize) p.kernel

/-- The parts have room. -/
structure Fits (p : Parts) : Prop where
  stage1 : p.stage1.length = sectorSize
  stage2 : p.stage2.length ≤ stage2MaxSectors * sectorSize
  kernel : kernelLba * sectorSize + p.kernel.length ≤ p.dataLba * sectorSize
  volume : p.dataLba + 4096 < imgSectors

theorem place_eq_some {o : Nat} {bs : List Byte} {img' : Img} (h : place o bs img = some img') :
    o + bs.length ≤ imgBytes ∧ img' = img.put o bs := by
  unfold place at h
  split at h
  · cases h
    exact ⟨‹_›, rfl⟩
  · cases h

/-- A length that is small enough to be placed is counted right. -/
theorem sectors_of_le {len : Nat} (h : len ≤ imgBytes) :
    sectors len = (len + sectorSize - 1) / sectorSize := by
  have := imgBytes_eq
  have := imgSectors_eq
  unfold sectors
  rw [Nat.mod_eq_of_lt]
  show (len + 512 - 1) / 512 < 2 ^ 32
  omega

theorem le_sectors {len : Nat} (h : len ≤ imgBytes) : len ≤ sectors len * sectorSize := by
  rw [sectors_of_le h]
  clear h
  show len ≤ (len + 512 - 1) / 512 * 512
  omega

theorem sectors_le {len n : Nat} (h : len ≤ n * sectorSize) (hn : n ≤ imgSectors) :
    sectors len ≤ n := by
  have h' : len ≤ n * 512 := h
  rw [sectors_of_le (Nat.le_trans h (Nat.mul_le_mul_right _ hn))]
  clear h hn
  show (len + 512 - 1) / 512 ≤ n
  omega

theorem alignUp_ge (v : Nat) {a : Nat} (ha : 0 < a) : v ≤ alignUp v a := by
  have h := Nat.div_add_mod (v + a - 1) a
  have hm := Nat.mod_lt (v + a - 1) ha
  rw [Nat.mul_comm] at h
  unfold alignUp
  omega

theorem build_eq (h : build p vol = some img) :
    Fits p ∧ vol.length = imgBytes - p.dataLba * sectorSize ∧
      img = (bootRegion p).put (p.dataLba * sectorSize) vol := by
  simp only [build] at h
  split at h
  · cases h
  rename_i h1
  split at h
  · cases h
  rename_i h2
  split at h
  · cases h
  rename_i h3
  simp only [Option.bind_eq_bind, Option.bind_eq_some_iff] at h
  obtain ⟨i1, hi1, i2, hi2, i3, hi3, i4, hi4, h⟩ := h
  obtain ⟨-, rfl⟩ := place_eq_some hi1
  obtain ⟨-, rfl⟩ := place_eq_some hi2
  obtain ⟨hr3, rfl⟩ := place_eq_some hi3
  obtain ⟨hr4, rfl⟩ := place_eq_some hi4
  split at h
  · cases h
  rename_i h4
  obtain ⟨-, rfl⟩ := place_eq_some h
  have hs2 : p.stage2.length ≤ p.s2Secs * sectorSize := le_sectors (by omega)
  have hk : p.kernel.length ≤ p.kSecs * sectorSize := le_sectors (by omega)
  have hdata : kernelLba + p.kSecs ≤ p.dataLba := alignUp_ge _ (by omega)
  refine ⟨⟨by omega, Nat.le_trans hs2 (Nat.mul_le_mul_right _ (by omega)), ?_, by omega⟩, by omega,
    rfl⟩
  calc kernelLba * sectorSize + p.kernel.length
      ≤ kernelLba * sectorSize + p.kSecs * sectorSize := Nat.add_le_add_left hk _
    _ = (kernelLba + p.kSecs) * sectorSize := (Nat.add_mul _ _ _).symm
    _ ≤ p.dataLba * sectorSize := Nat.mul_le_mul_right _ hdata

theorem place_of_le {o : Nat} {bs : List Byte} (h : o + bs.length ≤ imgBytes) :
    place o bs img = some (img.put o bs) := if_pos h

theorem s2Secs_le (hf : Fits p) : p.s2Secs ≤ stage2MaxSectors :=
  sectors_le hf.stage2 (by decide)

theorem kSecs_le : kernelLba + p.kSecs ≤ p.dataLba := alignUp_ge _ (by decide)

theorem dvd_dataLba : 2048 ∣ p.dataLba := Nat.dvd_mul_left _ _

theorem le_s2Secs (hf : Fits p) : p.stage2.length ≤ p.s2Secs * sectorSize :=
  le_sectors (Nat.le_trans hf.stage2 (by decide))

theorem dataLba_le (hf : Fits p) : p.dataLba * sectorSize ≤ imgBytes :=
  Nat.mul_le_mul_right _ (by have := hf.volume; omega)

theorem le_kSecs (hf : Fits p) : p.kernel.length ≤ p.kSecs * sectorSize :=
  le_sectors (by have := dataLba_le hf; have := hf.kernel; omega)

/-- Parts that have room are laid out. -/
theorem build_of_fits (hf : Fits p) (hvol : vol.length = imgBytes - p.dataLba * sectorSize) :
    build p vol = some ((bootRegion p).put (p.dataLba * sectorSize) vol) := by
  have hdata := dataLba_le hf
  have hg := p.guid_length
  have hstage1 : 0 + p.stage1.length ≤ imgBytes := by
    rw [hf.stage1]
    decide
  have hguid : 0x1DC + p.guid.length ≤ imgBytes := by
    rw [hg]
    decide
  have hstage2 : stage2Lba * sectorSize + p.stage2.length ≤ imgBytes :=
    Nat.le_trans (Nat.add_le_add_left hf.stage2 _) (by decide)
  have hlast : p.dataLba * sectorSize + vol.length ≤ imgBytes :=
    Nat.le_of_eq (by rw [hvol, Nat.add_sub_cancel' hdata])
  have hs2 := s2Secs_le hf
  have hv := hf.volume
  rw [build, if_neg (by rw [hf.stage1]; decide), if_neg (by omega), if_neg (by omega),
    place_of_le hstage1]
  simp only [Option.bind_eq_bind, Option.bind_some]
  rw [place_of_le hguid, Option.bind_some, place_of_le hstage2, Option.bind_some,
    place_of_le (Nat.le_trans hf.kernel hdata), Option.bind_some, if_neg (by omega),
    place_of_le hlast]
  rfl

theorem padded_stage2 : padded p.stage2 =
    p.stage2 ++ List.replicate (p.s2Secs * sectorSize - p.stage2.length) 0 := rfl

theorem padded_kernel : padded p.kernel =
    p.kernel ++ List.replicate (p.kSecs * sectorSize - p.kernel.length) 0 := rfl

attribute [local irreducible] Parts.s2Secs Parts.kSecs Parts.dataLba

/-! ## Regions that are apart -/

theorem slice_zero (o len : Nat) : (Buf.zero imgBytes).slice o len = List.replicate len 0 := by
  refine List.ext_getElem (by simp) fun i h1 h2 => ?_
  rw [Buf.getElem_slice, Buf.get_zero, List.getElem_replicate]

/-- The header and stage 1 end with the first sector. -/
theorem slice_behind (hf : Fits p) {o len : Nat} (ho : sectorSize ≤ o) :
    ((patch p ((Buf.zero imgBytes).put 0 p.stage1)).put 0x1DC p.guid).slice o len =
      List.replicate len 0 := by
  have hg := p.guid_length
  have h1 := hf.stage1
  simp only [sectorSize] at ho h1
  rw [Buf.slice_put_disjoint (by omega)]
  unfold patch
  rw [Buf.slice_putLe_disjoint (by omega), Buf.slice_putLe_disjoint (by omega),
    Buf.slice_putLe_disjoint (by omega), Buf.slice_putLe_disjoint (by omega),
    Buf.slice_putLe_disjoint (by omega), Buf.slice_putLe_disjoint (by omega),
    Buf.slice_putLe_disjoint (by omega), Buf.slice_put_disjoint (by omega), slice_zero]

/-- The volume lies behind the boot region. -/
theorem run_front (himg : build p vol = some img) {lba n : Nat} (h : lba + n ≤ p.dataLba) :
    img.run lba n = (bootRegion p).run lba n := by
  obtain ⟨-, -, rfl⟩ := build_eq himg
  refine Buf.slice_put_disjoint (Or.inl ?_)
  rw [← Nat.add_mul]
  exact Nat.mul_le_mul_right _ h

theorem stage2_run (himg : build p vol = some img) :
    img.run stage2Lba p.s2Secs = padded p.stage2 := by
  have hf := (build_eq himg).1
  have hs := s2Secs_le hf
  have hk := kSecs_le (p := p)
  have hend : p.s2Secs * sectorSize ≤ 63 * sectorSize := Nat.mul_le_mul_right _ hs
  have himg' : 1 * sectorSize + p.s2Secs * sectorSize ≤ imgBytes :=
    Nat.le_trans (Nat.add_le_add_left hend _) (by decide)
  simp only [stage2MaxSectors, kernelLba] at hs hk
  rw [run_front himg (by simp only [stage2Lba]; omega), Img.run, bootRegion,
    Buf.slice_put_disjoint (by simp only [stage2Lba, kernelLba, sectorSize] at hend ⊢; omega),
    Buf.slice_put_front (le_s2Secs hf) himg', slice_behind hf (by decide), List.drop_replicate,
    padded_stage2]

theorem kernel_run (himg : build p vol = some img) :
    img.run kernelLba p.kSecs = padded p.kernel := by
  have hf := (build_eq himg).1
  have h2 := hf.stage2
  have hend : (kernelLba + p.kSecs) * sectorSize ≤ p.dataLba * sectorSize :=
    Nat.mul_le_mul_right _ kSecs_le
  rw [Nat.add_mul] at hend
  rw [run_front himg kSecs_le, Img.run, bootRegion,
    Buf.slice_put_front (le_kSecs hf) (Nat.le_trans hend (dataLba_le hf)),
    Buf.slice_put_disjoint, slice_behind hf (by decide), List.drop_replicate, padded_kernel]
  right
  simp only [stage2Lba, kernelLba, stage2MaxSectors, sectorSize] at h2 ⊢
  omega

theorem volume_slice (himg : build p vol = some img) :
    img.slice (p.dataLba * sectorSize) vol.length = vol := by
  obtain ⟨hf, hlen, rfl⟩ := build_eq himg
  refine Buf.slice_put_self ?_
  exact Nat.le_of_eq (by rw [hlen, Nat.add_sub_cancel' (dataLba_le hf)])

/-! ## The header -/

/-- A run within the first sector. -/
theorem field_sector {o k : Nat} (h : o + k ≤ sectorSize) :
    field (img.run 0 1) o k = img.slice o k := by
  rw [field, Img.run, Buf.take_drop_slice (by omega), Nat.zero_mul, Nat.zero_add]

/-- The first sector, under the other parts. -/
theorem slice_first (himg : build p vol = some img) {o k : Nat} (h : o + k ≤ sectorSize) :
    img.slice o k =
      ((patch p ((Buf.zero imgBytes).put 0 p.stage1)).put 0x1DC p.guid).slice o k := by
  obtain ⟨-, -, rfl⟩ := build_eq himg
  have hk := Nat.le_trans (Nat.le_add_right kernelLba p.kSecs) kSecs_le
  have hdata : kernelLba * sectorSize ≤ p.dataLba * sectorSize := Nat.mul_le_mul_right _ hk
  simp only [kernelLba, sectorSize] at hdata h
  rw [Buf.slice_put_disjoint (by simp only [sectorSize]; omega), bootRegion,
    Buf.slice_put_disjoint (by simp only [kernelLba, sectorSize]; omega),
    Buf.slice_put_disjoint (by simp only [stage2Lba, sectorSize]; omega)]

/-- What stage 1 has outside of the patched fields stays. -/
theorem stage1_slice (himg : build p vol = some img) {o k : Nat}
    (h : o + k ≤ 0x1BC ∨ 0x1EC ≤ o ∧ o + k ≤ sectorSize) :
    img.slice o k = field p.stage1 o k := by
  have hg := p.guid_length
  have hlen := (build_eq himg).1.stage1
  have hself : ((Buf.zero imgBytes).put 0 p.stage1).slice 0 p.stage1.length = p.stage1 :=
    Buf.slice_put_self (by rw [hlen]; decide)
  simp only [sectorSize] at h hlen
  rw [slice_first himg (by simp only [sectorSize]; omega), Buf.slice_put_disjoint (by omega)]
  unfold patch
  rw [Buf.slice_putLe_disjoint (by omega), Buf.slice_putLe_disjoint (by omega),
    Buf.slice_putLe_disjoint (by omega), Buf.slice_putLe_disjoint (by omega),
    Buf.slice_putLe_disjoint (by omega), Buf.slice_putLe_disjoint (by omega),
    Buf.slice_putLe_disjoint (by omega), field]
  conv_rhs => rw [← hself]
  rw [Buf.take_drop_slice (by omega), Nat.zero_add]

/-- A field of the header that the builder wrote. -/
theorem header_word (himg : build p vol = some img) {o k : Nat} (h : o + k ≤ 0x1DC) :
    word (img.run 0 1) o k = (patch p ((Buf.zero imgBytes).put 0 p.stage1)).getLe k o := by
  rw [word, field_sector (Nat.le_trans h (by decide)),
    slice_first himg (Nat.le_trans h (by decide)),
    Buf.slice_put_disjoint (Or.inl h), Buf.getLe]

theorem guid_field (himg : build p vol = some img) : field (img.run 0 1) 0x1DC 16 = p.guid := by
  have h : ((patch p ((Buf.zero imgBytes).put 0 p.stage1)).put 0x1DC p.guid).slice 0x1DC
      p.guid.length = p.guid :=
    Buf.slice_put_self (by rw [p.guid_length]; decide)
  rw [field_sector (by decide), slice_first himg (by decide), ← p.guid_length, h]

/-- The header of an image. -/
def Parts.header (p : Parts) : Header where
  version := 1
  dataLocLba := p.dataLba
  stage2Lba := stage2Lba
  stage2Sectors := p.s2Secs
  kernelLba := kernelLba
  kernelSectors := p.kSecs
  kernelLoad := kernelLoad
  kernelEntry := kernelLoad
  sysGuid := p.guid

theorem header_run (himg : build p vol = some img) (hs : IsStage1 p.stage1) :
    header (img.run 0 1) = p.header := by
  have hf := (build_eq himg).1
  have hk := kSecs_le (p := p)
  have hv := hf.volume
  have hs2 := s2Secs_le hf
  have hbytes := imgBytes_eq
  rw [imgSectors_eq] at hv hbytes
  simp only [kernelLba, stage2MaxSectors] at hk hs2
  have hversion : word (img.run 0 1) 0x1B8 2 = 1 := by
    rw [word, field_sector (by decide), stage1_slice himg (by decide), hs.version]
    rfl
  unfold header Parts.header
  rw [hversion, guid_field himg, header_word himg (by decide), header_word himg (by decide),
    header_word himg (by decide), header_word himg (by decide), header_word himg (by decide),
    header_word himg (by decide), header_word himg (by decide)]
  simp (disch := omega) only [patch, stage2Lba, kernelLba, kernelLoad, Buf.getLe_putLe_disjoint,
    Buf.getLe_putLe_self]

/-- The words of it that stage 2 reads. -/
theorem header_words (himg : build p vol = some img) (hs : IsStage1 p.stage1) :
    word (img.run 0 1) 0x1BC 8 = p.dataLba ∧ word (img.run 0 1) 0x1CC 4 = kernelLba ∧
      word (img.run 0 1) 0x1D0 4 = p.kSecs := by
  have h := header_run himg hs
  simp only [header, Parts.header, Header.mk.injEq] at h
  exact ⟨h.2.1, h.2.2.2.2.1, h.2.2.2.2.2.1⟩

theorem getD_field (s : List Byte) {o k i : Nat} (h : i < k) :
    (field s o k).getD i 0 = s.getD (o + i) 0 := by
  simp [field, List.getD_eq_getElem?_getD, h]

/-- The boot signature stays, and so does the magic. -/
theorem parse_run (himg : build p vol = some img) (hs : IsStage1 p.stage1) :
    parse (img.run 0 1) = .tablesOs p.header := by
  have hmagic : field (img.run 0 1) 0x1B0 8 = bootMagic := by
    rw [field_sector (by decide), stage1_slice himg (by decide), hs.magic]
  have hsig : field (img.run 0 1) 510 2 = [0x55, 0xAA] := by
    rw [field_sector (by decide), stage1_slice himg (by decide), hs.signature]
  have hsignature : hasSignature (img.run 0 1) = true := by
    have h0 := getD_field (img.run 0 1) (o := 510) (k := 2) (i := 0) (by decide)
    have h1 := getD_field (img.run 0 1) (o := 510) (k := 2) (i := 1) (by decide)
    rw [hsig] at h0 h1
    rw [hasSignature, ← h0, ← h1]
    rfl
  have hlen : ¬ (img.run 0 1).length < 512 := by simp [Img.run]
  rw [parse, if_neg hlen, if_pos ⟨hmagic, hsignature⟩, header_run himg hs]

/-! ## Another system id -/

/-- The sector with another system id, as the installer writes it. -/
def withGuid (s guid : List Byte) : List Byte := s.take 0x1DC ++ guid ++ s.drop (0x1DC + 16)

section WithGuid

variable {s guid : List Byte} {o k : Nat}

theorem length_withGuid (hlen : s.length = 512) (hg : guid.length = 16) :
    (withGuid s guid).length = 512 := by
  simp [withGuid, hlen, hg]

theorem getD_withGuid (hlen : s.length = 512) (hg : guid.length = 16) {i : Nat}
    (h : i < 0x1DC ∨ 0x1EC ≤ i) : (withGuid s guid).getD i 0 = s.getD i 0 := by
  simp only [withGuid, List.getD_eq_getElem?_getD, List.append_assoc]
  rcases h with h | h
  · rw [List.getElem?_append_left (by simp [hlen]; omega), List.getElem?_take_of_lt h]
  · rw [List.getElem?_append_right (by simp [hlen]; omega),
      List.getElem?_append_right (by simp [hlen, hg]; omega), List.getElem?_drop]
    congr 2
    simp [hlen, hg]
    omega

/-- A field that the id is not in. -/
theorem field_withGuid (hlen : s.length = 512) (hg : guid.length = 16)
    (h : o + k ≤ 0x1DC ∨ 0x1EC ≤ o) : field (withGuid s guid) o k = field s o k := by
  have hl : (field (withGuid s guid) o k).length = (field s o k).length := by
    simp [field, length_withGuid hlen hg, hlen]
  refine List.ext_getElem hl fun i h1 h2 => ?_
  have hi : i < k := by
    simp [field] at h1
    omega
  have hget := getD_withGuid hlen hg (i := o + i) (by omega)
  rw [← getD_field _ hi, ← getD_field _ hi] at hget
  rwa [List.getD_eq_getElem _ _ h1, List.getD_eq_getElem _ _ h2] at hget

theorem field_guid (hlen : s.length = 512) (hg : guid.length = 16) :
    field (withGuid s guid) 0x1DC 16 = guid := by
  have h : (s.take 0x1DC).length = 0x1DC := by simp [hlen]
  rw [field, withGuid, List.append_assoc, List.drop_left' h, ← hg, List.take_left']
  rfl

/-- Only the id is parsed to something else. -/
theorem parse_withGuid (hlen : s.length = 512) (hg : guid.length = 16) {h : Header}
    (hp : parse s = .tablesOs h) :
    parse (withGuid s guid) = .tablesOs { h with sysGuid := guid } := by
  have hsig : hasSignature (withGuid s guid) = hasSignature s := by
    rw [hasSignature, getD_withGuid hlen hg (by omega), getD_withGuid hlen hg (by omega),
      hasSignature]
  rw [parse, if_neg (by omega)] at hp
  split at hp
  · rename_i hc
    cases hp
    rw [parse, if_neg (by rw [length_withGuid hlen hg]; decide), hsig,
      field_withGuid hlen hg (by omega), if_pos hc, header, header]
    simp only [word]
    rw [field_guid hlen hg, field_withGuid hlen hg (by omega), field_withGuid hlen hg (by omega),
      field_withGuid hlen hg (by omega), field_withGuid hlen hg (by omega),
      field_withGuid hlen hg (by omega), field_withGuid hlen hg (by omega),
      field_withGuid hlen hg (by omega), field_withGuid hlen hg (by omega)]
  · split at hp
    · split at hp <;> cases hp
    · split at hp <;> cases hp

end WithGuid

/-! ## Round trip -/

/-- Parsing the first sector of an image leads to all that the builder put on it,
and still does after an installer has given the copy an id of its own. -/
theorem image_reads_back (himg : build p vol = some img) (hs : IsStage1 p.stage1) :
    ∃ h, parse (img.run 0 1) = .tablesOs h ∧ h.version = 1 ∧ h.sysGuid = p.guid ∧
      h.kernelLoad = kernelLoad ∧ h.kernelEntry = kernelLoad ∧
      img.run h.stage2Lba h.stage2Sectors = padded p.stage2 ∧
      img.run h.kernelLba h.kernelSectors = padded p.kernel ∧
      img.slice (h.dataLocLba * sectorSize) (imgBytes - h.dataLocLba * sectorSize) = vol ∧
      h.stage2Lba + h.stage2Sectors ≤ h.kernelLba ∧
      h.kernelLba + h.kernelSectors ≤ h.dataLocLba ∧ 2048 ∣ h.dataLocLba ∧
      h.dataLocLba < imgSectors ∧
      ∀ guid, guid.length = 16 →
        parse (withGuid (img.run 0 1) guid) = .tablesOs { h with sysGuid := guid } := by
  have hf := (build_eq himg).1
  have hs2 : stage2Lba + p.s2Secs ≤ kernelLba := Nat.add_le_add_left (s2Secs_le hf) 1
  have hvol : img.slice (p.dataLba * sectorSize) (imgBytes - p.dataLba * sectorSize) = vol := by
    rw [← (build_eq himg).2.1]
    exact volume_slice himg
  have hparse := parse_run himg hs
  have hlen : (img.run 0 1).length = 512 := by simp [Img.run]
  exact ⟨p.header, hparse, rfl, rfl, rfl, rfl, stage2_run himg, kernel_run himg, hvol, hs2,
    kSecs_le, dvd_dataLba, Nat.lt_of_le_of_lt (Nat.le_add_right _ _) hf.volume,
    fun guid hg => parse_withGuid hlen hg hparse⟩

/-- A stage 1 without code, a stage 2 of two sectors and a kernel of three. -/
def smallParts : Parts where
  stage1 := List.replicate 0x1B0 0 ++ (bootMagic ++ ([1, 0] ++ (List.replicate 68 0 ++
    [0x55, 0xAA])))
  stage2 := List.replicate 600 0x90
  kernel := List.replicate 1300 0xF4
  guid := List.replicate 16 7
  guid_length := rfl

theorem isStage1_small : IsStage1 smallParts.stage1 := by
  constructor <;>
    simp [smallParts, field, bootMagic, sectorSize, List.drop_append, List.take_append,
      -List.reduceReplicate]

theorem smallParts_dataLba : smallParts.dataLba = 2048 := by
  simp [Parts.dataLba, Parts.kSecs, smallParts, sectors, alignUp, kernelLba, sectorSize,
    -List.reduceReplicate]

theorem smallParts_fits : Fits smallParts := by
  constructor
  · simp [smallParts, bootMagic, sectorSize, -List.reduceReplicate]
  · simp [smallParts, stage2MaxSectors, sectorSize, -List.reduceReplicate]
  · rw [smallParts_dataLba]
    simp [smallParts, kernelLba, sectorSize, -List.reduceReplicate]
  · rw [smallParts_dataLba]
    decide

/-- An empty volume behind them. -/
theorem smallVolume_length : (List.replicate (imgBytes - 2048 * sectorSize) (0 : Byte)).length =
    imgBytes - smallParts.dataLba * sectorSize := by
  rw [smallParts_dataLba, List.length_replicate]

theorem image_reads_back_small : ∃ img h,
    build smallParts (List.replicate (imgBytes - 2048 * sectorSize) 0) = some img ∧
      parse (img.run 0 1) = .tablesOs h ∧ h.sysGuid = smallParts.guid ∧
      img.run h.kernelLba h.kernelSectors = padded smallParts.kernel := by
  have hb := build_of_fits smallParts_fits smallVolume_length
  obtain ⟨h, hparse, -, hguid, -, -, -, hkernel, -⟩ := image_reads_back hb isStage1_small
  exact ⟨_, h, hb, hparse, hguid, hkernel⟩

end Boot

end TablesOS
