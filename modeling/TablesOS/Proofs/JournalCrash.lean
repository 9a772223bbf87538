import TablesOS.Proofs.DeviceCalls
import TablesOS.Engine.Pager

/-!
# A transaction survives whole or not at all

Both halves of the journal are sequences of `sync`s, so what a power loss can
leave behind is settled stage by stage. There are only two kinds of medium
that count: `Released V`, where the control state is not `COMMITTED` and the
home pages are `V`, and `Logged V ws`, where the control pages carry `ws` as
committed, its images stand in the journal, and the home pages of `ws` may
hold anything. `commit` leads from the first over the second to the first
again, with the new home pages; recovery leads from either to the first. The
one step between them is a single sector, because everything else the control
pages hold was made durable beforehand.
-/

namespace TablesOS

open Medium Disk

namespace Journal

/-! ## The control pages -/

/-- The state word of the journal, in the first control sector. -/
def stateWord (s : Sector) : Nat := s.getLe 4 8

/-- The sectors of the home pages: page 0 and the data pages. -/
def Home (lba : Nat) : Prop := lba < pageSectors ∨ firstDataPage * pageSectors ≤ lba

/-- The writes of `write_ctrl`. -/
def ctrlPages (buf : Buf ctrlSize) : List (Nat × Page) :=
  (List.range jctrlPages).map fun p => (1 + p, ctrlPage buf p)

/-- The writes of the staging loop. -/
def stagePages (ws : List (Nat × Page)) : List (Nat × Page) :=
  ws.zipIdx.map fun w => (jdataStartPage + w.2, w.1.2)

theorem forM_map {ι κ : Type} (g : ι → κ) (f : κ → DevM Disk PUnit) (xs : List ι) :
    (xs.map g).forM f = xs.forM fun x => f (g x) := by
  induction xs with
  | nil => rfl
  | cons x xs ih =>
      rw [List.forM_eq_forM, List.forM_eq_forM] at *
      rw [List.map_cons, List.forM_cons, List.forM_cons, ih]

theorem writeCtrl_eq (buf : Buf ctrlSize) :
    (writeCtrl buf : DevM Disk Unit) = writePages (ctrlPages buf) := by
  rw [writePages, ctrlPages, forM_map]
  rfl

theorem stage_eq (ws : List (Nat × Page)) :
    (stage (ws.map (·.2)).zipIdx : DevM Disk Unit) = writePages (stagePages ws) := by
  rw [writePages, stagePages, forM_map, stage, List.zipIdx_map, forM_map]
  rfl

/-- The three ways the control pages are written in one commit. -/
theorem commit_eq {txid : Nat} {ws : List (Nat × Page)} (h : ws.length ≤ jcap) :
    (commit txid ws : DevM Disk Unit) = (do
      writePages (stagePages ws)
      sync (ctrlPages (renderCtrl (ws.map (·.1)) txid stateEmpty))
      sync (ctrlPages (renderCtrl (ws.map (·.1)) txid stateCommitted))
      sync ws
      sync (ctrlPages (renderCtrl (ws.map (·.1)) txid stateEmpty))) := by
  rw [commit, if_neg (by omega)]
  simp only [stage_eq, writeCtrl_eq, sync, bind_assoc]
  rfl

/-! ### What they hold -/

/-- The control pages of a medium, as one buffer. -/
def ctrlOf (V : Nat → Sector) : Buf ctrlSize := Buf.join fun q => image V (1 + q)

theorem get_ctrlPage (buf : Buf ctrlSize) (q : Nat) {j : Nat} (hj : j < pageSize) :
    (ctrlPage buf q).get j = buf.get (q * pageSize + j) := by
  rw [Buf.get, dif_pos hj]
  rfl

theorem ctrlOf_eq {V : Nat → Sector} {buf : Buf ctrlSize}
    (h : ∀ q < jctrlPages, image V (1 + q) = ctrlPage buf q) : ctrlOf V = buf := by
  refine Buf.ext fun j hj => ?_
  have hdiv : j / pageSize < jctrlPages := by
    simp only [ctrlSize, jctrlPages, pageSize] at *
    omega
  have hmod : j % pageSize < pageSize := Nat.mod_lt _ (by decide)
  rw [ctrlOf, Buf.get_join _ hj, h _ hdiv, get_ctrlPage _ _ hmod,
    Nat.div_add_mod' j pageSize]

theorem calls_readCtrl {n : Nat} {π : Nat → Bool} {P E : Medium Sector → Prop}
    {V : Nat → Sector} (hn : n < 2 ^ 64)
    (hr : (1 + jctrlPages) * pageSectors ≤ n) (hV : ∀ m, P m → m.view = V)
    (hE : ∀ m, P m → E m) :
    Calls n π (pageSectors * jctrlPages) P (readCtrl : DevM Disk (Option Ctrl))
      (fun c m => c = decodeCtrl (ctrlOf V) ∧ P m) E := by
  have hloop : ∀ k ≤ jctrlPages, Calls n π (pageSectors * k) P
      ((List.range k).foldlM (fun (buf : Buf ctrlSize) p => do
        let pg ← readPage (1 + p) (Buf.zero pageSize)
        pure (buf.put (p * pageSize) pg.toList)) (Buf.zero ctrlSize) : DevM Disk _)
      (fun x m => x = Buf.overlay (ctrlOf V) (Buf.zero ctrlSize) (k * pageSize) ∧ P m) E := by
    intro k
    induction k with
    | zero =>
        intro _
        refine Calls.pure fun m hm => ⟨?_, hm⟩
        rw [Nat.zero_mul, Buf.overlay_zero]
    | succ k ih =>
        intro hk
        rw [List.range_succ, List.foldlM_append, Nat.mul_succ]
        refine (ih (by omega)).bind fun x => ?_
        show Calls n π (pageSectors + 0) _ ((do
          let pg ← readPage (1 + k) (Buf.zero pageSize)
          pure (x.put (k * pageSize) pg.toList)) >>= pure) _ _
        rw [bind_pure]
        refine (calls_readPage hn ?_ (fun m hm => hV m hm.2) fun m hm => hE m hm.2).bind
          fun s => Calls.pure ?_
        · simp only [pageSectors, jctrlPages] at *
          omega
        · rintro m ⟨rfl, rfl, hm⟩
          exact ⟨Buf.overlay_put _ _ k, hm⟩
  refine (hloop jctrlPages (Nat.le_refl _)).bind fun x => Calls.pure ?_
  rintro m ⟨rfl, hm⟩
  rw [show jctrlPages * pageSize = ctrlSize from rfl, Buf.overlay_all _ _ (Nat.le_refl _)]
  exact ⟨rfl, hm⟩

/-! ### Rendering and decoding -/

/-- The entries past a prefix of them are still there after the next ones are
put. -/
theorem getLe_putEntries_other {k o : Nat} (es : List Nat) (s : Nat) (buf : Buf ctrlSize)
    (h : o + k ≤ headerLen + s * 8) :
    ((es.zipIdx s).foldl (fun buf e => buf.putLe 8 (headerLen + e.2 * 8) e.1) buf).getLe k o =
      buf.getLe k o := by
  induction es generalizing s buf with
  | nil => rfl
  | cons e es ih =>
      rw [List.zipIdx_cons, List.foldl_cons, ih (s + 1) _ (by omega),
        Buf.getLe_putLe_disjoint (by simp only; omega)]

theorem getLe_putEntries (es : List Nat) (s : Nat) (buf : Buf ctrlSize) {i : Nat}
    (hi : i < es.length) (hlt : es[i] < 2 ^ 64)
    (hfit : headerLen + (s + es.length) * 8 ≤ ctrlSize) :
    ((es.zipIdx s).foldl (fun buf e => buf.putLe 8 (headerLen + e.2 * 8) e.1) buf).getLe 8
      (headerLen + (s + i) * 8) = es[i] := by
  induction es generalizing s buf i with
  | nil => simp at hi
  | cons e es ih =>
      rw [List.zipIdx_cons, List.foldl_cons]
      rw [List.length_cons] at hfit hi
      cases i with
      | zero =>
          rw [getLe_putEntries_other _ _ _ (by omega), Nat.add_zero]
          exact Buf.getLe_putLe_self (by simp only; omega) (by simpa using hlt)
      | succ i =>
          have h := ih (s + 1) (buf.putLe 8 (headerLen + s * 8) e) (i := i) (by omega)
            (by simpa using hlt) (by omega)
          rw [show s + 1 + i = s + (i + 1) by omega] at h
          simpa using h

/-- The header words do not touch the entries. -/
theorem getLe_renderCtrl_entries (es : List Nat) (txid state : Nat) {k o : Nat}
    (h : headerLen ≤ o) :
    (renderCtrl es txid state).getLe k o = (putEntries es (Buf.zero ctrlSize)).getLe k o := by
  simp only [headerLen] at h
  unfold renderCtrl
  iterate 6 rw [Buf.getLe_putLe_disjoint (by omega)]

theorem crc32_lt (bs : List Byte) : crc32 bs < 2 ^ 32 := UInt32.toNat_lt _

/-- The header words, read back. -/
theorem header_renderCtrl (es : List Nat) {txid state : Nat} (ht : txid < 2 ^ 64)
    (hs : state < 2 ^ 32) (hl : es.length ≤ jcap) :
    (renderCtrl es txid state).getLe 4 0 = magic ∧
    (renderCtrl es txid state).getLe 4 8 = state ∧
    (renderCtrl es txid state).getLe 4 12 = crc32 (crcInput txid es.length es) ∧
    (renderCtrl es txid state).getLe 8 16 = txid ∧
    (renderCtrl es txid state).getLe 8 24 = es.length := by
  have hcrc := crc32_lt (crcInput txid es.length es)
  have hlen : es.length < 2 ^ 64 := by
    simp only [jcap, pageSize, headerLen] at hl
    omega
  have hfit : ∀ o, o ≤ 24 → o + 8 ≤ ctrlSize := by
    intro o ho
    simp only [ctrlSize, jctrlPages, pageSize]
    omega
  have h0 := hfit 0 (by omega)
  have h8 := hfit 8 (by omega)
  have h12 := hfit 12 (by omega)
  have h16 := hfit 16 (by omega)
  have h24 := hfit 24 (by omega)
  unfold renderCtrl
  refine ⟨?_, ?_, ?_, ?_, ?_⟩
  · iterate 5 rw [Buf.getLe_putLe_disjoint (by omega)]
    exact Buf.getLe_putLe_self (by omega) (by decide)
  · iterate 3 rw [Buf.getLe_putLe_disjoint (by omega)]
    exact Buf.getLe_putLe_self (by omega) (by omega)
  · iterate 2 rw [Buf.getLe_putLe_disjoint (by omega)]
    exact Buf.getLe_putLe_self (by omega) (by omega)
  · rw [Buf.getLe_putLe_disjoint (by omega)]
    exact Buf.getLe_putLe_self (by omega) (by omega)
  · exact Buf.getLe_putLe_self (by omega) (by omega)

/-- The control pages decode to what was rendered. -/
theorem decodeCtrl_renderCtrl {es : List Nat} {txid state : Nat} (ht : txid < 2 ^ 64)
    (hs : state < 2 ^ 32) (hl : es.length ≤ jcap) (he : ∀ e ∈ es, e < 2 ^ 64) :
    decodeCtrl (renderCtrl es txid state) = some ⟨state, es.length, es⟩ := by
  obtain ⟨h0, h8, h12, h16, h24⟩ := header_renderCtrl es ht hs hl
  have hentries : ((List.range es.length).map fun i =>
      (renderCtrl es txid state).getLe 8 (headerLen + i * 8)) = es := by
    refine List.ext_getElem (by simp) fun i h1 h2 => ?_
    rw [List.getElem_map, List.getElem_range, getLe_renderCtrl_entries _ _ _ (by omega)]
    have h := getLe_putEntries es 0 (Buf.zero ctrlSize) h2 (he _ (List.getElem_mem h2)) (by
      simp only [jcap, ctrlSize, jctrlPages, pageSize, headerLen] at *
      omega)
    rw [Nat.zero_add] at h
    exact h
  unfold decodeCtrl
  simp only [h0, h8, h12, h16, h24, hentries]
  rw [if_neg (by simp), if_neg (by omega), if_neg (by simp)]

/-- Two renderings of the same entries differ in the first sector only. -/
theorem ctrlPage_sector_eq (es : List Nat) (t s t' s' : Nat) {q i : Nat}
    (h : ¬ (q = 0 ∧ i = 0)) :
    (ctrlPage (renderCtrl es t s) q).sector i = (ctrlPage (renderCtrl es t' s') q).sector i := by
  refine Buf.ext fun j hj => ?_
  rw [sector_get _ _ hj, sector_get _ _ hj]
  by_cases hp : i * sectorSize + j < pageSize
  · have hget : ∀ t s, (ctrlPage (renderCtrl es t s) q).get (i * sectorSize + j) =
        (putEntries es (Buf.zero ctrlSize)).get (q * pageSize + (i * sectorSize + j)) := by
      intro t s
      rw [get_ctrlPage _ _ hp]
      by_cases hc : q * pageSize + (i * sectorSize + j) < ctrlSize
      · have hfar : 32 ≤ q * pageSize + (i * sectorSize + j) := by
          simp only [pageSize, sectorSize] at *
          omega
        unfold renderCtrl Buf.putLe
        iterate 6 rw [Buf.get_put _ _ _ hc, length_leBytes, if_neg (by omega)]
      · rw [Buf.get, dif_neg hc, Buf.get, dif_neg hc]
    rw [hget, hget]
  · rw [Buf.get, dif_neg hp, Buf.get, dif_neg hp]

/-- The state word of a rendering. -/
theorem stateWord_renderCtrl (es : List Nat) {txid state : Nat} (ht : txid < 2 ^ 64)
    (hs : state < 2 ^ 32) (hl : es.length ≤ jcap) :
    stateWord ((ctrlPage (renderCtrl es txid state) 0).sector 0) = state := by
  obtain ⟨-, h8, -⟩ := header_renderCtrl es ht hs hl
  conv => rhs; rw [← h8]
  rw [stateWord, Buf.getLe, Buf.getLe]
  refine congrArg ofLe (List.ext_getElem (by simp) fun i h1 h2 => ?_)
  rw [Buf.length_slice] at h1
  rw [Buf.getElem_slice, Buf.getElem_slice,
    sector_get _ _ (by simp only [sectorSize]; omega), Nat.zero_mul, Nat.zero_add,
    get_ctrlPage _ _ (by simp only [pageSize]; omega), Nat.zero_mul, Nat.zero_add]

/-- The state word as `read_ctrl` sees it. -/
theorem stateWord_ctrlOf (V : Nat → Sector) :
    (ctrlOf V).getLe 4 8 = stateWord (V pageSectors) := by
  rw [stateWord, Buf.getLe, Buf.getLe]
  refine congrArg ofLe (List.ext_getElem (by simp) fun i h1 h2 => ?_)
  rw [Buf.length_slice] at h1
  rw [Buf.getElem_slice, Buf.getElem_slice, ctrlOf,
    Buf.get_join _ (by simp only [ctrlSize, jctrlPages, pageSize]; omega),
    show (8 + i) / pageSize = 0 by simp only [pageSize]; omega,
    show (8 + i) % pageSize = 8 + i by simp only [pageSize]; omega,
    get_image _ _ (by simp only [pageSize]; omega),
    show (8 + i) / sectorSize = 0 by simp only [sectorSize]; omega,
    show (8 + i) % sectorSize = 8 + i by simp only [sectorSize]; omega, Nat.add_zero,
    Nat.add_zero, Nat.one_mul]

/-! ## The two kinds of medium -/

/-- What each sector may hold while the journal is not committed and the home
pages are `V`. -/
def idle (V : Nat → Sector) (lba : Nat) (x : Sector) : Prop :=
  (Home lba → x = V lba) ∧ (lba = pageSectors → stateWord x ≠ stateCommitted)

/-- Not committed, and the home pages are `V`. -/
structure Released (V W : Nat → Sector) : Prop where
  home : ∀ lba, Home lba → W lba = V lba
  state : stateWord (W pageSectors) ≠ stateCommitted

/-- Committed: the journal holds `ws`, and home pages outside `ws` are those
of `V`. -/
structure Logged (V : Nat → Sector) (ws : List (Nat × Page)) (W : Nat → Sector) :
    Prop where
  ctrl : ∃ txid < 2 ^ 64, ∀ q < jctrlPages, image W (1 + q) =
    ctrlPage (renderCtrl (ws.map (·.1)) txid stateCommitted) q
  data : ∀ i (h : i < ws.length), image W (jdataStartPage + i) = ws[i].2
  home : ∀ lba, Home lba → lba / pageSectors ∉ ws.map (·.1) → W lba = V lba

/-- A write-set that `commit` is given: distinct home pages of a volume of `T`
pages, no more of them than the journal has room for. -/
structure WriteSet (T : Nat) (ws : List (Nat × Page)) : Prop where
  count : ws.length ≤ jcap
  distinct : (ws.map (·.1)).Nodup
  range : ∀ w ∈ ws, w.1 < T ∧ (w.1 = 0 ∨ firstDataPage ≤ w.1)

/-- The home pages after `ws`. -/
def applied (V : Nat → Sector) (ws : List (Nat × Page)) : Nat → Sector :=
  updAll V (ws.flatMap pageWrites)

theorem Released.of_within {V W : Nat → Sector} (h : ∀ lba, idle V lba (W lba)) :
    Released V W :=
  ⟨fun lba => (h lba).1, (h pageSectors).2 rfl⟩

theorem jdata_ne_home {i p : Nat} (hi : i < jcap) (hp : p = 0 ∨ firstDataPage ≤ p) :
    jdataStartPage + i ≠ p := by
  have hj : firstDataPage = jdataStartPage + jcap := rfl
  have h0 : 0 < jdataStartPage := by decide
  omega

/-- No home sector is in a journal page. -/
theorem not_home_of_page {p lba : Nat} (hp : 1 ≤ p ∧ p < firstDataPage)
    (h : lba / pageSectors = p) : ¬ Home lba := by
  simp only [Home, pageSectors] at *
  omega

theorem mem_ctrlPages {buf : Buf ctrlSize} {w : Nat × Page} (h : w ∈ ctrlPages buf) :
    1 ≤ w.1 ∧ w.1 < jdataStartPage ∧ w.2 = ctrlPage buf (w.1 - 1) := by
  obtain ⟨q, hq, rfl⟩ := List.mem_map.mp h
  rw [List.mem_range] at hq
  refine ⟨by simp only; omega, by simp only [jdataStartPage]; omega, ?_⟩
  simp only [Nat.add_sub_cancel_left]

theorem mem_stagePages {ws : List (Nat × Page)} {w : Nat × Page}
    (h : w ∈ stagePages ws) : ∃ i, ∃ hi : i < ws.length,
      w = (jdataStartPage + i, ws[i].2) := by
  obtain ⟨⟨x, i⟩, hx, rfl⟩ := List.mem_map.mp h
  obtain ⟨_, hlt, hget⟩ := List.mem_zipIdx hx
  refine ⟨i, by omega, ?_⟩
  simp only [Nat.sub_zero] at hget
  simp only [← hget]

theorem length_ctrlPages (buf : Buf ctrlSize) : (ctrlPages buf).length = jctrlPages := by
  simp [ctrlPages]

theorem length_stagePages (ws : List (Nat × Page)) :
    (stagePages ws).length = ws.length := by
  simp [stagePages]

/-- Writing the control pages puts the buffer there and changes no other
page. -/
theorem image_ctrlPages (U : Nat → Sector) (buf : Buf ctrlSize) :
    (∀ q < jctrlPages, image (updAll U ((ctrlPages buf).flatMap pageWrites)) (1 + q) =
      ctrlPage buf q) ∧
    ∀ p, ¬ (1 ≤ p ∧ p < jdataStartPage) →
      image (updAll U ((ctrlPages buf).flatMap pageWrites)) p = image U p := by
  rw [image_updAll]
  refine ⟨fun q hq => updAll_mem (fun w hw hwq => ?_) (Or.inl ?_), fun p hp => ?_⟩
  · rw [(mem_ctrlPages hw).2.2, hwq, Nat.add_sub_cancel_left]
  · exact ⟨_, List.mem_map.mpr ⟨q, List.mem_range.mpr hq, rfl⟩, rfl⟩
  · refine updAll_other fun w hw hwp => hp ?_
    obtain ⟨h1, h2, -⟩ := mem_ctrlPages hw
    omega

/-- Sectors outside the pages written keep their value. -/
theorem updAll_pages_other {U : Nat → Sector} {ws : List (Nat × Page)} {lba : Nat}
    (h : ∀ w ∈ ws, w.1 ≠ lba / pageSectors) :
    updAll U (ws.flatMap pageWrites) lba = U lba := by
  refine updAll_other fun x hx hxl => ?_
  obtain ⟨w, hw, hxw⟩ := List.mem_flatMap.mp hx
  exact h w hw (by rw [← (mem_pageWrites hxw).1, hxl])

/-- Sectors inside the pages written no longer depend on what was there. -/
theorem updAll_pages_eq {U V : Nat → Sector} {ws : List (Nat × Page)} {lba : Nat}
    (h : lba / pageSectors ∈ ws.map (·.1) ∨ U lba = V lba) :
    updAll U (ws.flatMap pageWrites) lba = updAll V (ws.flatMap pageWrites) lba := by
  have hi : lba % pageSectors < pageSectors := Nat.mod_lt _ (by decide)
  have hlba : lba / pageSectors * pageSectors + lba % pageSectors = lba :=
    Nat.div_add_mod' lba pageSectors
  have himg : image (updAll U (ws.flatMap pageWrites)) (lba / pageSectors) =
        image (updAll V (ws.flatMap pageWrites)) (lba / pageSectors) ∨ U lba = V lba := by
    refine h.imp_left fun hmem => ?_
    rw [image_updAll, image_updAll]
    clear h
    induction ws generalizing U V with
    | nil => simp at hmem
    | cons w ws ih =>
        by_cases hlater : lba / pageSectors ∈ ws.map (·.1)
        · have hstep := @ih (updAll U (pageWrites w)) (updAll V (pageWrites w)) hlater
          rw [image_updAll_page, image_updAll_page] at hstep
          exact hstep
        · have hw : lba / pageSectors = w.1 := by
            rcases List.mem_cons.mp hmem with hw | hw
            · exact hw
            · exact absurd hw hlater
          have hoth : ∀ x ∈ ws, x.1 ≠ lba / pageSectors := fun x hx hxw =>
            hlater (hxw ▸ List.mem_map_of_mem hx)
          rw [updAll, updAll, updAll_other hoth, updAll_other hoth, hw, upd_self, upd_self]
  rcases himg with himg | heq
  · have hs := congrArg (fun p => Page.sector p (lba % pageSectors)) himg
    simp only [image_sector _ _ hi, hlba] at hs
    exact hs
  · exact updAll_congr heq _

/-! ## Recovery -/

section Recovery

variable {n T : Nat} {π : Nat → Bool} {V W : Nat → Sector} {ws : List (Nat × Page)}

/-- The volume of `T` pages fits on the disk, and the journal in it. -/
structure Fits (n T : Nat) : Prop where
  disk : n < 2 ^ 64
  pages : T * pageSectors ≤ n
  journal : firstDataPage ≤ T

theorem Fits.page (hf : Fits n T) {p : Nat} (hp : p < T) :
    p * pageSectors + pageSectors ≤ n := by
  have h := hf.pages
  simp only [pageSectors] at *
  omega

theorem Fits.ctrl (hf : Fits n T) : (1 + jctrlPages) * pageSectors ≤ n := by
  have h := hf.pages
  have hj := hf.journal
  simp only [pageSectors, jctrlPages, firstDataPage, jdataStartPage] at *
  omega

theorem Fits.ctrlPages (hf : Fits n T) (buf : Buf ctrlSize) :
    ∀ w ∈ ctrlPages buf, w.1 * pageSectors + pageSectors ≤ n := by
  intro w hw
  have h := (mem_ctrlPages hw).2.1
  have hj := hf.journal
  simp only [firstDataPage] at hj
  exact hf.page (by omega)

/-- A journal that is not committed is left alone. -/
theorem calls_recover_released {P E : Medium Sector → Prop} (hf : Fits n T)
    (hV : ∀ m, P m → m.view = W) (hE : ∀ m, P m → E m)
    (hW : stateWord (W pageSectors) ≠ stateCommitted) :
    Calls n π (pageSectors * jctrlPages) P (recover : DevM Disk Bool)
      (fun b m => b = false ∧ P m) E := by
  refine ((calls_readCtrl hf.disk hf.ctrl hV hE).bind fun c =>
    (Calls.of_fact fun hc => ?_ : Calls n π 0 _ _ _ _)).congr_count (Nat.add_zero _)
  subst hc
  cases hdec : decodeCtrl (ctrlOf W) with
  | none => exact Calls.pure fun m hm => ⟨rfl, hm⟩
  | some ctrl =>
      have hstate : ctrl.state = stateWord (W pageSectors) := by
        rw [← stateWord_ctrlOf]
        unfold decodeCtrl at hdec
        simp only [] at hdec
        split at hdec
        · simp at hdec
        · split at hdec
          · simp at hdec
          · split at hdec
            · simp at hdec
            · injection hdec with hdec
              rw [← hdec]
      simp only [hstate, if_pos hW]
      exact Calls.pure fun m hm => ⟨rfl, hm⟩

/-- The redo loop copies the journal's images home. -/
theorem calls_redo {A : Nat → Sector → Prop} (hf : Fits n T) :
    ∀ (ws : List (Nat × Page)) (s : Nat) (U : Nat → Sector),
      (∀ w ∈ ws, w.1 < T ∧ (w.1 = 0 ∨ firstDataPage ≤ w.1)) →
      (∀ w ∈ ws, ∀ x ∈ pageWrites w, A x.1 x.2) → s + ws.length ≤ jcap →
      (∀ i (h : i < ws.length), image U (jdataStartPage + (s + i)) = ws[i].2) →
      Calls n π (2 * pageSectors * ws.length) (fun m => m.Within A ∧ m.view = U)
        (redo ((ws.map (·.1)).zipIdx s) : DevM Disk Unit)
        (fun _ m => m.Within A ∧ m.view = applied U ws) (fun m => m.Within A)
  | [], _, _, _, _, _, _ => Calls.pure fun _ h => h
  | w :: ws, s, U, hr, hA, hs, hd => by
      rw [List.length_cons] at hs
      have hw := hr w List.mem_cons_self
      have himg := hd 0 (Nat.zero_lt_succ _)
      rw [Nat.add_zero, List.getElem_cons_zero] at himg
      have hstep : Calls n π (pageSectors + pageSectors)
          (fun m => m.Within A ∧ m.view = U) (do
            let page ← readPage (jdataStartPage + s) (Buf.zero pageSize)
            writePage w.1 page)
          (fun _ m => m.Within A ∧ m.view = updAll U (pageWrites w))
          (fun m => m.Within A) := by
        refine (calls_readPage hf.disk ?_ (fun m hm => hm.2) fun m hm => hm.1).bind
          fun page => Calls.of_fact fun hpage => ?_
        · have hj := hf.journal
          simp only [firstDataPage, jdataPages] at hj
          exact hf.page (by omega)
        · rw [hpage, himg]
          exact calls_writePage hf.disk (hf.page hw.1) (hA w List.mem_cons_self)
      have hrest := calls_redo hf ws (s + 1) (updAll U (pageWrites w))
        (fun x hx => hr x (List.mem_cons_of_mem _ hx))
        (fun x hx => hA x (List.mem_cons_of_mem _ hx)) (by omega) fun i hi => by
          have h := hd (i + 1) (by simpa using hi)
          rw [List.getElem_cons_succ, show s + (i + 1) = s + 1 + i by omega] at h
          rw [image_updAll_page, upd_other (jdata_ne_home (by omega) hw.2), h]
      refine ((hstep.bind fun _ => hrest).conseq (fun _ h => h) ?_ fun _ h => h).congr_count ?_
      · rintro _ m ⟨hwm, hv⟩
        refine ⟨hwm, ?_⟩
        rw [hv, applied, applied, List.flatMap_cons, updAll_append]
      · simp only [List.length_cons, pageSectors]
        omega

/-! Once committed, whatever recovery leaves behind is committed or released,
and released with every page of `ws` at home. -/

/-- Home sectors are those of `V` or are being overwritten by `ws`. -/
theorem Logged.applied_eq (hl : Logged V ws W) {lba : Nat} (h : Home lba) :
    applied W ws lba = applied V ws lba := by
  refine updAll_pages_eq ?_
  by_cases hmem : lba / pageSectors ∈ ws.map (·.1)
  · exact Or.inl hmem
  · exact Or.inr (hl.home lba h hmem)

/-- A value a batch of writes may leave in a sector. -/
def batching (U : Nat → Sector) (ws : List (Nat × Page)) (lba : Nat) (x : Sector) : Prop :=
  x = U lba ∨ ∃ w ∈ ws, (lba, x) ∈ pageWrites w

theorem Logged.of_batching (hws : WriteSet T ws) (hl : Logged V ws W)
    {W' : Nat → Sector} (h : ∀ lba, batching W ws lba (W' lba)) : Logged V ws W' := by
  have hout : ∀ lba, (∀ w ∈ ws, w.1 ≠ lba / pageSectors) → W' lba = W lba := by
    intro lba hne
    rcases h lba with heq | ⟨w, hw, hx⟩
    · exact heq
    · exact absurd (mem_pageWrites hx).1.symm (hne w hw)
  have hjournal : ∀ p, 1 ≤ p ∧ p < firstDataPage → image W' p = image W p := by
    intro p hp
    refine image_congr fun i hi => hout _ fun w hw hwp => ?_
    have hr := (hws.range w hw).2
    simp only [pageSectors] at *
    omega
  have hfirst : firstDataPage = jdataStartPage + jcap := rfl
  have hstart : jdataStartPage = 1 + jctrlPages := rfl
  refine ⟨?_, fun i hi => ?_, fun lba hh hmem => ?_⟩
  · obtain ⟨txid, ht, hc⟩ := hl.ctrl
    refine ⟨txid, ht, fun q hq => ?_⟩
    rw [hjournal _ (by omega), hc q hq]
  · have hcount := hws.count
    rw [hjournal _ (by omega), hl.data i hi]
  · rw [hout _ fun w hw hwl => hmem (hwl ▸ List.mem_map_of_mem hw), hl.home lba hh hmem]

/-- A control area whose state word alone is still open: every value it may
have is committed or released. -/
theorem flip_ctrl {es : List Nat} {txid txid' s s' : Nat} {U W : Nat → Sector}
    (hU : ∀ q < jctrlPages, image U (1 + q) = ctrlPage (renderCtrl es txid s) q)
    (hW : ∀ lba, batching U (ctrlPages (renderCtrl es txid' s')) lba (W lba)) :
    W = U ∨ W = updAll U ((ctrlPages (renderCtrl es txid' s')).flatMap pageWrites) := by
  obtain ⟨hin, hout⟩ := image_ctrlPages U (renderCtrl es txid' s')
  have hstart : jdataStartPage = 1 + jctrlPages := rfl
  -- Outside the first control sector old and new agree.
  have hsame : ∀ lba, lba ≠ pageSectors →
      updAll U ((ctrlPages (renderCtrl es txid' s')).flatMap pageWrites) lba = U lba := by
    intro lba hne
    rw [sector_of_image (updAll U _) lba, sector_of_image U lba]
    by_cases hp : 1 ≤ lba / pageSectors ∧ lba / pageSectors < jdataStartPage
    · obtain ⟨q, hq⟩ : ∃ q, lba / pageSectors = 1 + q := ⟨lba / pageSectors - 1, by omega⟩
      rw [hq, hin q (by omega), hU q (by omega)]
      refine ctrlPage_sector_eq _ _ _ _ _ fun h0 => hne ?_
      have h := Nat.div_add_mod' lba pageSectors
      rw [hq, h0.1, h0.2] at h
      omega
    · rw [hout _ hp]
  have hval : ∀ lba, W lba = U lba ∨
      W lba = updAll U ((ctrlPages (renderCtrl es txid' s')).flatMap pageWrites) lba := by
    intro lba
    rcases hW lba with h | ⟨w, hw, hx⟩
    · exact Or.inl h
    · right
      obtain ⟨h1, h2⟩ := mem_pageWrites hx
      obtain ⟨hp1, hp2, hp3⟩ := mem_ctrlPages hw
      have himg := hin (w.1 - 1) (by omega)
      rw [show 1 + (w.1 - 1) = w.1 by omega, ← hp3] at himg
      rw [sector_of_image (updAll U _) lba]
      simp only at h1 h2
      rw [h1, himg, h2]
  rcases hval pageSectors with h8 | h8
  · left
    funext lba
    by_cases hl : lba = pageSectors
    · rw [hl, h8]
    · rcases hval lba with h | h
      · exact h
      · rw [h, hsame lba hl]
  · right
    funext lba
    by_cases hl : lba = pageSectors
    · rw [hl, h8]
    · rcases hval lba with h | h
      · rw [h, hsame lba hl]
      · exact h

theorem calls_sync_batching {U : Nat → Sector} {ws : List (Nat × Page)}
    (hn : n < 2 ^ 64) (hr : ∀ w ∈ ws, w.1 * pageSectors + pageSectors ≤ n) :
    Calls n π (pageSectors * ws.length + 1) (fun m => m.Settled U) (sync ws)
      (fun _ m => m.Settled (updAll U (ws.flatMap pageWrites)))
      (fun m => m.Within (batching U ws)) :=
  (calls_sync hn hr fun w hw _ hx => Or.inr ⟨w, hw, hx⟩).conseq
    (fun _ hm => ⟨hm.within.mono fun _ _ h => Or.inl h, hm.view⟩) (fun _ _ h => h)
    fun _ h => h

/-- What a finished batch leaves is one of the things it may leave. -/
theorem batching_updAll (U : Nat → Sector) (ws : List (Nat × Page)) (lba : Nat) :
    batching U ws lba (updAll U (ws.flatMap pageWrites) lba) := by
  rcases updAll_cases (ws.flatMap pageWrites) U lba with h | h
  · exact Or.inl h
  · exact Or.inr (List.mem_flatMap.mp h)

/-- Every home page of `ws` is in place, and the journal still says so. -/
structure Installed (V : Nat → Sector) (ws : List (Nat × Page)) (W : Nat → Sector) :
    Prop where
  logged : Logged V ws W
  home : ∀ lba, Home lba → W lba = applied V ws lba

theorem Logged.installed (hws : WriteSet T ws) (hl : Logged V ws W) :
    Installed V ws (applied W ws) :=
  ⟨hl.of_batching hws (batching_updAll W ws), fun _ h => hl.applied_eq h⟩

/-- Control writes miss the home pages. -/
theorem home_ctrl {U : Nat → Sector} {buf : Buf ctrlSize} {lba : Nat} (h : Home lba) :
    updAll U ((ctrlPages buf).flatMap pageWrites) lba = U lba := by
  refine updAll_pages_other fun w hw hwl => ?_
  obtain ⟨h1, h2, -⟩ := mem_ctrlPages hw
  have hfirst : firstDataPage = jdataStartPage + jcap := rfl
  exact not_home_of_page ⟨h1, by omega⟩ hwl.symm h

theorem state_ctrl {U : Nat → Sector} {es : List Nat} {txid s : Nat} (ht : txid < 2 ^ 64)
    (hs : s < 2 ^ 32) (hl : es.length ≤ jcap) :
    stateWord (updAll U ((ctrlPages (renderCtrl es txid s)).flatMap pageWrites)
      pageSectors) = s := by
  have himg := (image_ctrlPages U (renderCtrl es txid s)).1 0 (by decide)
  rw [sector_of_image (updAll U _) pageSectors]
  show stateWord ((image _ (1 + 0)).sector 0) = s
  rw [himg]
  exact stateWord_renderCtrl es ht hs hl

theorem Installed.release (hws : WriteSet T ws) {U : Nat → Sector} {txid : Nat}
    (ht : txid < 2 ^ 64) (hU : Installed V ws U) :
    Released (applied V ws) (updAll U ((ctrlPages
      (renderCtrl (ws.map (·.1)) txid stateEmpty)).flatMap pageWrites)) := by
  refine ⟨fun lba h => ?_, ?_⟩
  · rw [home_ctrl h, hU.home lba h]
  · rw [state_ctrl ht (by decide) (by simpa using hws.count)]
    decide

/-- Releasing the journal of an installed transaction. -/
theorem calls_release (hf : Fits n T) (hws : WriteSet T ws) {U : Nat → Sector}
    {txid : Nat} (ht : txid < 2 ^ 64) (hU : Installed V ws U) :
    Calls n π (pageSectors * jctrlPages + 1) (fun m => m.Settled U)
      (sync (ctrlPages (renderCtrl (ws.map (·.1)) txid stateEmpty)))
      (fun _ m => ∃ W, m.Settled W ∧ Released (applied V ws) W)
      (fun m => ∀ W, m.Survives W → Logged V ws W ∨ Released (applied V ws) W) := by
  have hrel := hU.release hws ht
  refine ((calls_sync_batching hf.disk (hf.ctrlPages _)).conseq (fun _ h => h)
    (fun _ m hm => ?_) fun m hm W hW => ?_).congr_count (by rw [length_ctrlPages])
  · exact ⟨_, hm, hrel⟩
  · obtain ⟨txid', _, hc⟩ := hU.logged.ctrl
    rcases flip_ctrl hc (hm.survives hW) with rfl | rfl
    · exact Or.inl hU.logged
    · exact Or.inr hrel

/-- Recovery of a committed journal: wherever it is cut it can start again,
and when it ends the transaction is in place and the journal free. -/
theorem calls_recover_logged (hf : Fits n T) (hT : T < 2 ^ 64) (hws : WriteSet T ws)
    (hl : Logged V ws W) :
    Calls n π (pageSectors * jctrlPages + (2 * pageSectors * ws.length + (1 +
        (pageSectors * jctrlPages + 1))))
      (fun m => m.Settled W) (recover : DevM Disk Bool)
      (fun b m => b = true ∧ ∃ W', m.Settled W' ∧ Released (applied V ws) W')
      (fun m => ∀ W', m.Survives W' → Logged V ws W' ∨ Released (applied V ws) W') := by
  have hlen : (ws.map (·.1)).length ≤ jcap := by simpa using hws.count
  have hdec : decodeCtrl (ctrlOf W) =
      some ⟨stateCommitted, (ws.map (·.1)).length, ws.map (·.1)⟩ := by
    obtain ⟨txid, ht, hc⟩ := hl.ctrl
    rw [ctrlOf_eq hc]
    refine decodeCtrl_renderCtrl ht (by decide) hlen fun e he => ?_
    obtain ⟨w, hw, rfl⟩ := List.mem_map.mp he
    have hr := (hws.range w hw).1
    omega
  have hcut : ∀ m : Medium Sector, m.Settled W → ∀ W', m.Survives W' →
      Logged V ws W' ∨ Released (applied V ws) W' := by
    intro m hm W' hW'
    rw [hm.survives hW']
    exact Or.inl hl
  refine (calls_readCtrl hf.disk hf.ctrl (fun m hm => hm.view) hcut).bind fun c =>
    Calls.of_fact fun hc => ?_
  subst hc
  rw [hdec]
  show Calls n π _ _ (redo (ws.map (·.1)).zipIdx >>= fun _ => _) _ _
  have hredo := calls_redo (π := π) (A := batching W ws) hf ws 0 W hws.range
    (fun w hw x hx => Or.inr ⟨w, hw, hx⟩) (by have := hws.count; omega)
    fun i hi => by rw [Nat.zero_add]; exact hl.data i hi
  have hmid : ∀ m : Medium Sector, m.Within (batching W ws) → ∀ W', m.Survives W' →
      Logged V ws W' ∨ Released (applied V ws) W' := fun m hm W' hW' =>
    Or.inl (hl.of_batching hws (hm.survives hW'))
  refine (hredo.conseq (fun m hm => ?_) (fun _ _ h => h) hmid).bind fun _ => ?_
  · exact ⟨hm.within.mono fun _ _ h => Or.inl h, hm.view⟩
  refine (calls_flush (Q := fun m => m.Settled (applied W ws)) (fun m hm => ?_)
    fun m hm => hmid m hm.1).bind fun _ => ?_
  · rw [← hm.2]
    exact settled_flush m
  have hrelease := (calls_release (π := π) hf hws (show 0 < 2 ^ 64 by decide)
    (hl.installed hws)).bind fun _ => Calls.pure (a := true)
      (Q := fun b m => b = true ∧ ∃ W', m.Settled W' ∧ Released (applied V ws) W')
      fun m hm => ⟨rfl, hm⟩
  rw [Nat.add_zero] at hrelease
  rw [writeCtrl_eq]
  rw [sync, bind_assoc] at hrelease
  exact hrelease

/-! ## Commit -/

/-- The images and the control body are in the journal, the state is not
committed yet. -/
structure Prepared (V : Nat → Sector) (txid : Nat) (ws : List (Nat × Page))
    (W : Nat → Sector) : Prop where
  released : Released V W
  ctrl : ∀ q < jctrlPages, image W (1 + q) =
    ctrlPage (renderCtrl (ws.map (·.1)) txid stateEmpty) q
  data : ∀ i (h : i < ws.length), image W (jdataStartPage + i) = ws[i].2

theorem idle_ctrlPages {es : List Nat} {txid : Nat} (ht : txid < 2 ^ 64)
    (hl : es.length ≤ jcap) :
    ∀ w ∈ ctrlPages (renderCtrl es txid stateEmpty), ∀ x ∈ pageWrites w,
      idle V x.1 x.2 := by
  intro w hw x hx
  obtain ⟨h1, h2, h3⟩ := mem_ctrlPages hw
  obtain ⟨hp, hs⟩ := mem_pageWrites hx
  have hfirst : firstDataPage = jdataStartPage + jcap := rfl
  refine ⟨fun hh => absurd hh (not_home_of_page ⟨h1, by omega⟩ hp), fun h8 => ?_⟩
  rw [h8] at hp hs
  have hw1 : w.1 = 1 := hp.symm
  rw [hs, h3, hw1]
  show stateWord ((ctrlPage (renderCtrl es txid stateEmpty) 0).sector 0) ≠ _
  rw [stateWord_renderCtrl es ht (by decide) hl]
  decide

theorem idle_stagePages (hws : WriteSet T ws) :
    ∀ w ∈ stagePages ws, ∀ x ∈ pageWrites w, idle V x.1 x.2 := by
  intro w hw x hx
  obtain ⟨i, hi, rfl⟩ := mem_stagePages hw
  have hp := (mem_pageWrites hx).1
  have hcount := hws.count
  have hfirst : firstDataPage = jdataStartPage + jcap := rfl
  have hstart : jdataStartPage = 5 := rfl
  simp only at hp
  refine ⟨fun hh => absurd hh (not_home_of_page ⟨by omega, by omega⟩ hp), fun h8 => ?_⟩
  rw [h8] at hp
  have h1 : pageSectors / pageSectors = 1 := rfl
  omega

/-- The first stage: the home pages are not touched and the state is never
`COMMITTED`, wherever it stops. -/
theorem calls_prepare (hf : Fits n T) (hws : WriteSet T ws) {txid : Nat}
    (ht : txid < 2 ^ 64) :
    Calls n π (pageSectors * ws.length + (pageSectors * jctrlPages + 1))
      (fun m => m.Within (idle V))
      (do writePages (stagePages ws)
          sync (ctrlPages (renderCtrl (ws.map (·.1)) txid stateEmpty)))
      (fun _ m => ∃ W, m.Settled W ∧ Prepared V txid ws W)
      (fun m => m.Within (idle V)) := by
  have hlen : (ws.map (·.1)).length ≤ jcap := by simpa using hws.count
  have hfirst : firstDataPage = jdataStartPage + jcap := rfl
  intro c d hd
  have hstage := (calls_writePages (π := π) (A := idle V) (U := d.medium.view) hf.disk
    (fun w hw => ?_) (idle_stagePages hws)).bind fun _ =>
      calls_sync hf.disk (hf.ctrlPages (renderCtrl (ws.map (·.1)) txid stateEmpty))
        (idle_ctrlPages ht hlen)
  · rw [length_stagePages, length_ctrlPages] at hstage
    refine (hstage.conseq (fun _ h => h) (fun _ m hm => ⟨_, hm, ?_⟩) fun _ h => h) c d
      ⟨hd.sectors, hd.plan, hd.clock, hd.medium, rfl⟩
    · obtain ⟨hin, hout⟩ := image_ctrlPages
        (updAll d.medium.view ((stagePages ws).flatMap pageWrites))
        (renderCtrl (ws.map (·.1)) txid stateEmpty)
      refine ⟨⟨fun lba hh => ?_, ?_⟩, hin, fun i hi => ?_⟩
      · rw [home_ctrl hh, updAll_pages_other fun w hw hwl => ?_]
        · exact (hd.medium.view lba).1 hh
        · obtain ⟨i, hi, rfl⟩ := mem_stagePages hw
          have hcount := hws.count
          have hstart : jdataStartPage = 5 := rfl
          simp only at hwl
          exact not_home_of_page ⟨by omega, by omega⟩ hwl.symm hh
      · rw [state_ctrl ht (by decide) hlen]
        decide
      · rw [hout _ (by omega), image_updAll]
        refine updAll_mem (fun w hw hwi => ?_) (Or.inl ?_)
        · obtain ⟨j, hj, rfl⟩ := mem_stagePages hw
          simp only at hwi
          have hij : j = i := by omega
          subst hij
          rfl
        · refine ⟨_, List.mem_map.mpr ⟨(ws[i], i), ?_, rfl⟩, rfl⟩
          rw [List.mem_zipIdx_iff_getElem?]
          simp
  · obtain ⟨i, hi, rfl⟩ := mem_stagePages hw
    have hcount := hws.count
    have hj := hf.journal
    exact hf.page (by simp only; omega)

/-- The commit point: one sector decides. -/
theorem Prepared.logged (hws : WriteSet T ws) {txid : Nat} (ht : txid < 2 ^ 64)
    (hp : Prepared V txid ws W) :
    Logged V ws (updAll W ((ctrlPages
      (renderCtrl (ws.map (·.1)) txid stateCommitted)).flatMap pageWrites)) := by
  obtain ⟨hin, hout⟩ := image_ctrlPages W (renderCtrl (ws.map (·.1)) txid stateCommitted)
  refine ⟨⟨txid, ht, hin⟩, fun i hi => ?_, fun lba hh _ => ?_⟩
  · have hcount := hws.count
    rw [hout _ (by omega), hp.data i hi]
  · rw [home_ctrl hh, hp.released.home lba hh]

/-- From the commit point on: wherever it stops, the transaction is either not
committed at all, or committed and recoverable, or in place. -/
theorem calls_seal (hf : Fits n T) (hws : WriteSet T ws) {txid : Nat}
    (ht : txid < 2 ^ 64) (hp : Prepared V txid ws W) :
    Calls n π (pageSectors * jctrlPages + 1 + (pageSectors * ws.length + 1 +
        (pageSectors * jctrlPages + 1)))
      (fun m => m.Settled W)
      (do sync (ctrlPages (renderCtrl (ws.map (·.1)) txid stateCommitted))
          sync ws
          sync (ctrlPages (renderCtrl (ws.map (·.1)) txid stateEmpty)))
      (fun _ m => ∃ W', m.Settled W' ∧ Released (applied V ws) W')
      (fun m => ∀ W', m.Survives W' →
        Released V W' ∨ Logged V ws W' ∨ Released (applied V ws) W') := by
  have hlog := hp.logged hws ht
  have hseal : Calls n π (pageSectors * jctrlPages + 1) (fun m => m.Settled W)
      (sync (ctrlPages (renderCtrl (ws.map (·.1)) txid stateCommitted)))
      (fun _ m => ∃ U, m.Settled U ∧ Logged V ws U)
      (fun m => ∀ W', m.Survives W' →
        Released V W' ∨ Logged V ws W' ∨ Released (applied V ws) W') := by
    refine ((calls_sync_batching hf.disk (hf.ctrlPages _)).conseq (fun _ h => h)
      (fun _ m hm => ⟨_, hm, hlog⟩) fun m hm W' hW' => ?_).congr_count
      (by rw [length_ctrlPages])
    rcases flip_ctrl hp.ctrl (hm.survives hW') with rfl | rfl
    · exact Or.inl hp.released
    · exact Or.inr (Or.inl hlog)
  have hinstall : ∀ U, Logged V ws U →
      Calls n π (pageSectors * ws.length + 1) (fun m => m.Settled U) (sync ws)
        (fun _ m => ∃ U', m.Settled U' ∧ Installed V ws U')
        (fun m => ∀ W', m.Survives W' →
          Released V W' ∨ Logged V ws W' ∨ Released (applied V ws) W') := by
    intro U hU
    refine (calls_sync_batching hf.disk fun w hw => hf.page (hws.range w hw).1).conseq
      (fun _ h => h) (fun _ m hm => ⟨_, hm, hU.installed hws⟩) fun m hm W' hW' => ?_
    exact Or.inr (Or.inl (hU.of_batching hws (hm.survives hW')))
  refine hseal.bind fun _ => Calls.of_exists fun U => Calls.of_fact_right fun hU => ?_
  refine (hinstall U hU).bind fun _ => Calls.of_exists fun U' =>
    Calls.of_fact_right fun hU' => ?_
  exact (calls_release hf hws ht hU').conseq (fun _ h => h) (fun _ _ h => h)
    fun m hm W' hW' => Or.inr (hm W' hW')

/-- A whole commit. -/
theorem calls_commit (hf : Fits n T) (hws : WriteSet T ws) {txid : Nat}
    (ht : txid < 2 ^ 64) :
    Calls n π (pageSectors * ws.length + (pageSectors * jctrlPages + 1) +
        (pageSectors * jctrlPages + 1 + (pageSectors * ws.length + 1 +
          (pageSectors * jctrlPages + 1))))
      (fun m => m.Within (idle V)) (commit txid ws : DevM Disk Unit)
      (fun _ m => ∃ W, m.Settled W ∧ Released (applied V ws) W)
      (fun m => ∀ W, m.Survives W →
        Released V W ∨ Logged V ws W ∨ Released (applied V ws) W) := by
  have h := ((calls_prepare (π := π) (V := V) hf hws ht).conseq (fun _ h => h)
    (fun _ _ h => h) fun m hm W hW => Or.inl (Released.of_within (hm.survives hW))).bind
      fun _ => Calls.of_exists fun W => Calls.of_fact_right fun hp => calls_seal hf hws ht hp
  rw [commit_eq hws.count]
  rw [bind_assoc] at h
  exact h

end Recovery

/-! ## Power losses -/

/-- Mounting after a power loss: recovery on the medium that survived, cut
short by further power losses any number of times, at last completed. -/
inductive Remounts (n : Nat) (h : n < 2 ^ 64) : (Nat → Sector) → Disk → Prop where
  | cut {W W' : Nat → Sector} {k : Nat} {r : Except StoreError Bool} {d d' : Disk} :
      recover (attach n h W (cutAt k)) = (r, d) → d.medium.Survives W' →
        Remounts n h W' d' → Remounts n h W d'
  | done {W : Nat → Sector} {b : Bool} {d : Disk} :
      recover (attach n h W noFaults) = (.ok b, d) → Remounts n h W d

section PowerLoss

variable {n T : Nat} {h : n < 2 ^ 64} {V W : Nat → Sector} {ws : List (Nat × Page)}
  {d : Disk}

theorem settled_attach (n : Nat) (h : n < 2 ^ 64) (W : Nat → Sector) (π : Nat → Bool) :
    (attach n h W π).medium.Settled W := ⟨rfl, rfl⟩

/-- A free journal: no mount changes anything, interrupted or not. -/
theorem Remounts.released (hf : Fits n T) (hr : Remounts n h W d)
    (hW : Released V W) : d.medium.Settled W := by
  induction hr with
  | @cut W W' k r d d' hrec hs hrest ih =>
      have hrun := (calls_recover_released (π := cutAt k) (P := fun m => m.Settled W)
        (E := fun m => m.Settled W) hf (fun _ hm => hm.view) (fun _ hm => hm) hW.state).run
        (d := attach n h W (cutAt k)) rfl rfl (settled_attach n h W _)
      have hd : d.medium.Settled W := by
        rcases hrun with ⟨b, d₁, he, hat⟩ | ⟨e, d₁, he, hst⟩
        · rw [hrec] at he
          cases he
          exact hat.medium.2
        · rw [hrec] at he
          cases he
          exact hst.medium
      have hWW : W' = W := hd.survives hs
      subst hWW
      exact ih hW
  | @done W b d hrec =>
      obtain ⟨b', d', he, hat⟩ := (calls_recover_released (π := noFaults)
        (P := fun m => m.Settled W) (E := fun m => m.Settled W) hf (fun _ hm => hm.view)
        (fun _ hm => hm) hW.state).run_quiet (d := attach n h W noFaults) rfl rfl
        (fun _ => rfl) (settled_attach n h W _)
      rw [hrec] at he
      cases he
      exact hat.medium.2

/-- A committed journal: whatever the interruptions, the mount that completes
leaves the transaction in place and the journal free. -/
theorem Remounts.logged (hf : Fits n T) (hT : T < 2 ^ 64) (hws : WriteSet T ws)
    (hr : Remounts n h W d) (hW : Logged V ws W ∨ Released (applied V ws) W) :
    ∃ W', d.medium.Settled W' ∧ Released (applied V ws) W' := by
  induction hr with
  | @cut W W' k r d d' hrec hs hrest ih =>
      rcases hW with hW | hW
      · refine ih ?_
        rcases (calls_recover_logged (π := cutAt k) hf hT hws hW).run
          (d := attach n h W (cutAt k)) rfl rfl (settled_attach n h W _) with
          ⟨b, d₁, he, hat⟩ | ⟨e, d₁, he, hst⟩
        · rw [hrec] at he
          cases he
          obtain ⟨-, U, hU, hrel⟩ := hat.medium
          rw [hU.survives hs]
          exact Or.inr hrel
        · rw [hrec] at he
          cases he
          exact hst.medium W' hs
      · exact ⟨W, (Remounts.cut hrec hs hrest).released hf hW, hW⟩
  | @done W b d hrec =>
      rcases hW with hW | hW
      · obtain ⟨b', d', he, hat⟩ := (calls_recover_logged (π := noFaults) hf hT hws
          hW).run_quiet (d := attach n h W noFaults) rfl rfl (fun _ => rfl)
          (settled_attach n h W _)
        rw [hrec] at he
        cases he
        exact hat.medium.2
      · exact ⟨W, (Remounts.done hrec).released hf hW, hW⟩

/-- On a device that works a mount completes. -/
theorem exists_remounts (hf : Fits n T) (hT : T < 2 ^ 64) (hws : WriteSet T ws)
    (hW : Released V W ∨ Logged V ws W) : ∃ d, Remounts n h W d := by
  rcases hW with hW | hW
  · obtain ⟨b, d, he, -⟩ := (calls_recover_released (π := noFaults)
      (P := fun m => m.Settled W) (E := fun m => m.Settled W) hf (fun _ hm => hm.view)
      (fun _ hm => hm) hW.state).run_quiet (d := attach n h W noFaults) rfl rfl
      (fun _ => rfl) (settled_attach n h W _)
    exact ⟨d, .done he⟩
  · obtain ⟨b, d, he, -⟩ := (calls_recover_logged (π := noFaults) hf hT hws
      hW).run_quiet (d := attach n h W noFaults) rfl rfl (fun _ => rfl)
      (settled_attach n h W _)
    exact ⟨d, .done he⟩

theorem Released.image_eq (hW : Released V W) {p : Nat} (hp : p = 0 ∨ firstDataPage ≤ p) :
    image W p = image V p := by
  refine image_congr fun i hi => hW.home _ ?_
  rcases hp with rfl | hp
  · exact Or.inl (by omega)
  · exact Or.inr (Nat.le_trans (Nat.mul_le_mul_right _ hp) (Nat.le_add_right _ _))

end PowerLoss

end Journal

namespace Pager

open Journal

/-- The write-set that `commit` hands to the journal. -/
def writeSet (pg : Pager Disk) : List (Nat × Page) :=
  batch { pg.sb with generation := (pg.sb.generation + 1) % 2 ^ 64 } pg.dirty

/-- `Pager::commit` does to the device what the journal's commit does. -/
theorem commit_dev {pg pg' : Pager Disk} {r : Except StoreError Unit}
    (hne : pg.dirty.isEmpty = false) (h : Pager.commit pg = (r, pg')) :
    Journal.commit ((pg.sb.generation + 1) % 2 ^ 64) (writeSet pg) pg.dev = (r, pg'.dev) := by
  unfold Pager.commit at h
  simp only [hne, Bool.false_eq_true, if_false, onDev] at h
  rw [writeSet]
  rcases hc : Journal.commit ((pg.sb.generation + 1) % 2 ^ 64)
    (batch { pg.sb with generation := (pg.sb.generation + 1) % 2 ^ 64 } pg.dirty) pg.dev
    with ⟨e | u, d⟩ <;> rw [hc] at h <;> cases h <;> rfl

/-- Crash atomicity and durability. From a volume whose journal is not
committed, a commit of the staged pages is cut by a power loss at any device
call; each sector then holds its durable value or any value written since the
last flush; recovery is cut any number of times in the same way. Once a mount
completes, and one can, the home pages are all as before or all as the
transaction leaves them, they are the latter if `commit` had answered `Ok`,
and the medium is settled with the journal free again. -/
theorem commit_crash_atomic {T k : Nat} {pg pg' : Pager Disk} {V W : Nat → Sector}
    {r : Except StoreError Unit} (hfit : Fits pg.dev.sectors T)
    (hidle : pg.dev.medium.Within (idle V)) (hne : pg.dirty.isEmpty = false)
    (hws : WriteSet T (writeSet pg)) (hcut : pg.dev.plan = cutAt k)
    (hrun : Pager.commit pg = (r, pg')) (hsurv : pg'.dev.medium.Survives W) :
    (∃ d, Remounts pg.dev.sectors pg.dev.sectors_lt W d) ∧
    ∀ d, Remounts pg.dev.sectors pg.dev.sectors_lt W d →
      ((∀ p, p = 0 ∨ firstDataPage ≤ p → image d.view p = image V p) ∨
        ∀ p, p = 0 ∨ firstDataPage ≤ p →
          image d.view p = updAll (image V) (writeSet pg) p) ∧
      (r = .ok () → ∀ p, p = 0 ∨ firstDataPage ≤ p →
        image d.view p = updAll (image V) (writeSet pg) p) ∧
      d.medium.Settled d.view ∧ stateWord (d.view pageSectors) ≠ stateCommitted := by
  have hT : T < 2 ^ 64 := by
    have h := hfit.pages
    have h' := hfit.disk
    simp only [pageSectors] at h
    omega
  have hcommit := commit_dev hne hrun
  have hout : (r = .ok () → Released (applied V (writeSet pg)) W) ∧
      (Released V W ∨ Logged V (writeSet pg) W ∨ Released (applied V (writeSet pg)) W) := by
    rcases (calls_commit (π := cutAt k) hfit hws (Nat.mod_lt _ (by decide))).run rfl hcut
      hidle with ⟨u, d₁, he, hat⟩ | ⟨e, d₁, he, hst⟩
    · rw [hcommit] at he
      cases he
      obtain ⟨U, hU, hrel⟩ := hat.medium
      rw [hU.survives hsurv]
      exact ⟨fun _ => hrel, Or.inr (Or.inr hrel)⟩
    · rw [hcommit] at he
      cases he
      exact ⟨(fun h => by cases h), hst.medium W hsurv⟩
  have himage : ∀ U, Released (applied V (writeSet pg)) U → ∀ p, p = 0 ∨ firstDataPage ≤ p →
      image U p = updAll (image V) (writeSet pg) p := by
    intro U hU p hp
    rw [hU.image_eq hp, applied, image_updAll]
  refine ⟨?_, fun d hd => ?_⟩
  · rcases hout.2 with h | h | h
    · exact exists_remounts hfit hT hws (Or.inl h)
    · exact exists_remounts hfit hT hws (Or.inr h)
    · exact exists_remounts hfit hT hws (Or.inl h)
  · by_cases hpre : Released V W ∧ r ≠ .ok ()
    · have hs := hd.released hfit hpre.1
      rw [Disk.view, hs.view]
      exact ⟨Or.inl fun p hp => hpre.1.image_eq hp, fun h => absurd h hpre.2, hs,
        hpre.1.state⟩
    · have hpost : Logged V (writeSet pg) W ∨ Released (applied V (writeSet pg)) W := by
        rcases hout.2 with h | h | h
        · have hr : r = .ok () := Classical.not_not.mp fun hr => hpre ⟨h, hr⟩
          exact Or.inr (hout.1 hr)
        · exact Or.inl h
        · exact Or.inr h
      obtain ⟨U, hs, hrel⟩ := hd.logged hfit hT hws hpost
      rw [Disk.view, hs.view]
      exact ⟨Or.inr (himage U hrel), fun _ => himage U hrel, hs, hrel.state⟩

/-- A blank volume of 2051 pages with one page staged, whose power goes at the
fourth device call of the commit. -/
def cutPager : Pager Disk where
  dev := attach (2051 * pageSectors) (by decide) (fun _ => Buf.zero sectorSize) (cutAt 3)
  sb := ⟨2051, 2050, 0, 0, 1⟩
  dirty := (∅ : PageMap).insert 2049 zeroedPage
  cache := ∅

theorem commit_crash_atomic_cut :
    ∃ d, Remounts (2051 * pageSectors) (by decide)
        (Pager.commit cutPager).2.dev.view d ∧
      ((∀ p, p = 0 ∨ firstDataPage ≤ p →
          image d.view p = image (fun _ => Buf.zero sectorSize) p) ∨
        ∀ p, p = 0 ∨ firstDataPage ≤ p → image d.view p =
          updAll (image fun _ => Buf.zero sectorSize) (writeSet cutPager) p) := by
  have hlist : cutPager.dirty.toList = [(2049, zeroedPage)] := rfl
  have hws : WriteSet 2051 (writeSet cutPager) := by
    rw [writeSet, batch, hlist]
    refine ⟨by decide, by decide, ?_⟩
    intro w hw
    rcases List.mem_cons.mp hw with rfl | hw
    · exact ⟨by simp only; omega, Or.inl rfl⟩
    · rw [List.mem_singleton.mp hw]
      exact ⟨by decide, Or.inr (by decide)⟩
  have hidle : cutPager.dev.medium.Within (idle fun _ => Buf.zero sectorSize) := by
    refine ⟨fun lba => ⟨fun _ => rfl, fun _ => ?_⟩, fun w hw => by cases hw⟩
    show (Buf.zero sectorSize).getLe 4 8 ≠ stateCommitted
    rw [Buf.getLe_zero]
    decide
  have hfit : Fits cutPager.dev.sectors 2051 := ⟨by decide, by decide, by decide⟩
  obtain ⟨⟨d, hd⟩, hall⟩ := commit_crash_atomic hfit hidle rfl hws
    (show cutPager.dev.plan = cutAt 3 from rfl) rfl (survives_view _)
  exact ⟨d, hd, (hall d hd).1⟩

end Pager

end TablesOS
