import TablesOS.Proofs.Heap

/-!
# A chain written, read back and given away

`write_chain` on any pager, staged pages and faults of the device included: what
it takes, what it leaves alone, and that `read_chain` and `free_chain` undo it.

Only the first of the three can meet the device, when it reads the link of a
free page. If it succeeds its run is that of a volume that answers every read,
so the device's faults are settled once, in `runProg_inv`. The other two read
pages that are staged by then, and `runProg_staged` says that such a run needs
no device at all.

The allocator is asked for no more than a list of the pages it may hand out,
`Avail`. That list has a page twice when the free list reaches past the
high-water mark, and then one page is handed out for two chunks.
-/

namespace TablesOS

open Prog Medium Journal

namespace Pager

/-! ## What a pager's pages hold -/

/-- What the device has of page `p`. -/
def stored (pg : Pager Disk) (p : Nat) : Page :=
  (readAll pg.dev.sectors pg.dev.view p zeroedPage).toOption.getD zeroedPage

/-- What page `p` holds: the staged image, else what the device has. -/
def content (pg : Pager Disk) (p : Nat) : Page := (pg.dirty[p]?).getD (pg.stored p)

/-- The clean pages cached are what the device has. -/
def CacheHolds (pg : Pager Disk) : Prop := ∀ p x, pg.cache[p]? = some x → pg.load p = .ok x

/-- A pager in order: its cache is a cache of its device, and the high-water
mark is a page number. -/
structure Orderly (pg : Pager Disk) : Prop where
  cached : pg.CacheHolds
  total_lt : pg.sb.totalPages < 2 ^ 64
  hwm_pos : 0 < pg.sb.hwm
  hwm_le : pg.sb.hwm ≤ pg.sb.totalPages

/-- The volume that answers every read with what the device has. -/
def volume (pg : Pager Disk) (h : pg.sb.totalPages < 2 ^ 64) : Volume where
  total := pg.sb.totalPages
  pages := pg.stored
  load p := .ok (pg.stored p)
  total_lt := h
  load_eq _ _ _ := rfl

/-- Every page is there to be read. -/
def allThere (pg : Pager Disk) (_ : Superblock) (p : Nat) : Outcome StoreError Page :=
  .ok (pg.stored p)

/-- Nothing but staged pages is there to be read. -/
def nothingThere (_ : Superblock) (_ : Nat) : Outcome StoreError Page := .panic

theorem stored_of_load {pg : Pager Disk} {p : Nat} {x : Page} (h : pg.load p = .ok x) :
    pg.stored p = x := by
  unfold load at h
  unfold stored
  cases hread : readAll pg.dev.sectors pg.dev.view p zeroedPage with
  | error e =>
      rw [hread] at h
      cases h
  | ok y =>
      rw [hread] at h
      cases h
      rfl

theorem volume_view {pg pg' : Pager Disk} (h : pg.sb.totalPages < 2 ^ 64)
    (hstored : pg'.stored = pg.stored) :
    (pg.volume h).view ⟨pg'.sb, pg'.dirty⟩ = pg'.content := by
  funext p
  show (pg'.dirty[p]?).getD (pg.stored p) = (pg'.dirty[p]?).getD (pg'.stored p)
  rw [hstored]

theorem read_allThere {pg : Pager Disk} (h : pg.sb.totalPages < 2 ^ 64)
    (s : Staged Superblock Page) (p : Nat) :
    Staged.read pg.allThere s p = .ok ((pg.volume h).view s p) := by
  unfold Staged.read Volume.view
  cases s.dirty[p]? <;> rfl

/-! ## Runs that succeed -/

theorem readPage_inv {pg pg' : Pager Disk} {p : Nat} {x : Page} (hc : pg.CacheHolds)
    (h : readPage p pg = (.ok x, pg')) :
    (Staged.mk pg.sb pg.dirty).read pg.allThere p = .ok x ∧ pg'.sb = pg.sb ∧
      pg'.dirty = pg.dirty ∧ pg'.stored = pg.stored ∧ pg'.CacheHolds := by
  unfold readPage at h
  unfold Staged.read
  cases hd : pg.dirty[p]? with
  | some y =>
      simp only [hd] at h
      cases h
      exact ⟨rfl, rfl, rfl, rfl, hc⟩
  | none =>
      simp only [hd] at h
      cases hcache : pg.cache[p]? with
      | some y =>
          simp only [hcache] at h
          cases h
          exact ⟨congrArg Outcome.ok (stored_of_load (hc p x hcache)), rfl, rfl, rfl, hc⟩
      | none =>
          simp only [hcache] at h
          split at h
          · cases h
          · obtain ⟨k, hdev, hres⟩ := readPage_run pg.dev p zeroedPage
            unfold onDev at h
            rcases hr : Journal.readPage p zeroedPage pg.dev with ⟨e | y, d⟩
            · simp only [hr] at h
              cases h
            · simp only [hr] at h hdev hres
              cases h
              subst hdev
              have hload : pg.load p = .ok x := by
                rcases hres with hres | ⟨hres, -⟩
                · exact (congrArg Outcome.ofExcept hres).symm
                · cases hres
              refine ⟨congrArg Outcome.ok (stored_of_load hload), rfl, rfl, rfl,
                fun q y hq => ?_⟩
              rcases getElem?_cacheInsert hq with ⟨rfl, rfl⟩ | ⟨-, hq⟩
              · exact hload
              · exact hc q y hq

/-- A program that comes to an answer on the pager does so where every page can
be read. -/
theorem runProg_inv {α : Type} {a : α} {pg' : Pager Disk} (prog : PageProg α) :
    ∀ {pg : Pager Disk}, pg.CacheHolds → runProg prog pg = (.ok a, pg') →
      prog.eval pg.allThere ⟨pg.sb, pg.dirty⟩ = (.ok a, ⟨pg'.sb, pg'.dirty⟩) ∧
        pg'.stored = pg.stored := by
  induction prog with
  | done o =>
      intro pg _ h
      cases h
      exact ⟨rfl, rfl⟩
  | read p k ih =>
      intro pg hc h
      rcases hr : readPage p pg with ⟨e | x, pg₁⟩
      · simp only [runProg, hr] at h
        cases h
      · simp only [runProg, hr] at h
        obtain ⟨hread, hsb, hdirty, hstored, hc₁⟩ := readPage_inv hc hr
        obtain ⟨he, hs⟩ := ih x hc₁ h
        have hthere : pg₁.allThere = pg.allThere := by
          funext sb q
          show Outcome.ok (pg₁.stored q) = Outcome.ok (pg.stored q)
          rw [hstored]
        simp only [Prog.eval, hread]
        rw [hsb, hdirty, hthere] at he
        exact ⟨he, hs.trans hstored⟩
  | ctl k ih => exact fun hc h => ih _ hc h
  | write p x prog ih =>
      intro pg hc h
      exact @ih (pg.writePage p x) hc h
  | setCtl sb prog ih =>
      intro pg hc h
      exact @ih { pg with sb } hc h

/-- A program that reads staged pages only needs no device. -/
theorem runProg_staged {D α : Type} [BlockDevice D] {a : α} {s' : Staged Superblock Page}
    (prog : PageProg α) : ∀ {pg : Pager D},
      prog.eval nothingThere ⟨pg.sb, pg.dirty⟩ = (.ok a, s') →
      runProg prog pg = (.ok a, ⟨pg.dev, s'.ctl, s'.dirty, pg.cache⟩) := by
  induction prog with
  | done o =>
      intro pg h
      cases h
      rfl
  | read p k ih =>
      intro pg h
      cases hd : pg.dirty[p]? with
      | none =>
          simp only [Prog.eval, Staged.read, hd, nothingThere] at h
          cases h
      | some x =>
          simp only [Prog.eval, Staged.read, hd] at h
          simp only [runProg, readPage, hd]
          exact ih x h
  | ctl k ih => exact fun h => ih _ h
  | write p x prog ih =>
      intro pg h
      exact @ih (pg.writePage p x) h
  | setCtl sb prog ih =>
      intro pg h
      exact @ih { pg with sb } h

end Pager

namespace Store

open Pager

/-! ## Taking pages -/

theorem Avail.frame {sb : Superblock} {v v' : Nat → Page} {avail : List Nat}
    (h : Avail sb v avail) (hv : ∀ p ∈ avail, v' p = v p) : Avail sb v' avail := by
  obtain ⟨F, hF, rfl⟩ := h
  exact ⟨F, hF.frame fun p hp => hv p (List.mem_append_left _ hp), rfl⟩

/-- A staged page is read whatever the device does. -/
theorem read_staged {V : Volume} {s : Staged Superblock Page} {p : Nat} (hp : p ∈ s.dirty)
    (rd : Superblock → Nat → Outcome StoreError Page) (sb : Superblock) :
    Staged.read rd ⟨sb, s.dirty⟩ p = .ok (V.view s p) := by
  obtain ⟨x, hx⟩ := Option.isSome_iff_exists.mp (Std.TreeMap.mem_iff_isSome_getElem?.mp hp)
  unfold Staged.read Volume.view
  rw [hx]
  rfl

/-- What a step that took the pages `ps` off those at hand did not do. -/
structure Takes (V : Volume) (s s' : Staged Superblock Page) (ps rest : List Nat) : Prop where
  avail : Avail s'.ctl (V.view s') rest
  total : s'.ctl.totalPages = s.ctl.totalPages
  others : ∀ q, q ∉ ps → V.view s' q = V.view s q
  staged : ∀ q, q ∈ s'.dirty ↔ q ∈ s.dirty ∨ q ∈ ps

section Chains

variable {V : Volume} {rd : Superblock → Nat → Outcome StoreError Page}

/-- The first loop of `write_chain` takes the next pages in order. -/
theorem allocPages_avail (hrd : ∀ s p, Staged.read rd s p = .ok (V.view s p)) {n : Nat} :
    ∀ {s s' : Staged Superblock Page} {avail ps : List Nat}, Avail s.ctl (V.view s) avail →
      avail.Nodup → (allocPages n).eval rd s = (.ok ps, s') →
      ∃ rest, avail = ps ++ rest ∧ ps.length = n ∧ Takes V s s' ps rest := by
  induction n with
  | zero =>
      intro s s' avail ps h _ he
      cases he
      exact ⟨avail, rfl, rfl, h, rfl, fun _ _ => rfl, fun q => by simp⟩
  | succ n ih =>
      intro s s' avail ps h hnd he
      rw [allocPages] at he
      obtain ⟨p, s₁, he₁, he⟩ := eval_bind_inv _ he
      obtain ⟨qs, s₂, he₂, he⟩ := eval_bind_inv _ he
      cases he
      cases avail with
      | nil =>
          rw [allocPage_empty h] at he₁
          cases he₁
      | cons p' avail =>
          obtain ⟨sb, hp, havail, htotal, -⟩ := allocPage_avail h hnd fun _ => hrd s _
          rw [hp] at he₁
          cases he₁
          have hview : V.view ⟨sb, s.dirty.insert p zeroedPage⟩ =
              upd (V.view s) p zeroedPage := V.view_insert _ _ _
          obtain ⟨rest, rfl, hlen, htakes⟩ := ih (hview ▸ havail) (List.nodup_cons.mp hnd).2 he₂
          refine ⟨rest, rfl, by rw [List.length_cons, hlen], htakes.avail,
            htakes.total.trans htotal, fun q hq => ?_, fun q => ?_⟩
          · rw [List.mem_cons, not_or] at hq
            rw [htakes.others q hq.2, hview, upd_other hq.1]
          · rw [htakes.staged, mem_insert_iff, List.mem_cons, or_assoc]

/-- `write_chain` lays the bytes out on the pages it takes. -/
theorem writeChain_avail (hrd : ∀ s p, Staged.read rd s p = .ok (V.view s p))
    {s s' : Staged Superblock Page} {avail : List Nat} {bytes : List Byte} {head : Nat}
    (h : Avail s.ctl (V.view s) avail) (hnd : avail.Nodup) (hlt : ∀ p ∈ avail, p < 2 ^ 64)
    (he : (writeChain bytes).eval rd s = (.ok head, s')) :
    ∃ ps rest, avail = ps ++ rest ∧ head = ps.headD 0 ∧
      Linked blobLayout (V.view s') ps bytes ∧ Takes V s s' ps rest := by
  rw [writeChain] at he
  obtain ⟨ps, s₁, he₁, he⟩ := eval_bind_inv _ he
  obtain ⟨u, s₂, he₂, he⟩ := eval_bind_inv _ he
  cases he
  obtain ⟨rest, rfl, hlen, htakes⟩ := allocPages_avail hrd h hnd he₁
  obtain ⟨hps, -, hdisj⟩ := List.nodup_append.mp hnd
  obtain ⟨s₃, he₃, hctl, hview, hdirty, hlinked⟩ := @writeChunks_run V rd ps bytes s₁ hlen hps
    fun p hp => hlt p (List.mem_append_left _ hp)
  rw [he₃] at he₂
  cases he₂
  refine ⟨ps, rest, rfl, rfl, hlinked, ?_, ?_, fun q hq => ?_, fun q => ?_⟩
  · rw [hctl]
    exact htakes.avail.frame fun p hp => hview p fun hin => hdisj p hin p hp rfl
  · rw [hctl]
    exact htakes.total
  · rw [hview q hq, htakes.others q hq]
  · rw [hdirty, htakes.staged, or_assoc, or_self]

end Chains

/-! ## The round trip -/

/-- With the free list below the high-water mark no page is at hand twice. -/
theorem nodup_avail {sb : Superblock} {v : Nat → Page} {free : List Nat}
    (hfree : FreeList linkOf v sb.freeHead free) (hbelow : ∀ p ∈ free, p < sb.hwm) :
    (free ++ List.range' sb.hwm (sb.totalPages - sb.hwm)).Nodup := by
  refine List.nodup_append.mpr ⟨hfree.nodup, List.nodup_range', fun p hp q hq hpq => ?_⟩
  have hlt := hbelow p hp
  have hle := (List.mem_range'_1.mp hq).1
  omega

/-- `read_chain` finds the bytes on staged pages. -/
theorem readChain_staged {V : Volume} {s : Staged Superblock Page} {ps : List Nat}
    {bytes : List Byte} (h : Linked blobLayout (V.view s) ps bytes)
    (hps : ∀ p ∈ ps, p ≠ 0 ∧ p ∈ s.dirty) (hlen : ps.length ≤ s.ctl.totalPages) :
    (Prog.ofQuery (readChain (ps.headD 0))).eval nothingThere s = (.ok bytes, s) := by
  have hread := @readChainLoop_run (s.read nothingThere) s.ctl (V.view s) ps bytes h
    (s.ctl.totalPages + 1) [] (fun p hp =>
      ⟨(hps p hp).1, read_staged (hps p hp).2 nothingThere s.ctl⟩) (by omega)
  refine (eval_query nothingThere (readChain (ps.headD 0)) s).trans ?_
  rw [readChain, Query.eval_bind_ok _ _ (eval_getSb _ _), hread]
  rfl

/-- `free_chain` puts staged pages in front of the free list. -/
theorem freeChain_staged {V : Volume} {s : Staged Superblock Page} {ps F : List Nat}
    {bytes : List Byte} (h : Linked blobLayout (V.view s) ps bytes) (hnd : ps.Nodup)
    (hps : ∀ p ∈ ps, p ≠ 0 ∧ p < 2 ^ 64 ∧ p ∈ s.dirty)
    (hF : FreeList linkOf (V.view s) s.ctl.freeHead F) (hlt : ∀ p ∈ F, p < 2 ^ 64)
    (hdisj : ∀ p ∈ ps, p ∉ F) (hlen : ps.length ≤ s.ctl.totalPages) :
    ∃ s', (freeChain (ps.headD 0)).eval nothingThere s = (.ok (), s') ∧
      FreeList linkOf (V.view s') s'.ctl.freeHead (ps.reverse ++ F) ∧
      ∀ q, q ∉ ps → V.view s' q = V.view s q := by
  have hthread : FreeList linkOf (V.view s) (ps.headD 0) ps :=
    threaded_of_linked (L := blobLayout) (fun _ _ _ hh => hh.1) h fun p hp => (hps p hp).1
  have hhead : s.ctl.freeHead < 2 ^ 64 := by
    generalize s.ctl.freeHead = head at hF
    cases hF with
    | nil => decide
    | cons _ _ => exact hlt _ List.mem_cons_self
  obtain ⟨s', he, hF', -, hview, -⟩ := @freeChainLoop_run V nothingThere ps (ps.headD 0)
    (2 * (s.ctl.totalPages + 1)) F s hthread hnd (fun q hq => ⟨(hps q hq).2.1, fun sb _ =>
      read_staged (hps q hq).2.2 nothingThere sb⟩) hF hhead hdisj (by omega)
  refine ⟨s', ?_, hF', hview⟩
  rw [freeChain]
  exact (eval_query_bind _ (eval_getSb _ _)).trans he

theorem chain_round_trip {pg pg' : Pager Disk} {free : List Nat} {live : Set Nat}
    {bytes : List Byte} {head : Nat} (h : pg.Orderly)
    (hfree : FreeList linkOf pg.content pg.sb.freeHead free)
    (hbelow : ∀ p ∈ free, p < pg.sb.hwm) (hlive : ∀ p ∈ live, p < pg.sb.hwm ∧ p ∉ free)
    (hrun : runProg (writeChain bytes) pg = (.ok head, pg')) :
    ∃ pages rest : List Nat, pages.Nodup ∧ (∀ p ∈ pages, p ∈ free ∨ pg.sb.hwm ≤ p) ∧
      (∀ p, p ∈ pg'.dirty ↔ p ∈ pg.dirty ∨ p ∈ pages) ∧
      (∀ p, p ∉ pages → pg'.content p = pg.content p) ∧
      (∀ p ∈ live, pg'.content p = pg.content p) ∧
      FreeList linkOf pg'.content pg'.sb.freeHead rest ∧
      runProg (Prog.ofQuery (readChain head)) pg' = (.ok bytes, pg') ∧
      ∃ pg'', runProg (freeChain head) pg' = (.ok (), pg'') ∧
        FreeList linkOf pg''.content pg''.sb.freeHead (pages.reverse ++ rest) ∧
        ∀ p, p ∉ pages → pg''.content p = pg'.content p := by
  obtain ⟨he, hstored⟩ := runProg_inv _ h.cached hrun
  have hview : (pg.volume h.total_lt).view ⟨pg'.sb, pg'.dirty⟩ = pg'.content :=
    volume_view h.total_lt hstored
  have hview₀ : (pg.volume h.total_lt).view ⟨pg.sb, pg.dirty⟩ = pg.content :=
    volume_view h.total_lt rfl
  have hnd := nodup_avail hfree hbelow
  have hbound : ∀ p ∈ free ++ List.range' pg.sb.hwm (pg.sb.totalPages - pg.sb.hwm),
      p ≠ 0 ∧ p < pg.sb.totalPages ∧ p < 2 ^ 64 := by
    have hpos := h.hwm_pos
    have hle := h.hwm_le
    have hlt := h.total_lt
    intro p hp
    rcases List.mem_append.mp hp with hp | hp
    · have hp' := hbelow p hp
      exact ⟨hfree.ne_zero p hp, by omega, by omega⟩
    · have hp' := List.mem_range'_1.mp hp
      exact ⟨by omega, by omega, by omega⟩
  obtain ⟨ps, rest, hsplit, rfl, hlinked, htakes⟩ := writeChain_avail
    (read_allThere h.total_lt) ⟨free, hview₀ ▸ hfree, rfl⟩ hnd (fun p hp => (hbound p hp).2.2) he
  obtain ⟨F, hF, rfl⟩ := htakes.avail
  rw [hsplit] at hnd hbound
  obtain ⟨hps, -, hdisj⟩ := List.nodup_append.mp hnd
  have hbound' : ∀ p ∈ ps, p ≠ 0 ∧ p < pg.sb.totalPages ∧ p < 2 ^ 64 := fun p hp =>
    hbound p (List.mem_append_left _ hp)
  have hstaged : ∀ p ∈ ps, p ∈ pg'.dirty := fun p hp => (htakes.staged p).mpr (Or.inr hp)
  have hlen : ps.length ≤ pg'.sb.totalPages := by
    have hsub : ps ⊆ List.range pg.sb.totalPages := fun p hp =>
      List.mem_range.mpr (hbound' p hp).2.1
    have hle := (hps.subperm hsub).length_le
    rw [List.length_range] at hle
    exact hle.trans (Nat.le_of_eq htakes.total.symm)
  have hfrom : ∀ p ∈ ps, p ∈ free ∨ pg.sb.hwm ≤ p := by
    intro p hp
    have hin : p ∈ free ++ List.range' pg.sb.hwm (pg.sb.totalPages - pg.sb.hwm) :=
      hsplit ▸ List.mem_append_left _ hp
    exact (List.mem_append.mp hin).imp_right fun hin => (List.mem_range'_1.mp hin).1
  have hothers : ∀ p, p ∉ ps → pg'.content p = pg.content p := by
    intro p hp
    rw [← hview, ← hview₀]
    exact htakes.others p hp
  refine ⟨ps, F, hps, hfrom, htakes.staged, hothers, fun p hp => hothers p fun hin => ?_,
    hview ▸ hF, ?_, ?_⟩
  · obtain ⟨hlt, hnot⟩ := hlive p hp
    rcases hfrom p hin with hin | hin
    · exact hnot hin
    · omega
  · exact runProg_staged _ (readChain_staged hlinked (fun p hp =>
      ⟨(hbound' p hp).1, hstaged p hp⟩) hlen)
  · obtain ⟨s', he', hF', hkept⟩ := freeChain_staged hlinked hps (fun p hp =>
      ⟨(hbound' p hp).1, (hbound' p hp).2.2, hstaged p hp⟩) hF
      (fun p hp => (hbound p (List.mem_append_right _ (List.mem_append_left _ hp))).2.2)
      (fun p hp hin => hdisj p hp p (List.mem_append_left _ hin) rfl) hlen
    refine ⟨_, runProg_staged _ he', ?_, fun p hp => ?_⟩
    · have hview' := @volume_view pg ⟨pg'.dev, s'.ctl, s'.dirty, pg'.cache⟩ h.total_lt hstored
      rw [← hview']
      exact hF'
    · have hview' := @volume_view pg ⟨pg'.dev, s'.ctl, s'.dirty, pg'.cache⟩ h.total_lt hstored
      rw [← hview', ← hview]
      exact hkept p hp

/-! ## A transaction in which one page is free -/

/-- The first data page has been freed, and `hwm` is the next one never
used. -/
def oneFree (hwm : Nat) : Pager Disk where
  dev := Disk.attach (2100 * pageSectors) (by decide) (fun _ => Buf.zero sectorSize)
    Disk.noFaults
  sb := ⟨2100, hwm, firstDataPage, 0, 1⟩
  dirty := (∅ : PageMap).insert firstDataPage zeroedPage
  cache := ∅

theorem orderly_oneFree {hwm : Nat} (hpos : 0 < hwm) (hle : hwm ≤ 2100) :
    (oneFree hwm).Orderly := by
  refine ⟨fun p x hx => ?_, (by decide : 2100 < 2 ^ 64), hpos, hle⟩
  have hnone : (∅ : PageMap)[p]? = none := Std.TreeMap.getElem?_emptyc
  rw [show (oneFree hwm).cache[p]? = (∅ : PageMap)[p]? from rfl, hnone] at hx
  cases hx

theorem read_oneFree (hwm : Nat) (rd : Superblock → Nat → Outcome StoreError Page) :
    (Staged.mk (oneFree hwm).sb (oneFree hwm).dirty).read rd firstDataPage = .ok zeroedPage := by
  have hself : (oneFree hwm).dirty[firstDataPage]? = some zeroedPage :=
    Std.TreeMap.getElem?_insert_self
  simp only [Staged.read, hself]

theorem free_oneFree (hwm : Nat) :
    FreeList linkOf (oneFree hwm).content firstDataPage [firstDataPage] := by
  have hself : (oneFree hwm).dirty[firstDataPage]? = some zeroedPage :=
    Std.TreeMap.getElem?_insert_self
  refine .cons (by decide) ?_
  simp only [content, hself, Option.getD_some]
  exact .nil

/-- One byte more than a page of a chain can hold. -/
def twoChunks : List Byte := List.replicate (chainCap + 1) 7

theorem nchunks_twoChunks : nchunks twoChunks = 2 := by
  have hlen : twoChunks.length = chainCap + 1 := List.length_replicate
  have hcap : 0 < chainCap := by decide
  rw [nchunks_gt (by omega), nchunks_le (by rw [List.length_drop]; omega)]

theorem last_twoChunks : (twoChunks.drop chainCap).take chainCap = [7] := by
  have hrest : chainCap + 1 - chainCap = 1 := by decide
  rw [twoChunks, List.drop_replicate, hrest]
  rfl

/-- The two pages that a string of two chunks is laid on. -/
theorem write_oneFree {hwm : Nat} (hlt : hwm < 2100) :
    ∃ s₁ : Staged Superblock Page, s₁.ctl.totalPages = 2100 ∧
      ∀ s₂, (writeChunks [firstDataPage, hwm] twoChunks).eval nothingThere s₁ = (.ok (), s₂) →
        runProg (writeChain twoChunks) (oneFree hwm) =
          (.ok firstDataPage, ⟨(oneFree hwm).dev, s₂.ctl, s₂.dirty, ∅⟩) := by
  have hne : firstDataPage ≠ 0 := by decide
  have hfirst : allocPage.eval nothingThere ⟨(oneFree hwm).sb, (oneFree hwm).dirty⟩ =
      (.ok firstDataPage, ⟨⟨2100, hwm, 0, 0, 1⟩,
        (oneFree hwm).dirty.insert firstDataPage zeroedPage⟩) := by
    rw [← show linkOf zeroedPage = 0 from rfl]
    exact @allocPage_reuse ⟨(oneFree hwm).sb, (oneFree hwm).dirty⟩ nothingThere hne zeroedPage
      (read_oneFree hwm nothingThere)
  have hsecond : allocPage.eval nothingThere ⟨⟨2100, hwm, 0, 0, 1⟩,
      (oneFree hwm).dirty.insert firstDataPage zeroedPage⟩ = (.ok hwm, ⟨⟨2100, hwm + 1, 0, 0, 1⟩,
        ((oneFree hwm).dirty.insert firstDataPage zeroedPage).insert hwm zeroedPage⟩) :=
    allocPage_extend rfl hlt
  have hboth : (allocPages 2).eval nothingThere ⟨(oneFree hwm).sb, (oneFree hwm).dirty⟩ =
      (.ok [firstDataPage, hwm], ⟨⟨2100, hwm + 1, 0, 0, 1⟩,
        ((oneFree hwm).dirty.insert firstDataPage zeroedPage).insert hwm zeroedPage⟩) := by
    rw [allocPages, eval_bind_ok _ hfirst, allocPages, bind_assoc, eval_bind_ok _ hsecond]
    rfl
  refine ⟨⟨⟨2100, hwm + 1, 0, 0, 1⟩,
    ((oneFree hwm).dirty.insert firstDataPage zeroedPage).insert hwm zeroedPage⟩, rfl,
    fun s₂ hwrite => ?_⟩
  refine @runProg_staged _ _ _ _ s₂ _ (oneFree hwm) ?_
  rw [writeChain, nchunks_twoChunks, eval_bind_ok _ hboth, eval_bind_ok _ hwrite]
  rfl

theorem chain_round_trip_one_free : ∃ (pg' : Pager Disk) (pages rest : List Nat), pages.Nodup ∧
    (∀ p ∈ pages, p ∈ [firstDataPage] ∨ firstDataPage + 2 ≤ p) ∧
    (∀ p ∈ ({firstDataPage + 1} : Set Nat),
      pg'.content p = (oneFree (firstDataPage + 2)).content p) ∧
    runProg (Prog.ofQuery (readChain firstDataPage)) pg' = (.ok twoChunks, pg') ∧
    ∃ pg'', runProg (freeChain firstDataPage) pg' = (.ok (), pg'') ∧
      FreeList linkOf pg''.content pg''.sb.freeHead (pages.reverse ++ rest) := by
  have horderly := @orderly_oneFree (firstDataPage + 2) (by decide) (by decide)
  obtain ⟨s₁, -, hrun⟩ := @write_oneFree (firstDataPage + 2) (by decide)
  obtain ⟨s₂, hwrite, -⟩ := @writeChunks_run (Pager.volume _ horderly.total_lt) nothingThere
    [firstDataPage, firstDataPage + 2] twoChunks s₁ nchunks_twoChunks.symm (by decide)
    (by decide)
  obtain ⟨pages, rest, hnd, hfrom, -, -, hlive, -, hread, pg'', hfreed, hlist, -⟩ :=
    @chain_round_trip _ _ [firstDataPage] {firstDataPage + 1} _ _ horderly (free_oneFree _)
      (by decide) (by
        intro p hp
        rw [Set.mem_singleton_iff.mp hp]
        decide) (hrun s₂ hwrite)
  exact ⟨_, pages, rest, hnd, hfrom, hlive, hread, pg'', hfreed, hlist⟩

/-- The free list and the pages never used have a page in common: it is taken
twice, and the second chunk is written over the first. -/
theorem page_beyond_mark_taken_twice : ∃ (pg pg' : Pager Disk) (free : List Nat) (head : Nat),
    pg.Orderly ∧ FreeList linkOf pg.content pg.sb.freeHead free ∧ free.Nodup ∧
    (∀ p, firstDataPage ≤ p → p < pg.sb.hwm → p ∉ free) ∧
    runProg (writeChain twoChunks) pg = (.ok head, pg') ∧
    runProg (Prog.ofQuery (readChain head)) pg' = (.ok [7], pg') ∧ twoChunks ≠ [7] := by
  have horderly := @orderly_oneFree firstDataPage (by decide) (by decide)
  have hfree := free_oneFree firstDataPage
  obtain ⟨s₁, htotal, hrun⟩ := @write_oneFree firstDataPage (by decide)
  obtain ⟨x, hwrite⟩ : ∃ x, (writeChunks [firstDataPage, firstDataPage] twoChunks).eval
      nothingThere s₁ = (.ok (), ⟨s₁.ctl,
        (s₁.dirty.insert firstDataPage x).insert firstDataPage (chunkPage 0 [7])⟩) := by
    rw [← last_twoChunks]
    exact ⟨_, rfl⟩
  refine ⟨_, _, [firstDataPage], firstDataPage, horderly, hfree, hfree.nodup, fun p hlow hp => ?_,
    hrun _ hwrite, runProg_staged _ ?_, fun h => ?_⟩
  · exact absurd hp (Nat.not_lt.mpr hlow)
  · have hlinked : Linked blobLayout (Volume.view (Pager.volume _ horderly.total_lt) ⟨s₁.ctl,
        (s₁.dirty.insert firstDataPage x).insert firstDataPage (chunkPage 0 [7])⟩)
        [firstDataPage] [7] := by
      refine .last (by decide) ?_
      have hview := congrFun (Volume.view_insert (V := Pager.volume _ horderly.total_lt)
        (s := ⟨s₁.ctl, s₁.dirty.insert firstDataPage x⟩) s₁.ctl firstDataPage (chunkPage 0 [7]))
        firstDataPage
      rw [upd_self] at hview
      rw [hview]
      exact holds_chunkPage (by decide) (by decide)
    refine readChain_staged hlinked (fun p hp => ?_) ?_
    · rw [List.mem_singleton.mp hp]
      exact ⟨by decide, mem_insert_iff.mpr (Or.inr rfl)⟩
    · show 1 ≤ s₁.ctl.totalPages
      omega
  · have hlen : twoChunks.length = chainCap + 1 := List.length_replicate
    rw [h] at hlen
    cases hlen

end Store

end TablesOS
