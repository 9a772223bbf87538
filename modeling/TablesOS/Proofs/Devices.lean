import TablesOS.Base.Mimic
import TablesOS.Proofs.RowIds

/-!
# The store does not know its device

The journal, the pager and the store are generic in the block device: all they
do with it is to call it. So it is enough to relate two devices call by call
(`Stands`), and every history on the one is a history on the other, with the
same answers (`history_stands`). A relation that holds of a device and itself
is an invariant of the device through whatever a store does to it.
-/

namespace TablesOS

open Fallible

/-- Along `R` one device stands for the other: it has the same size, and every
call does the same on both. -/
structure Stands {D D' : Type} [BlockDevice D] [BlockDevice D'] (R : D → D' → Prop) : Prop where
  count : ∀ d d', R d d' → BlockDevice.sectorCount d = BlockDevice.sectorCount d'
  read : ∀ lba, Mimics R Eq (BlockDevice.readSector lba) (BlockDevice.readSector lba)
  write : ∀ lba x, Mimics R Eq (BlockDevice.writeSector lba x) (BlockDevice.writeSector lba x)
  flush : Mimics R Eq BlockDevice.flush BlockDevice.flush

/-- What stands for a device stands for what that stands for. -/
theorem Stands.comp {D D' D'' : Type} [BlockDevice D] [BlockDevice D'] [BlockDevice D'']
    {R : D → D' → Prop} {R' : D' → D'' → Prop} (h : Stands R) (h' : Stands R') :
    Stands fun d d'' => ∃ d', R d d' ∧ R' d' d'' where
  count := by
    rintro d d'' ⟨d', hd, hd'⟩
    exact (h.count d d' hd).trans (h'.count d' d'' hd')
  read lba := (h.read lba).comp (h'.read lba)
  write lba x := (h.write lba x).comp (h'.write lba x)
  flush := h.flush.comp h'.flush

/-- An invariant of the device is one of whatever a store does to it. -/
theorem Stands.of_invariant {D : Type} [BlockDevice D] {P : D → Prop}
    (hread : ∀ lba d, P d → P (BlockDevice.readSector lba d).2)
    (hwrite : ∀ lba x d, P d → P (BlockDevice.writeSector lba x d).2)
    (hflush : ∀ d : D, P d → P (BlockDevice.flush d).2) :
    Stands fun d d' : D => d = d' ∧ P d := by
  refine ⟨?_, fun lba => ?_, fun lba x => ?_, ?_⟩
  · rintro d d' ⟨rfl, -⟩
    rfl
  · rintro d d' ⟨rfl, hd⟩
    exact ⟨answered_eq.mpr rfl, rfl, hread lba d hd⟩
  · rintro d d' ⟨rfl, hd⟩
    exact ⟨answered_eq.mpr rfl, rfl, hwrite lba x d hd⟩
  · rintro d d' ⟨rfl, hd⟩
    exact ⟨answered_eq.mpr rfl, rfl, hflush d hd⟩

namespace Disk

variable {α : Type} {d : Disk} {inRange : Disk → Bool} {act : Disk → α × Disk}

theorem call_quiet (hq : d.Quiet) (hr : inRange d = true) : call inRange act d =
    (.ok (act { d with clock := d.clock + 1 }).1, (act { d with clock := d.clock + 1 }).2) := by
  simp [call, hq d.clock, hr]

theorem call_outside (hr : inRange d = false) :
    call inRange act d = (.error .io, { d with clock := d.clock + 1 }) := by
  simp [call, hr]

/-- A call leaves the medium alone, or does what it is there for. -/
theorem call_medium (d : Disk) (inRange : Disk → Bool) (act : Disk → α × Disk) :
    (call inRange act d).2.medium = d.medium ∨
      (call inRange act d).2 = (act { d with clock := d.clock + 1 }).2 := by
  unfold call
  dsimp only
  split
  · exact Or.inl rfl
  · exact Or.inr rfl

end Disk

/-- A device stands for a disk that works if it does so call by call: on a sector of
the disk what the disk does, elsewhere nothing. -/
theorem Stands.of_disk {D : Type} [BlockDevice D] {R : D → Disk → Prop}
    (hcount : ∀ d d', R d d' → BlockDevice.sectorCount d = d'.sectors)
    (hquiet : ∀ d d', R d d' → d'.Quiet)
    (hstill : ∀ d (d' : Disk), R d d' → R d { d' with clock := d'.clock + 1 })
    (hread : ∀ lba d (d' : Disk), R d d' → lba < d'.sectors →
      ∃ e, BlockDevice.readSector lba d = (.ok (d'.view lba), e) ∧
        ∀ d'' : Disk, d''.Quiet → d''.sectors = d'.sectors → d''.view = d'.view → R e d'')
    (hwrite : ∀ lba x d (d' : Disk), R d d' → lba < d'.sectors →
      ∃ e, BlockDevice.writeSector lba x d = (.ok (), e) ∧
        ∀ d'' : Disk, d''.Quiet → d''.sectors = d'.sectors → d''.view = Medium.upd d'.view lba x →
          R e d'')
    (hflush : ∀ d (d' : Disk), R d d' → ∃ e, BlockDevice.flush d = (.ok (), e) ∧
      ∀ d'' : Disk, d''.Quiet → d''.sectors = d'.sectors → d''.view = d'.view → R e d'')
    (hout : ∀ lba d (d' : Disk), R d d' → d'.sectors ≤ lba →
      BlockDevice.readSector lba d = (.error .io, d) ∧
        ∀ x, BlockDevice.writeSector lba x d = (.error .io, d)) : Stands R := by
  refine ⟨hcount, fun lba d d' h => ?_, fun lba x d d' h => ?_, fun d d' h => ?_⟩
  · have hq := hquiet d d' h
    by_cases hlt : lba < d'.sectors
    · obtain ⟨e, hrun, hnext⟩ := hread lba d d' h hlt
      have hdisk : (BlockDevice.readSector lba : DevM Disk Sector) d' = _ :=
        Disk.call_quiet hq (by simpa using hlt)
      rw [hrun, hdisk]
      exact ⟨.ok rfl, hnext _ hq rfl rfl⟩
    · have hdisk : (BlockDevice.readSector lba : DevM Disk Sector) d' = _ :=
        Disk.call_outside (by simpa using hlt)
      rw [(hout lba d d' h (Nat.le_of_not_lt hlt)).1, hdisk]
      exact ⟨.error _, hstill d d' h⟩
  · have hq := hquiet d d' h
    by_cases hlt : lba < d'.sectors
    · obtain ⟨e, hrun, hnext⟩ := hwrite lba x d d' h hlt
      have hdisk : (BlockDevice.writeSector lba x : DevM Disk Unit) d' = _ :=
        Disk.call_quiet hq (by simpa using hlt)
      rw [hrun, hdisk]
      exact ⟨.ok rfl, hnext _ hq rfl (Medium.view_write _ _ _)⟩
    · have hdisk : (BlockDevice.writeSector lba x : DevM Disk Unit) d' = _ :=
        Disk.call_outside (by simpa using hlt)
      rw [(hout lba d d' h (Nat.le_of_not_lt hlt)).2, hdisk]
      exact ⟨.error _, hstill d d' h⟩
  · have hq := hquiet d d' h
    obtain ⟨e, hrun, hnext⟩ := hflush d d' h
    have hdisk : (BlockDevice.flush : DevM Disk Unit) d' = _ := Disk.call_quiet hq rfl
    rw [hrun, hdisk]
    exact ⟨.ok rfl, hnext _ hq rfl rfl⟩

section Calls

variable {D D' : Type} [BlockDevice D] [BlockDevice D'] {R : D → D' → Prop} (h : Stands R)

include h

/-! ## The journal -/

namespace Journal

theorem mimics_readPage (page : Nat) (out : Page) :
    Mimics R Eq (readPage page out : DevM D Page) (readPage page out : DevM D' Page) := by
  refine Mimics.foldlM (fun out out' hout i _ => ?_) rfl
  subst hout
  refine (h.read _).bind fun sec sec' hsec => ?_
  subst hsec
  exact Mimics.pure rfl

theorem mimics_writePage (page : Nat) (data : Page) :
    Mimics R Eq (writePage page data : DevM D Unit) (writePage page data : DevM D' Unit) :=
  Mimics.forM fun _ _ => h.write _ _

theorem mimics_writeCtrl (buf : Buf ctrlSize) :
    Mimics R Eq (writeCtrl buf : DevM D Unit) (writeCtrl buf : DevM D' Unit) :=
  Mimics.forM fun _ _ => mimics_writePage h _ _

theorem mimics_readCtrl : Mimics R Eq (readCtrl : DevM D (Option Ctrl)) readCtrl := by
  unfold readCtrl
  refine Mimics.bind (Mimics.foldlM (fun buf buf' hbuf p _ => ?_) rfl) fun buf buf' hbuf => ?_
  · subst hbuf
    refine (mimics_readPage h _ _).bind fun pg pg' hpg => ?_
    subst hpg
    exact Mimics.pure rfl
  · subst hbuf
    exact Mimics.pure rfl

theorem mimics_init : Mimics R Eq (init : DevM D Unit) init :=
  (mimics_writeCtrl h _).bind fun _ _ _ => h.flush

theorem mimics_redo (entries : List (Nat × Nat)) :
    Mimics R Eq (redo entries : DevM D Unit) (redo entries) := by
  refine Mimics.forM fun e _ => ?_
  refine (mimics_readPage h _ _).bind fun page page' hpage => ?_
  subst hpage
  exact mimics_writePage h _ _

theorem mimics_recover : Mimics R Eq (recover : DevM D Bool) recover := by
  unfold recover
  refine (mimics_readCtrl h).bind fun ctrl ctrl' hctrl => ?_
  subst hctrl
  cases ctrl with
  | none => exact Mimics.pure rfl
  | some ctrl =>
      refine Mimics.ite (fun _ => Mimics.pure rfl) fun _ => ?_
      refine (mimics_redo h _).bind fun _ _ _ => h.flush.bind fun _ _ _ => ?_
      refine (mimics_writeCtrl h _).bind fun _ _ _ => h.flush.bind fun _ _ _ => ?_
      exact Mimics.pure rfl

theorem mimics_commit (txid : Nat) (dirty : List (Nat × Page)) :
    Mimics R Eq (commit txid dirty : DevM D Unit) (commit txid dirty) := by
  unfold commit
  refine Mimics.ite (fun _ => Mimics.throw _) fun _ => ?_
  refine Mimics.bind (Mimics.forM fun _ _ => mimics_writePage h _ _) fun _ _ _ => ?_
  refine (mimics_writeCtrl h _).bind fun _ _ _ => h.flush.bind fun _ _ _ => ?_
  refine (mimics_writeCtrl h _).bind fun _ _ _ => h.flush.bind fun _ _ _ => ?_
  refine Mimics.bind (Mimics.forM fun _ _ => mimics_writePage h _ _) fun _ _ _ => ?_
  refine h.flush.bind fun _ _ _ => ?_
  exact (mimics_writeCtrl h _).bind fun _ _ _ => h.flush

end Journal

/-! ## The pager -/

namespace Pager

omit h in
/-- The two handles are at the same point, on devices that `R` relates. -/
structure Like (R : D → D' → Prop) (pg : Pager D) (pg' : Pager D') : Prop where
  dev : R pg.dev pg'.dev
  sb : pg.sb = pg'.sb
  dirty : pg.dirty = pg'.dirty
  cache : pg.cache = pg'.cache

omit h [BlockDevice D] [BlockDevice D'] in
theorem mimics_onDev {α : Type} {m : DevM D α} {m' : DevM D' α} (hm : Mimics R Eq m m') :
    Mimics (Like R) Eq (onDev m) (onDev m') := by
  intro pg pg' hpg
  obtain ⟨ho, hdev⟩ := hm _ _ hpg.dev
  exact ⟨ho, hdev, hpg.sb, hpg.dirty, hpg.cache⟩

theorem mimics_readSuperblock :
    Mimics R Eq (readSuperblock : DevM D Superblock) readSuperblock := by
  refine (Journal.mimics_readPage h _ _).bind fun p p' hp => ?_
  subst hp
  cases Superblock.decode p with
  | ok sb => exact Mimics.pure rfl
  | error e => exact Mimics.throw e

/-- The handle a mount or a format answers stands on the device it leaves. -/
theorem mimics_mount {d : D} {d' : D'} (hd : R d d') :
    Answered (Like R) (mount d).1 (mount d').1 ∧ R (mount d).2 (mount d').2 := by
  have hm : Mimics R (Like R) (mount : Fallible StoreError D (Pager D)) mount := by
    refine (Journal.mimics_recover h).bind fun _ _ _ => ?_
    refine (mimics_readSuperblock h).bind fun sb sb' hsb => ?_
    exact Mimics.gets fun d d' hd => ⟨hd, hsb, rfl, rfl⟩
  exact hm d d' hd

theorem mimics_format : Mimics R (Like R) (format : Fallible StoreError D (Pager D)) format := by
  unfold format
  refine Mimics.bind (Q := Eq) (Mimics.gets fun d d' hd => ?_) fun total total' htotal => ?_
  · rw [h.count d d' hd]
  subst htotal
  refine Mimics.ite (fun _ => Mimics.throw _) fun _ => ?_
  refine (Journal.mimics_init h).bind fun _ _ _ => ?_
  refine (Journal.mimics_writePage h _ _).bind fun _ _ _ => h.flush.bind fun _ _ _ => ?_
  exact Mimics.gets fun d d' hd => ⟨hd, rfl, rfl, rfl⟩

theorem mimics_readPage (page : Nat) :
    Mimics (Like R) Eq (readPage page : PagerM D Page) (readPage page) := by
  intro pg pg' hpg
  obtain ⟨ho, hlike⟩ := mimics_onDev (Journal.mimics_readPage h page zeroedPage) pg pg' hpg
  unfold readPage
  rw [hpg.dirty, hpg.cache, hpg.sb]
  cases hd : pg'.dirty[page]? with
  | some p => exact ⟨.ok rfl, hpg⟩
  | none =>
      cases hc : pg'.cache[page]? with
      | some p => exact ⟨.ok rfl, hpg⟩
      | none =>
          dsimp only
          by_cases hlt : pg'.sb.totalPages ≤ page
          · rw [if_pos hlt, if_pos hlt]
            exact ⟨.error _, hpg⟩
          rw [if_neg hlt, if_neg hlt]
          rcases hr : onDev (Journal.readPage page zeroedPage) pg with ⟨o, pg₁⟩
          rcases hr' : onDev (Journal.readPage page zeroedPage) pg' with ⟨o', pg₁'⟩
          rw [hr, hr'] at ho hlike
          cases ho with
          | error e => exact ⟨.error e, hlike⟩
          | ok hbuf =>
              subst hbuf
              have hcache : pg₁.cache = pg₁'.cache := hlike.cache
              exact ⟨.ok rfl, hlike.dev, hlike.sb, hlike.dirty,
                congrArg (cacheInsert · page _) hcache⟩

theorem mimics_commit : Mimics (Like R) Eq (commit : PagerM D Unit) commit := by
  intro pg pg' hpg
  obtain ⟨ho, hlike⟩ := mimics_onDev (Journal.mimics_commit h ((pg'.sb.generation + 1) % 2 ^ 64)
    (batch { pg'.sb with generation := (pg'.sb.generation + 1) % 2 ^ 64 } pg'.dirty)) pg pg' hpg
  unfold commit
  rw [hpg.dirty, hpg.sb]
  by_cases hempty : pg'.dirty.isEmpty = true
  · rw [if_pos hempty, if_pos hempty]
    exact ⟨.ok rfl, hpg⟩
  rw [if_neg hempty, if_neg hempty]
  dsimp only
  rcases hr : onDev (Journal.commit ((pg'.sb.generation + 1) % 2 ^ 64)
    (batch { pg'.sb with generation := (pg'.sb.generation + 1) % 2 ^ 64 } pg'.dirty)) pg
    with ⟨o, pg₁⟩
  rcases hr' : onDev (Journal.commit ((pg'.sb.generation + 1) % 2 ^ 64)
    (batch { pg'.sb with generation := (pg'.sb.generation + 1) % 2 ^ 64 } pg'.dirty)) pg'
    with ⟨o', pg₁'⟩
  rw [hr, hr'] at ho hlike
  cases ho with
  | error e => exact ⟨.error e, hlike⟩
  | ok hu =>
      have hdirty : pg₁.dirty = pg₁'.dirty := hlike.dirty
      have hcache : pg₁.cache = pg₁'.cache := hlike.cache
      refine ⟨.ok rfl, hlike.dev, rfl, rfl, ?_⟩
      show pg₁.dirty.toList.foldl _ pg₁.cache = pg₁'.dirty.toList.foldl _ pg₁'.cache
      rw [hdirty, hcache]

theorem mimics_rollback : Mimics (Like R) Eq (rollback : PagerM D Unit) rollback := by
  intro pg pg' hpg
  obtain ⟨ho, hlike⟩ := mimics_onDev (mimics_readSuperblock h) { pg with dirty := ∅ }
    { pg' with dirty := ∅ } ⟨hpg.dev, hpg.sb, rfl, hpg.cache⟩
  unfold rollback
  rcases hr : onDev readSuperblock { pg with dirty := ∅ } with ⟨o, pg₁⟩
  rcases hr' : onDev readSuperblock { pg' with dirty := ∅ } with ⟨o', pg₁'⟩
  rw [hr, hr'] at ho hlike
  cases ho with
  | error e => exact ⟨.error e, hlike⟩
  | ok hsb => exact ⟨.ok rfl, hlike.dev, hsb, hlike.dirty, hlike.cache⟩

theorem runProg_like {α : Type} (prog : PageProg α) :
    ∀ {pg : Pager D} {pg' : Pager D'}, Like R pg pg' →
      (runProg prog pg).1 = (runProg prog pg').1 ∧
        Like R (runProg prog pg).2 (runProg prog pg').2 := by
  induction prog with
  | done o => exact fun hpg => ⟨rfl, hpg⟩
  | read a k ih =>
      intro pg pg' hpg
      obtain ⟨ho, hlike⟩ := mimics_readPage h a pg pg' hpg
      simp only [runProg]
      rcases hr : readPage a pg with ⟨o, pg₁⟩
      rcases hr' : readPage a pg' with ⟨o', pg₁'⟩
      rw [hr, hr'] at ho hlike
      cases ho with
      | error e => exact ⟨rfl, hlike⟩
      | ok hx =>
          subst hx
          exact ih _ hlike
  | ctl k ih =>
      intro pg pg' hpg
      simp only [runProg, hpg.sb]
      exact ih _ hpg
  | write a x p ih =>
      intro pg pg' hpg
      simp only [runProg]
      exact ih ⟨hpg.dev, hpg.sb, by rw [writePage, writePage, hpg.dirty], hpg.cache⟩
  | setCtl sb p ih =>
      intro pg pg' hpg
      simp only [runProg]
      exact ih ⟨hpg.dev, rfl, hpg.dirty, hpg.cache⟩

end Pager

/-! ## The store -/

namespace Store

open Pager

variable {pg : Pager D} {pg' : Pager D'}

theorem tx_like {α : Type} (body : PageProg α) (hpg : Like R pg pg') :
    (tx body pg).1 = (tx body pg').1 ∧ Like R (tx body pg).2 (tx body pg').2 := by
  obtain ⟨ho, hlike⟩ := runProg_like h body hpg
  unfold tx
  rcases hr : runProg body pg with ⟨o, pg₁⟩
  rcases hr' : runProg body pg' with ⟨o', pg₁'⟩
  rw [hr, hr'] at ho hlike
  simp only at ho hlike
  subst ho
  cases o with
  | ok r =>
      obtain ⟨hc, hlike'⟩ := mimics_commit h pg₁ pg₁' hlike
      dsimp only
      rcases hcr : Pager.commit pg₁ with ⟨u, pg₂⟩
      rcases hcr' : Pager.commit pg₁' with ⟨u', pg₂'⟩
      rw [hcr, hcr'] at hc hlike'
      cases hc with
      | ok _ => exact ⟨rfl, hlike'⟩
      | error e => exact ⟨rfl, (mimics_rollback h pg₂ pg₂' hlike').2⟩
  | err e => exact ⟨rfl, (mimics_rollback h pg₁ pg₁' hlike).2⟩
  | panic => exact ⟨rfl, hlike⟩
  | diverge => exact ⟨rfl, hlike⟩

theorem call_like {α : Type} (m : PageQuery (Call α)) (hpg : Like R pg pg') :
    (call m pg).1 = (call m pg').1 ∧ Like R (call m pg).2 (call m pg').2 := by
  obtain ⟨ho, hlike⟩ := runProg_like h (Prog.ofQuery m) hpg
  unfold call
  rcases hr : runProg (Prog.ofQuery m) pg with ⟨o, pg₁⟩
  rcases hr' : runProg (Prog.ofQuery m) pg' with ⟨o', pg₁'⟩
  rw [hr, hr'] at ho hlike
  simp only at ho hlike
  subst ho
  cases o with
  | ok c =>
      cases c with
      | ret a => exact ⟨rfl, hlike⟩
      | tx body => exact tx_like h body hlike
  | err e => exact ⟨rfl, hlike⟩
  | panic => exact ⟨rfl, hlike⟩
  | diverge => exact ⟨rfl, hlike⟩

theorem open_stands {d : D} {d' : D'} (hd : R d d') :
    Answered (Like R) (openStore d).1 (openStore d').1 ∧
      R (openStore d).2 (openStore d').2 := by
  obtain ⟨ho, hdev⟩ := mimics_mount h hd
  unfold openStore
  rcases hr : mount d with ⟨o, d₁⟩
  rcases hr' : mount d' with ⟨o', d₁'⟩
  rw [hr, hr'] at ho hdev
  cases ho with
  | ok hlike => exact ⟨.ok hlike, hdev⟩
  | error e => cases e <;> exact ⟨.error _, hdev⟩

theorem format_stands {d : D} {d' : D'} (hd : R d d') :
    Answered (Like R) (formatStore d).1 (formatStore d').1 ∧
      R (formatStore d).2 (formatStore d').2 :=
  mimics_format h d d' hd

theorem happen_stands (e : StoreEvent RowId) (hpg : Like R pg pg') :
    (happen e pg).1 = (happen e pg').1 ∧ Like R (happen e pg).2 (happen e pg').2 := by
  cases e with
  | call op => exact call_like h (method op) hpg
  | remount =>
      obtain ⟨ho, hdev⟩ := open_stands h hpg.dev
      unfold happen
      rcases hr : openStore pg.dev with ⟨o, d₁⟩
      rcases hr' : openStore pg'.dev with ⟨o', d₁'⟩
      rw [hr, hr'] at ho hdev
      cases ho with
      | ok hlike => exact ⟨rfl, hlike⟩
      | error e => exact ⟨rfl, hdev, hpg.sb, hpg.dirty, hpg.cache⟩

/-- A history on the one device is the history on the other. -/
theorem history_stands (es : List (StoreEvent RowId)) :
    ∀ {pg : Pager D} {pg' : Pager D'}, Like R pg pg' →
      (history es pg).1 = (history es pg').1 ∧ Like R (history es pg).2 (history es pg').2 := by
  induction es with
  | nil => exact fun hpg => ⟨rfl, hpg⟩
  | cons e es ih =>
      intro pg pg' hpg
      obtain ⟨ho, hlike⟩ := happen_stands h e hpg
      obtain ⟨hos, hlast⟩ := ih hlike
      rw [history_cons, history_cons, ho, hos]
      exact ⟨rfl, hlast⟩

theorem handedOut_stands (es : List (StoreEvent RowId)) :
    ∀ {led : Ledger RowId} {pg : Pager D} {pg' : Pager D'}, Like R pg pg' →
      HandedOut es led pg → HandedOut es led pg' := by
  induction es with
  | nil => exact fun _ _ => trivial
  | cons e es ih =>
      intro led pg pg' hpg hes
      obtain ⟨ho, hlike⟩ := happen_stands h e hpg
      refine ⟨hes.1, ?_⟩
      have hrest := ih hlike hes.2
      rw [ho] at hrest
      exact hrest

end Store

end Calls

/-! ## The size of a disk -/

theorem sectors_call {α : Type} {inRange : Disk → Bool} {act : Disk → α × Disk}
    (hact : ∀ d, (act d).2.sectors = d.sectors) (d : Disk) :
    (Disk.call inRange act d).2.sectors = d.sectors := by
  unfold Disk.call
  dsimp only
  split
  · rfl
  · exact hact _

/-- Whatever is done to a disk, it keeps its size. -/
theorem sectors_stands (n : Nat) : Stands fun d d' : Disk => d = d' ∧ d.sectors = n :=
  Stands.of_invariant (fun _ d h => (sectors_call (fun _ => rfl) d).trans h)
    (fun _ _ d h => (sectors_call (fun _ => rfl) d).trans h)
    fun d h => (sectors_call (fun _ => rfl) d).trans h

/-- So it has the size that it was formatted with. -/
theorem Store.Reachable.sectors {d : Disk} {led : Ledger RowId} {pg : Pager Disk}
    (h : Store.Reachable d led pg) : pg.dev.sectors = d.sectors := by
  have hstands := sectors_stands d.sectors
  induction h with
  | format h =>
      obtain ⟨ho, -⟩ := Store.format_stands hstands ⟨rfl, rfl⟩
      rw [h] at ho
      cases ho with
      | ok hlike => exact hlike.dev.2
  | event _ e _ ih => exact (Store.happen_stands hstands e ⟨⟨rfl, ih⟩, rfl, rfl, rfl⟩).2.dev.2

/-! ## A device that stands for a disk -/

namespace Store

open Pager

variable {D : Type} [BlockDevice D] {R : D → Disk → Prop}

/-- A volume that some life of a store has left is mounted through the device, and
from then on answers as the model does from the tables that were there. -/
theorem stands_life (hR : Stands R) {led : Ledger RowId} {pg₀ : Pager Disk} {db : Database RowId}
    {d : D} (hm : Mirrored led pg₀ db) (h : R d pg₀.dev) :
    ∃ pg d', openStore d = (.ok pg, d') ∧
      (∀ op, op.writes = false → led.Covers (.call op) → ∀ fresh,
          (run op pg₀).1 = Outcome.ofExcept (db.step fresh op).1) ∧
        ∀ es, HandedOut es led pg → ∃ ids : List (Option RowId), ids.length = es.length ∧
          Database.AllNew (es.zip ids) db ∧
          (history es pg).1 = (Database.history (es.zip ids) db).1.map Outcome.ofExcept := by
  obtain ⟨pg₁, hopen, hstill, hclean⟩ := open_clean hm.clean hm.quiet
  obtain ⟨ho, -⟩ := open_stands hR h
  rw [hopen] at ho
  rcases hrun : openStore d with ⟨o, d'⟩
  rw [hrun] at ho
  cases ho with
  | ok hlike =>
      refine ⟨_, d', rfl, fun op hw he fresh => hm.reads hw he fresh, fun es hes => ?_⟩
      have hes' := handedOut_stands hR es hlike hes
      obtain ⟨hos, -⟩ := history_stands hR es hlike
      obtain ⟨ids, hlen, hnew, hmodel, -⟩ := history_mirrored es (hm.still hstill hclean) hes'
      exact ⟨ids, hlen, hnew, hos.trans hmodel⟩

/-- A question is answered as it was before. -/
theorem life_reads {led : Ledger RowId} {pg₀ : Pager Disk} {pg : Pager D} {db : Database RowId}
    (hreads : ∀ op, op.writes = false → led.Covers (.call op) → ∀ fresh,
      (run op pg₀).1 = Outcome.ofExcept (db.step fresh op).1)
    (hlife : ∀ es, HandedOut es led pg → ∃ ids : List (Option RowId), ids.length = es.length ∧
      Database.AllNew (es.zip ids) db ∧
      (history es pg).1 = (Database.history (es.zip ids) db).1.map Outcome.ofExcept)
    {op : Op RowId} (hw : op.writes = false) (hc : led.Covers (.call op)) :
    (run op pg).1 = (run op pg₀).1 := by
  obtain ⟨ids, hlen, hnew, hos⟩ := hlife [.call op] ⟨hc, trivial⟩
  obtain ⟨fresh, rfl⟩ := List.length_eq_one_iff.mp hlen
  cases fresh with
  | none =>
      obtain ⟨op', hop, hw', -⟩ := hnew.1.room rfl
      cases hop
      rw [hw] at hw'
      cases hw'
  | some fresh =>
      have ho : [(run op pg).1] = [Outcome.ofExcept (db.step fresh op).1] := hos
      rw [hreads op hw hc fresh]
      exact List.head_eq_of_cons_eq ho

/-- Two notes on a disk. -/
theorem notes_written {d : Disk} (hq : d.Quiet)
    (hroom : Journal.firstDataPage + 7 ≤ d.sectors / pageSectors)
    (hsmall : d.sectors / pageSectors - Journal.firstDataPage < Journal.jcap) :
    ∃ a b pg, Reachable d [("notes", a), ("notes", b)] pg ∧ pg.dev.sectors = d.sectors ∧
      (run (.scan "notes") pg).1 =
        .ok (.rows [(a, [some (.str "a")]), (b, [some (.str "b")])]) := by
  have hlt : Journal.firstDataPage + 1 < d.sectors / pageSectors :=
    Nat.lt_of_lt_of_le (Nat.add_lt_add_left (by decide) _) hroom
  obtain ⟨pg, -, h, -⟩ := format_seated hq hlt hsmall
  have hnew : nchunks (Table.new "notes").encode = 1 := nchunks_le (by decide)
  have hone : nchunks (oneColumn "notes" "text").encode = 1 := nchunks_le (by decide)
  have hcat : blocks chainCap (catalogLen ["notes"]) = 1 := by decide
  have hfree : 7 ≤ d.sectors / pageSectors - Journal.firstDataPage := Nat.le_sub_of_add_le' hroom
  obtain ⟨a, b, pg', -, h'⟩ := @twoRows_seated _ _ _ h "notes" "text" (by decide)
    (by
      rw [hnew, hone, hcat]
      exact Nat.le_trans (by decide) hfree)
    (by
      rw [hone, hcat]
      exact hfree)
  have hscan := h'.mirrored.scan (List.mem_singleton_self (TableState.mk (oneColumn "notes" "text")
    [(a, [some (.str "a")]), (b, [some (.str "b")])] [a, b]))
  exact ⟨a, b, pg', h'.reach, h'.reach.sectors, hscan⟩

end Store

end TablesOS
