import TablesOS.Spec.Restarts
import TablesOS.Proofs.Runs

/-!
# The store survives faults and restarts

What a medium will be after a mount is settled before the mount: `Destined U`
says that recovery, however often it is cut off, ends with the home pages of
`U`. An operation that meets faults leaves a medium that is destined for the
pages before it or for those its transaction was to commit, and nothing else.
A handle that comes from mounting such a medium stores the tables of the one or
of the other.
-/

namespace TablesOS

open Medium Journal Disk

namespace Store

open Pager

/-! ## Where recovery leads -/

/-- Recovery ends with the home pages of `U`. -/
def Destined (T : Nat) (U W : Nat → Sector) : Prop :=
  Released U W ∨ ∃ V ws, WriteSet T ws ∧ Logged V ws W ∧ U = applied V ws

/-- Whatever survives on the medium is destined for `U`. -/
def Bound (T : Nat) (U : Nat → Sector) (d : Disk) : Prop :=
  ∀ W, d.medium.Survives W → Destined T U W

section Recovering

variable {n T : Nat} {h : n < 2 ^ 64} {U W : Nat → Sector} {plan : Nat → Bool}

theorem Fits.small (hf : Fits n T) : T < 2 ^ 64 := by
  have h1 := hf.pages
  have h2 := hf.disk
  simp only [pageSectors] at h1
  omega

/-- Recovery, cut off or not, does not change where the medium leads. -/
theorem recover_destined (hf : Fits n T) (hW : Destined T U W) {r : Except StoreError Bool}
    {d : Disk} (hrun : recover (attach n h W plan) = (r, d)) :
    d.sectors = n ∧ d.plan = plan ∧ Bound T U d ∧
      ∀ b, r = .ok b → ∃ W', d.medium.Settled W' ∧ Released U W' := by
  rcases hW with hW | ⟨V, ws, hws, hW, rfl⟩
  · rcases (calls_recover_released (π := plan) (P := fun m => m.Settled W)
      (E := fun m => m.Settled W) hf (fun _ hm => hm.view) (fun _ hm => hm) hW.state).run
      (d := attach n h W plan) rfl rfl (settled_attach n h W _) with
      ⟨b, d₁, he, hat⟩ | ⟨e, d₁, he, hst⟩
    · rw [hrun] at he
      cases he
      refine ⟨hat.sectors, hat.plan, fun W' hs => ?_, fun _ _ => ⟨W, hat.medium.2, hW⟩⟩
      rw [hat.medium.2.survives hs]
      exact Or.inl hW
    · rw [hrun] at he
      cases he
      refine ⟨hst.sectors, hst.plan, fun W' hs => ?_, fun _ hr => by cases hr⟩
      rw [hst.medium.survives hs]
      exact Or.inl hW
  · rcases (calls_recover_logged (π := plan) hf (Fits.small hf) hws hW).run
      (d := attach n h W plan) rfl rfl (settled_attach n h W _) with
      ⟨b, d₁, he, hat⟩ | ⟨e, d₁, he, hst⟩
    · rw [hrun] at he
      cases he
      obtain ⟨-, W₁, hset, hrel⟩ := hat.medium
      refine ⟨hat.sectors, hat.plan, fun W' hs => ?_, fun _ _ => ⟨W₁, hset, hrel⟩⟩
      rw [hset.survives hs]
      exact Or.inl hrel
    · rw [hrun] at he
      cases he
      refine ⟨hst.sectors, hst.plan, fun W' hs => ?_, fun _ hr => by cases hr⟩
      exact (hst.medium W' hs).elim (fun hl => Or.inr ⟨V, ws, hws, hl, rfl⟩) Or.inl

/-- Reading the superblock leaves the medium alone. -/
theorem readSuperblock_dev (d : Disk) : ∃ k, (readSuperblock d).2 = d.later k := by
  obtain ⟨k, hdev, -⟩ := readPage_run d 0 zeroedPage
  refine ⟨k, ?_⟩
  unfold readSuperblock
  rcases hr : Journal.readPage 0 zeroedPage d with ⟨e | x, d'⟩ <;> rw [hr] at hdev <;>
    simp only at hdev <;> subst hdev
  · rw [Fallible.run_bind_error hr]
  · rw [Fallible.run_bind_ok hr]
    cases Superblock.decode x <;> rfl

/-- A rollback leaves the medium alone. -/
theorem rollback_dev (pg : Pager Disk) : ∃ k, (rollback pg).2.dev = pg.dev.later k := by
  obtain ⟨k, hk⟩ := readSuperblock_dev pg.dev
  refine ⟨k, ?_⟩
  unfold rollback onDev
  rcases hr : readSuperblock pg.dev with ⟨e | sb, d⟩ <;> rw [hr] at hk <;> exact hk

/-- A handle that was mounted on a medium with the home pages of `U`. -/
structure Mounted (n : Nat) (U : Nat → Sector) (pg : Pager Disk) : Prop where
  sectors : pg.dev.sectors = n
  quiet : pg.dev.Quiet
  pages : ∃ W, pg.dev.medium.Settled W ∧ Released U W
  super : Superblock.decode (image U 0) = .ok pg.sb
  fresh : pg.dirty = ∅ ∧ pg.cache = ∅

/-- A mount does not change where the medium leads, and when it completes it is
there. -/
theorem open_destined (hf : Fits n T) (hW : Destined T U W)
    {r : Except StoreError (Pager Disk)} {d : Disk}
    (hrun : openStore (attach n h W plan) = (r, d)) :
    Bound T U d ∧ ∀ pg, r = .ok pg → (∀ i, plan i = false) → Mounted n U pg := by
  have hmount : (mount (attach n h W plan)).2 = d ∧
      ∀ pg, r = .ok pg → mount (attach n h W plan) = (.ok pg, d) := by
    unfold openStore at hrun
    rcases hm : mount (attach n h W plan) with ⟨e | pg, d'⟩ <;> rw [hm] at hrun
    · cases e <;> cases hrun <;> exact ⟨rfl, fun _ hr => by cases hr⟩
    · cases hrun
      exact ⟨rfl, fun _ hr => by cases hr; rfl⟩
  rcases hrec : recover (attach n h W plan) with ⟨e | b, d₁⟩
  · obtain ⟨-, -, hbound, -⟩ := recover_destined hf hW hrec
    have herr : mount (attach n h W plan) = (.error e, d₁) := by
      unfold mount
      exact Fallible.run_bind_error hrec
    rw [herr] at hmount
    obtain ⟨hd, hpg⟩ := hmount
    simp only at hd
    subst hd
    exact ⟨hbound, fun pg hr _ => by cases hpg pg hr⟩
  · obtain ⟨hn, hplan, hbound, hok⟩ := recover_destined hf hW hrec
    obtain ⟨W', hset, hrel⟩ := hok b rfl
    have hrest : mount (attach n h W plan) = (do
        let sb ← readSuperblock
        Fallible.gets fun dev => (⟨dev, sb, ∅, ∅⟩ : Pager Disk)) d₁ := by
      unfold mount
      exact Fallible.run_bind_ok hrec
    have hzero : 0 * pageSectors + pageSectors ≤ d₁.sectors := by
      rw [hn]
      exact hf.page (by
        have hj := hf.journal
        have hpos : 0 < firstDataPage := by decide
        omega)
    obtain ⟨k, hdev, hres⟩ := readPage_run d₁ 0 zeroedPage
    rw [readAll_eq d₁.sectors_lt hzero] at hres
    obtain ⟨j, hsbdev⟩ := readSuperblock_dev d₁
    rcases hsb : readSuperblock d₁ with ⟨e | sb, d₂⟩ <;> rw [hsb] at hsbdev <;>
      simp only at hsbdev <;> subst hsbdev
    · rw [hrest, Fallible.run_bind_error hsb] at hmount
      obtain ⟨hd, hpg⟩ := hmount
      simp only at hd
      subst hd
      exact ⟨hbound, fun pg hr _ => by cases hpg pg hr⟩
    · rw [hrest, Fallible.run_bind_ok hsb, Fallible.run_gets] at hmount
      obtain ⟨hd, hpg⟩ := hmount
      simp only at hd
      subst hd
      refine ⟨hbound, fun pg hr hquiet => ?_⟩
      cases hpg pg hr
      refine ⟨hn, fun i => ?_, ⟨W', hset, hrel⟩, ?_, rfl, rfl⟩
      · show d₁.plan i = false
        rw [hplan]
        exact hquiet i
      · have hview : image d₁.view 0 = image U 0 := by
          rw [Disk.view, hset.view, hrel.image_eq (Or.inl rfl)]
        unfold readSuperblock at hsb
        rcases hp : Journal.readPage 0 zeroedPage d₁ with ⟨e | x, d'⟩ <;> rw [hp] at hres
        · rw [Fallible.run_bind_error hp] at hsb
          cases hsb
        · rw [Fallible.run_bind_ok hp] at hsb
          rcases hres with hres | ⟨hres, -⟩
          · cases hres
            rw [hview] at hsb
            cases hdec : Superblock.decode (image U 0) with
            | error e =>
                rw [hdec] at hsb
                cases hsb
            | ok sb' =>
                rw [hdec] at hsb
                cases hsb
                rfl
          · cases hres

theorem restarts_mounted (hf : Fits n T) {pg : Pager Disk} (hr : Restarts n h W pg)
    (hW : Destined T U W) : Mounted n U pg := by
  induction hr with
  | again hrun hs _ ih => exact ih ((open_destined hf hW hrun).1 _ hs)
  | mounted hrun => exact (open_destined hf hW hrun).2 _ rfl fun _ => rfl

/-- On a device that works a mount completes. -/
theorem exists_restart (hf : Fits n T) (hW : Destined T U W) {sb : Superblock}
    (hsb : Superblock.decode (image U 0) = .ok sb) : ∃ pg, Restarts n h W pg := by
  obtain ⟨b, d, hrec⟩ : ∃ b d, recover (attach n h W noFaults) = (.ok b, d) := by
    rcases hW with hW | ⟨V, ws, hws, hW, -⟩
    · obtain ⟨b, d, he, -⟩ := (calls_recover_released (π := noFaults)
        (P := fun m => m.Settled W) (E := fun m => m.Settled W) hf (fun _ hm => hm.view)
        (fun _ hm => hm) hW.state).run_quiet (d := attach n h W noFaults) rfl rfl
        (fun _ => rfl) (settled_attach n h W _)
      exact ⟨b, d, he⟩
    · obtain ⟨b, d, he, -⟩ := (calls_recover_logged (π := noFaults) hf (Fits.small hf) hws
        hW).run_quiet (d := attach n h W noFaults) rfl rfl (fun _ => rfl)
        (settled_attach n h W _)
      exact ⟨b, d, he⟩
  obtain ⟨hn, hplan, -, hok⟩ := recover_destined hf hW hrec
  obtain ⟨W', hset, hrel⟩ := hok b rfl
  have hdec : Superblock.decode (image d.view 0) = .ok sb := by
    rw [Disk.view, hset.view, hrel.image_eq (Or.inl rfl)]
    exact hsb
  have hf' : Fits d.sectors T := hn.symm ▸ hf
  have hquiet : d.Quiet := fun i => by rw [hplan]; rfl
  obtain ⟨k, hread | ⟨-, hfault⟩⟩ := readSuperblock_run hf' hdec
  · refine ⟨⟨d.later k, sb, ∅, ∅⟩, .mounted (d := d.later k) ?_⟩
    have hmount : mount (attach n h W noFaults) =
        (.ok (⟨d.later k, sb, ∅, ∅⟩ : Pager Disk), d.later k) := by
      unfold mount
      rw [Fallible.run_bind_ok hrec, Fallible.run_bind_ok hread, Fallible.run_gets]
    unfold openStore
    rw [hmount]
  · exact absurd hfault (hquiet.not_faultIn k)

end Recovering

/-! ## A transaction that meets faults -/

section Faults

variable {α : Type} {pg pg' : Pager Disk} {body : PageProg α} {s : Staged Superblock Page}

/-- A body that fails leaves the medium alone, whatever the device does. -/
theorem tx_fails (h : pg.Clean) (hb : KeepsSize pg.sb.totalPages (fun _ => True) body)
    {e : StoreError} (hatt : pg.attempt body = (.err e, s)) {o : Outcome StoreError α}
    (hrun : tx body pg = (o, pg')) : (∃ e', o = .err e') ∧ ∃ k, pg'.dev = pg.dev.later k := by
  obtain ⟨o', k, sb, dirty, cache, hprog, -, -, hres⟩ := runProg_sim _ hb h.coherent
  have hback : ∃ e', o' = .err e' := by
    unfold Pager.attempt at hatt
    rw [h.staged, hatt] at hres
    rcases hres with hres | ⟨hio, -⟩ | hpanic
    · injection hres with hres
      exact ⟨e, hres⟩
    · exact ⟨_, hio⟩
    · cases hpanic
  obtain ⟨e', rfl⟩ := hback
  unfold tx at hrun
  rw [hprog] at hrun
  cases hrun
  obtain ⟨j, hj⟩ := rollback_dev ⟨pg.dev.later k, sb, dirty, cache⟩
  exact ⟨⟨e', rfl⟩, k + j, by rw [hj, Disk.later_later]⟩

/-- The pages a transaction is to commit. -/
def toCommit (s : Staged Superblock Page) : List (Nat × Page) :=
  batch { s.ctl with generation := (s.ctl.generation + 1) % 2 ^ 64 } s.dirty

/-- A body that succeeds: the transaction does nothing to the medium and fails, or
what survives on the medium, now or after the rollback, is before the commit or
after it. -/
theorem tx_lands (h : pg.Clean) (hb : KeepsSize pg.sb.totalPages (fun _ => True) body) {a : α}
    (hatt : pg.attempt body = (.ok a, s))
    (hs : s.dirty.size < jcap → Committable pg.sb.totalPages s) {o : Outcome StoreError α}
    (hrun : tx body pg = (o, pg')) :
    ((∃ e, o = .err e) ∧ ∃ k, pg'.dev = pg.dev.later k) ∨
      s.dirty.size < jcap ∧ WriteSet pg.sb.totalPages (toCommit s) ∧
        (o = .ok a ∧ Bound pg.sb.totalPages (applied pg.dev.view (toCommit s)) pg'.dev ∨
          (∃ e, o = .err e) ∧ ∀ W, pg'.dev.medium.Survives W →
            Destined pg.sb.totalPages pg.dev.view W ∨
              Destined pg.sb.totalPages (applied pg.dev.view (toCommit s)) W) := by
  obtain ⟨o', k, sb, dirty, cache, hprog, hc, -, hres⟩ := runProg_sim _ hb h.coherent
  unfold Pager.attempt at hatt
  rw [h.staged, hatt] at hres
  unfold tx at hrun
  rw [hprog] at hrun
  rcases hres with hres | ⟨rfl, -⟩ | hpanic
  · injection hres with ho hst
    subst ho hst
    simp only at hrun
    by_cases hcount : dirty.size < jcap
    · have hcommit := hs hcount
      have hne : dirty.isEmpty = false := hcommit.nonempty
      have hws : WriteSet pg.sb.totalPages (toCommit ⟨sb, dirty⟩) :=
        writeSet_batch _ hcommit hc.dirty h.fits.journal
      refine Or.inr ⟨hcount, hws, ?_⟩
      have hcalls := (calls_commit (π := pg.dev.plan) (V := pg.dev.view) h.fits hws
        (Nat.mod_lt (sb.generation + 1) (by decide : 0 < 2 ^ 64))).run
        (d := pg.dev.later k) rfl rfl h.idle
      simp only [Pager.commit, hne, Bool.false_eq_true, if_false, onDev] at hrun
      rcases hcalls with ⟨u, d₁, he, hat⟩ | ⟨e, d₁, he, hst⟩
      · rw [toCommit] at he
        simp only [he] at hrun
        cases hrun
        obtain ⟨W, hset, hrel⟩ := hat.medium
        refine Or.inl ⟨rfl, fun W' hW' => Or.inl ?_⟩
        rw [hset.survives hW']
        exact hrel
      · rw [toCommit] at he
        simp only [he] at hrun
        injection hrun with ho hpg
        obtain ⟨j, hj⟩ := rollback_dev ⟨d₁, sb, dirty, cache⟩
        rw [hpg] at hj
        refine Or.inr ⟨⟨e, ho.symm⟩, fun W hW => ?_⟩
        rw [hj] at hW
        rcases hst.medium W hW with hrel | hlog | hrel
        · exact Or.inl (Or.inl hrel)
        · exact Or.inr (Or.inr ⟨pg.dev.view, toCommit ⟨sb, dirty⟩, hws, hlog, rfl⟩)
        · exact Or.inr (Or.inl hrel)
    · left
      have hne : dirty.isEmpty = false := by
        rw [Std.TreeMap.isEmpty_eq_size_eq_zero]
        have hj : jcap ≠ 0 := by decide
        simp only [beq_eq_false_iff_ne, ne_eq]
        omega
      have hthrow : Journal.commit ((sb.generation + 1) % 2 ^ 64)
          (batch { sb with generation := (sb.generation + 1) % 2 ^ 64 } dirty)
          (pg.dev.later k) = (.error .outOfSpace, pg.dev.later k) := by
        unfold Journal.commit
        rw [if_pos (by rw [length_batch]; omega)]
        rfl
      simp only [Pager.commit, hne, Bool.false_eq_true, if_false, onDev, hthrow] at hrun
      injection hrun with ho hpg
      obtain ⟨j, hj⟩ := rollback_dev ⟨pg.dev.later k, sb, dirty, cache⟩
      rw [hpg] at hj
      exact ⟨⟨_, ho.symm⟩, k + j, by rw [hj, Disk.later_later]⟩
  · left
    injection hrun with ho hpg
    obtain ⟨j, hj⟩ := rollback_dev ⟨pg.dev.later k, sb, dirty, cache⟩
    rw [hpg] at hj
    exact ⟨⟨_, ho.symm⟩, k + j, by rw [hj, Disk.later_later]⟩
  · cases hpanic

/-- A clean handle, whatever its device is going to do. -/
theorem clean_bound {k : Nat} (h : pg.Clean) (hdev : pg'.dev = pg.dev.later k) :
    Bound pg.sb.totalPages pg.dev.view pg'.dev := by
  intro W hW
  rw [hdev] at hW
  exact Or.inl (Released.of_within (h.idle.survives hW))

theorem clean_withPlan (h : pg.Clean) (plan : Nat → Bool) : (withPlan pg plan).Clean :=
  ⟨h.staged, ⟨rfl, h.coherent.dirty, h.coherent.cache⟩, h.fits, h.super, h.idle⟩

end Faults

/-! ## The tables after a restart -/

/-- Mounting the medium, whatever the mounts meet, gives a handle on the tables `L`,
and some mount completes. -/
structure Recovers (n : Nat) (h : n < 2 ^ 64) (L : List Stored) (W : Nat → Sector) : Prop where
  completes : ∃ pg, Restarts n h W pg
  stores : ∀ pg, Restarts n h W pg → Stores pg L

section Tables

variable {n T : Nat} {U W : Nat → Sector} {pg pg' : Pager Disk} {sb : Superblock}
  {L L' : List Stored}

/-- A mounted handle is clean, and its data pages are those of `U`. -/
theorem Mounted.clean (hf : Fits n T) (hm : Mounted n U pg)
    (hsb : Superblock.decode (image U 0) = .ok sb) (hT : sb.totalPages = T) :
    pg.Clean ∧ pg.sb = sb ∧ Released U pg.dev.view := by
  obtain ⟨W, hset, hrel⟩ := hm.pages
  have hview : pg.dev.view = W := hset.view
  have hpg : pg.sb = sb := by
    have hsuper := hm.super
    rw [hsb] at hsuper
    injection hsuper with hsuper
    exact hsuper.symm
  refine ⟨⟨hm.fresh.1, ⟨rfl, fun p hp => ?_, fun p x hx => ?_⟩, ?_, ?_, ?_⟩, hpg, ?_⟩
  · rw [hm.fresh.1] at hp
    exact absurd hp (not_mem_empty p)
  · rw [hm.fresh.2, Std.TreeMap.getElem?_emptyc] at hx
    cases hx
  · rw [hm.sectors, hpg, hT]
    exact hf
  · rw [hview, hrel.image_eq (Or.inl rfl)]
    exact hm.super
  · rw [hview]
    refine hset.within.mono fun lba x hx => ?_
    subst hx
    exact ⟨fun _ => rfl, fun h8 => h8 ▸ hrel.state⟩
  · rw [hview]
    exact hrel

/-- A medium that leads to the pages of a handle. -/
theorem recovers_old (h : Stores pg L) (hW : Destined pg.sb.totalPages pg.dev.view W) :
    Recovers pg.dev.sectors pg.dev.sectors_lt L W := by
  have hf := h.clean.fits
  refine ⟨exists_restart hf hW h.clean.super, fun pg' hr => ?_⟩
  have hm := restarts_mounted hf hr hW
  obtain ⟨hc, hsb, hrel⟩ := hm.clean hf h.clean.super rfl
  obtain ⟨avail, cat, hread⟩ := h.readable
  refine ⟨hc, hm.quiet, ⟨avail, cat, ⟨?_, ?_, hread.empty, hread.small⟩⟩, h.intact⟩
  · refine hread.holds.transfer ?_ ?_ ?_ ?_ fun p hp => ?_
    · show pg'.sb.totalPages = _
      rw [hsb]
      rfl
    · rw [hsb]
      rfl
    · rw [hsb]
    · rw [hsb]
    · unfold Volume.view
      rw [Std.TreeMap.getElem?_emptyc]
      exact hrel.image_eq (Or.inr hp)
  · rw [hsb]
    exact hread.catalog

/-- A medium that leads to the pages a body left. -/
theorem recovers_new (h : pg.Clean) {s : Staged Superblock Page}
    (hl : Leaves (volumeOf pg h) ⟨pg.sb, ∅⟩ s L') (hcount : s.dirty.size < jcap)
    (hws : WriteSet pg.sb.totalPages (toCommit s)) (hi : (dbOf L').Intact)
    (hW : Destined pg.sb.totalPages (applied pg.dev.view (toCommit s)) W) :
    Recovers pg.dev.sectors pg.dev.sectors_lt L' W := by
  have hcommit := hl.committable rfl hcount
  have hsize : s.ctl.totalPages = pg.sb.totalPages := by
    obtain ⟨ps, avail, cat, -, -, hs⟩ := hl
    exact hs.holds.size
  have hdec : Superblock.decode (image (applied pg.dev.view (toCommit s)) 0) =
      .ok { s.ctl with generation := (s.ctl.generation + 1) % 2 ^ 64 } := by
    have hT := h.pages_lt
    obtain ⟨h1, h2, h3⟩ := hcommit.small
    rw [applied, image_updAll, toCommit, (updAll_batch hws (image pg.dev.view)).1]
    exact Superblock.decode_encode ⟨by simp only; omega, h1, h2, h3, Nat.mod_lt _ (by decide)⟩
  refine ⟨exists_restart h.fits hW hdec, fun pg' hr => ?_⟩
  have hm := restarts_mounted h.fits hr hW
  obtain ⟨hc, hsb, hrel⟩ := hm.clean h.fits hdec hsize
  obtain ⟨-, hdata⟩ := image_committed hws hrel
  exact ⟨hc, hm.quiet, hl.readable h hc hcount hsb hdata, hi⟩

/-- An operation that a restart follows. Its tables are there before it or after it,
as the model has them, and after it if it answered `Ok`. -/
theorem run_cut (h : Stores pg L) (op : Op RowId)
    (hid : op.Uses fun table id => ∀ t ∈ dbOf L, t.schema.name = table → id ∈ t.issued)
    (plan : Nat → Bool) {o : Outcome StoreError (Reply RowId)} {pg₁ : Pager Disk}
    (hrun : run op (withPlan pg plan) = (o, pg₁)) (hW : pg₁.dev.medium.Survives W) :
    ((∃ e, o = .err e) ∧ Recovers pg.dev.sectors pg.dev.sectors_lt L W) ∨
      ∃ a fresh L', (∀ table cells, op = .insert table cells →
          ∀ t ∈ dbOf L, t.schema.name = table → fresh ∉ t.issued) ∧
        (dbOf L).step fresh op = (.ok a, dbOf L') ∧ (o = .ok a ∨ ∃ e, o = .err e) ∧
        Recovers pg.dev.sectors pg.dev.sectors_lt L' W := by
  obtain ⟨avail, cat, hr⟩ := h.readable
  have hsteady := steady_method (T := pg.sb.totalPages) op
  have hclean := clean_withPlan h.clean plan
  have hask : ∀ o, (method op).eval ((Staged.mk pg.sb ∅).read (volumeOf pg h.clean).base)
      pg.sb = o → (withPlan pg plan).ask (method op) = o := fun o ho => ask_of_eval h.clean ho
  -- what leaves the medium alone leads to the tables before it
  have hsame : ∀ {k : Nat}, pg₁.dev = (withPlan pg plan).dev.later k →
      Recovers pg.dev.sectors pg.dev.sectors_lt L W := fun hdev =>
    recovers_old h (clean_bound hclean hdev W hW)
  obtain ⟨o', k, cache, hprog, hclean', hsize, hres⟩ := questions_run hclean hsteady
  change call (method op) (withPlan pg plan) = _ at hrun
  unfold call at hrun
  rw [hprog] at hrun
  have hquestions : ∀ c, (withPlan pg plan).ask (method op) = .ok c →
      o' = .ok c ∨ (∃ e, o = .err e) ∧ Recovers pg.dev.sectors pg.dev.sectors_lt L W := by
    intro c hc
    rw [hc] at hres
    rcases hres with rfl | ⟨rfl, -⟩ | hpanic
    · exact Or.inl rfl
    · cases hrun
      exact Or.inr ⟨⟨_, rfl⟩, hsame rfl⟩
    · cases hpanic
  rcases method_settles hr h.intact op hid with
    ⟨e, hq, hstep⟩ | ⟨a, hq, fresh, hstep⟩ | ⟨body, hw, hq, hbody⟩
  · have herr : ∃ e', o' = .err e' := by
      rw [hask _ hq] at hres
      rcases hres with hres | ⟨hres, -⟩ | hpanic
      · exact ⟨e, hres⟩
      · exact ⟨_, hres⟩
      · cases hpanic
    obtain ⟨e', rfl⟩ := herr
    cases hrun
    exact Or.inl ⟨⟨e', rfl⟩, hsame rfl⟩
  · rcases hquestions _ (hask _ hq) with rfl | hold
    · cases hrun
      refine Or.inr ⟨a, fresh, L, ?_, hstep, Or.inl rfl, hsame rfl⟩
      exact insert_fresh h.intact.names (fun t ht =>
        issued_nodup hr.holds (Readable.index_mem ht)) hstep
    · exact Or.inl hold
  · rcases hquestions _ (hask _ hq) with rfl | hold
    swap
    · exact Or.inl hold
    have hbody₁ := hsize body rfl
    have htx : tx body ⟨(withPlan pg plan).dev.later k, (withPlan pg plan).sb, ∅, cache⟩ =
        (o, pg₁) := hrun
    rcases hbody with ⟨e, he, -⟩ | ⟨-, ⟨s, hb⟩ | ⟨a, s, hb, L', hl, fresh, hstep⟩⟩
    · obtain ⟨herr, j, hj⟩ := tx_fails hclean' hbody₁ he htx
      exact Or.inl ⟨herr, hsame (hj.trans (Disk.later_later _ _ _))⟩
    · obtain ⟨herr, j, hj⟩ := tx_fails hclean' hbody₁ hb htx
      exact Or.inl ⟨herr, hsame (hj.trans (Disk.later_later _ _ _))⟩
    · have hfresh := insert_fresh h.intact.names hl.issued_nodup hstep
      have hi : (dbOf L').Intact := by
        have hnext := Database.step_intact h.intact op hfresh
        rw [hstep] at hnext
        exact hnext
      rcases tx_lands hclean' hbody₁ hb (fun hcount => hl.committable rfl hcount) htx with
        ⟨herr, j, hj⟩ | ⟨hcount, hws, ⟨ho, hbound⟩ | ⟨herr, hall⟩⟩
      · exact Or.inl ⟨herr, hsame (hj.trans (Disk.later_later _ _ _))⟩
      · exact Or.inr ⟨a, fresh, L', hfresh, hstep, Or.inl ho,
          recovers_new h.clean hl hcount hws hi (hbound W hW)⟩
      · rcases hall W hW with hold | hnew
        · exact Or.inl ⟨herr, recovers_old h hold⟩
        · exact Or.inr ⟨a, fresh, L', hfresh, hstep, Or.inr herr,
            recovers_new h.clean hl hcount hws hi hnew⟩

end Tables

/-! ## Lives -/

theorem mem_after_mono {led led' : Ledger RowId} (h : ∀ x ∈ led, x ∈ led') (e : StoreEvent RowId)
    (o : Outcome StoreError (Reply RowId)) : ∀ x ∈ led.after e o, x ∈ led'.after e o := by
  intro x hx
  cases o with
  | ok a =>
      simp only [Ledger.after] at hx ⊢
      unfold Ledger.note at hx ⊢
      split at hx
      · simp only [List.mem_append] at hx ⊢
        exact hx.imp_left (h x)
      · simp only [List.mem_filter] at hx ⊢
        exact hx.imp_left (h x)
      · exact h x hx
  | err e => exact h x hx
  | panic => exact h x hx
  | diverge => exact h x hx

/-- The handle stores the tables of `db`, and the ids its caller knows are ids of it. -/
structure Shows (led : Ledger RowId) (pg : Pager Disk) (db : Database RowId) : Prop where
  stores : ∃ L, Stores pg L ∧ dbOf L = db
  ledger : ∀ x ∈ led, x ∈ db.ids

namespace Shows

variable {led : Ledger RowId} {pg : Pager Disk} {db : Database RowId}

theorem mirrored (h : Shows led pg db) : Mirrored db.ids pg db := ⟨h.stores, fun _ => Iff.rfl⟩

theorem covers (h : Shows led pg db) {e : StoreEvent RowId} (he : led.Covers e) :
    db.ids.Covers e := by
  cases e with
  | call op => exact Op.Uses.mono he fun _ _ hid => h.ledger _ hid
  | remount => trivial

theorem uses (h : Shows led pg db) {op : Op RowId} (he : led.Covers (.call op)) :
    op.Uses fun table id => ∀ t ∈ db, t.schema.name = table → id ∈ t.issued :=
  h.mirrored.uses (h.covers he)

theorem event (h : Shows led pg db) (e : StoreEvent RowId) (he : led.Covers e) :
    ∃ fresh, db.New e fresh ∧ (happen e pg).1 = Outcome.ofExcept (db.happen fresh e).1 ∧
      Shows (led.after e (happen e pg).1) (happen e pg).2 (db.happen fresh e).2 := by
  obtain ⟨fresh, hnew, ho, hnext, -⟩ := happen_mirrored h.mirrored e (h.covers he)
  refine ⟨fresh, hnew, ho, hnext.stores, fun x hx => ?_⟩
  exact (hnext.ledger x).mp (mem_after_mono h.ledger e _ x hx)

end Shows

/-- The ids that are listed are ids of the tables. -/
theorem shows_listed {pg : Pager Disk} {L : List Stored} (h : Stores pg L) :
    Shows (listed pg) pg (dbOf L) := by
  have hm : Mirrored (dbOf L).ids pg (dbOf L) := ⟨⟨L, h, rfl⟩, fun _ => Iff.rfl⟩
  refine ⟨⟨L, h, rfl⟩, fun x hx => ?_⟩
  have htables : (run .listTables pg).1 = .ok (.tables (dbOf L).listTables) :=
    hm.reads rfl (show (dbOf L).ids.Covers (.call .listTables) from trivial) ⟨0, 0⟩
  unfold listed at hx
  rw [htables] at hx
  obtain ⟨info, hinfo, hx⟩ := List.mem_flatMap.mp hx
  obtain ⟨t, ht, rfl⟩ := List.mem_map.mp hinfo
  have hscan : (run (.scan t.schema.name) pg).1 = .ok (.rows t.rows) := by
    rw [hm.reads rfl (show (dbOf L).ids.Covers (.call (.scan t.schema.name)) from trivial) ⟨0, 0⟩]
    simp only [Database.step, Database.lookup_of_mem h.intact.names ht]
    rfl
  simp only [hscan, List.mem_map] at hx
  obtain ⟨r, hr, rfl⟩ := hx
  refine Database.mem_ids.mpr ⟨t, ht, rfl, ?_⟩
  exact (h.intact.tables t ht).fitted.rows.subset (List.mem_map_of_mem hr)

/-- One chapter after the other: the model tells it, and the handle shows what the
model has. -/
theorem lives_tells {led led' : Ledger RowId} {pg pg' : Pager Disk} {cs : List (Chapter RowId)}
    (hl : Lives led pg cs led' pg') :
    ∀ {db : Database RowId}, Shows led pg db → ∃ db', Database.Tells db cs db' ∧
      Shows led' pg' db' := by
  induction hl with
  | here led pg => exact fun {db} h => ⟨db, .here db, h⟩
  | event e he _ ih =>
      intro db h
      obtain ⟨fresh, hnew, ho, hnext⟩ := h.event e he
      obtain ⟨db', htells, hlast⟩ := ih hnext
      exact ⟨db', .event hnew ho htells, hlast⟩
  | cut op plan he hrun hs hr _ ih =>
      intro db h
      have huses := h.uses he
      obtain ⟨L, hL, rfl⟩ := h.stores
      rcases run_cut hL op huses plan hrun hs with
        ⟨⟨e, rfl⟩, hrec⟩ | ⟨a, fresh, L', hfresh, hstep, ho, hrec⟩
      · obtain ⟨db', htells, hlast⟩ := ih (shows_listed (hrec.stores _ hr))
        exact ⟨db', .undone htells, hlast⟩
      · obtain ⟨db', htells, hlast⟩ := ih (shows_listed (hrec.stores _ hr))
        refine ⟨db', .done ⟨fun hnone => ?_, ?_⟩ hstep ho htells, hlast⟩
        · cases hnone
        · rintro id hid table cells hop t ht hname
          cases hid
          cases hop
          exact hfresh table cells rfl t ht hname

/-- The store survives faults and restarts. Formatted on a device that works, then
used through operations that answer and through operations whose device fails
at any of its calls, each followed by any number of mounts that fail in the same
way: the model tells the same life, in which a failed operation has happened
altogether or not at all and one that answered `Ok` has happened. The tables of
the model satisfy their constraints, the handle answers every question as the
model does, and after a further failure a mount can complete. -/
theorem crashes_refine {d d' : Disk} {pg pg' : Pager Disk} {cs : List (Chapter RowId)}
    {led : Ledger RowId} (hq : d.Quiet) (h : formatStore d = (.ok pg, d'))
    (hl : Lives [] pg cs led pg') :
    ∃ db, Database.Tells [] cs db ∧ db.Consistent ∧
      (∀ op, op.writes = false → led.Covers (.call op) → ∀ fresh,
        (run op pg').1 = Outcome.ofExcept (db.step fresh op).1) ∧
      ∀ op plan W, led.Covers (.call op) →
        (run op (withPlan pg' plan)).2.dev.medium.Survives W →
        ∃ pg₂, Restarts pg'.dev.sectors pg'.dev.sectors_lt W pg₂ := by
  have hm := format_mirrored hq h
  obtain ⟨db, htells, hs⟩ := lives_tells hl ⟨hm.stores, fun x hx => (hm.ledger x).mp hx⟩
  refine ⟨db, htells, hs.mirrored.intact.consistent, fun op hw he fresh => ?_,
    fun op plan W he hW => ?_⟩
  · exact hs.mirrored.reads hw (hs.covers he) fresh
  · have huses := hs.uses he
    obtain ⟨L, hL, rfl⟩ := hs.stores
    rcases run_cut hL op huses plan rfl hW with ⟨-, hrec⟩ | ⟨a, fresh, L', -, -, -, hrec⟩
    · exact hrec.completes
    · exact hrec.completes

/-- On the blank disk: a table is made, the power goes at the tenth device call of
an insert, and the machine starts again. -/
theorem crashes_refine_blank : ∃ pg pg' led o o', formatStore blankDisk = (.ok pg, pg.dev) ∧
    Lives [] pg [.event (.call (.createTable "t")) o, .cut (.insert "t" []) o'] led pg' ∧
    ∃ db, Database.Tells [] [.event (.call (.createTable "t")) o, .cut (.insert "t" []) o'] db ∧
      db.Consistent := by
  obtain ⟨pg, hformat⟩ := blankDisk_format
  have hm := format_mirrored (fun _ => rfl) hformat
  obtain ⟨fresh, -, -, hm₁, -⟩ := happen_mirrored hm (.call (.createTable "t")) trivial
  generalize hpg₁ : (happen (.call (.createTable "t")) pg).2 = pg₁ at hm₁
  obtain ⟨L, hL, -⟩ := hm₁.stores
  rcases hrun : run (.insert "t" []) (withPlan pg₁ (cutAt 10)) with ⟨o', pg₂⟩
  obtain ⟨pg', hr⟩ : ∃ pg', Restarts pg₁.dev.sectors pg₁.dev.sectors_lt pg₂.dev.view pg' := by
    rcases run_cut hL (.insert "t" []) trivial (cutAt 10) hrun (survives_view _) with
      ⟨-, hrec⟩ | ⟨a, fresh, L', -, -, -, hrec⟩
    · exact hrec.completes
    · exact hrec.completes
  have hcut : Lives (Ledger.after [] (.call (.createTable "t"))
      (happen (.call (.createTable "t")) pg).1) pg₁ [.cut (.insert "t" []) o'] (listed pg') pg' :=
    .cut (.insert "t" []) (cutAt 10) trivial hrun (survives_view _) hr (.here _ _)
  rw [← hpg₁] at hcut
  have hl := Lives.event (.call (.createTable "t")) trivial hcut
  obtain ⟨db, htells, hcons, -⟩ := crashes_refine (fun _ => rfl) hformat hl
  exact ⟨pg, pg', _, _, o', hformat, hl, db, htells, hcons⟩

end Store

end TablesOS
