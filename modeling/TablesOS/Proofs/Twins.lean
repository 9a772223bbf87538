import TablesOS.Proofs.Runs

/-!
# Two handles on the same volume

What a device answers does not depend on how often it was called, as long as no
call fails; so two handles that have the same volume under them and the same
superblock in memory do the same, whatever each of them has in its cache. That
holds of a commit as a whole (`Alike.commit`), of an operation that keeps to the
data pages (`call_alike`), and of every history of handed-out row ids
(`history_alike`).
-/

namespace TablesOS

open Prog Codec Journal Medium

namespace Disk

/-- Two disks that work and hold the same, whatever their clocks say. -/
structure Twin (d d' : Disk) : Prop where
  sectors : d'.sectors = d.sectors
  medium : d'.medium = d.medium
  quiet : d.Quiet
  quiet' : d'.Quiet

theorem Twin.view {d d' : Disk} (h : Twin d d') : d'.view = d.view := by
  unfold Disk.view
  rw [h.medium]

theorem twin_later {d : Disk} (hq : d.Quiet) (k : Nat) : Twin d (d.later k) := ⟨rfl, rfl, hq, hq⟩

theorem Twin.later {d d' : Disk} (h : Twin d d') (j k : Nat) : Twin (d.later j) (d'.later k) :=
  ⟨h.sectors, h.medium, h.quiet, h.quiet'⟩

theorem blind_call {α : Type} {inRange : Disk → Bool} {act : Disk → α × Disk}
    (hr : ∀ d d', Twin d d' → inRange d' = inRange d)
    (ha : ∀ d d', Twin d d' → (act d).1 = (act d').1 ∧ Twin (act d).2 (act d').2) :
    Fallible.Blind Twin (call inRange act) := by
  intro d d' h
  simp only [call, h.quiet d.clock, h.quiet' d'.clock, hr d d' h]
  split
  · exact ⟨rfl, h.later 1 1⟩
  · obtain ⟨ho, hR⟩ := ha _ _ (h.later 1 1)
    exact ⟨congrArg Except.ok ho, hR⟩

theorem blind_readSector (lba : Nat) :
    Fallible.Blind Twin (BlockDevice.readSector lba : DevM Disk Sector) :=
  blind_call (fun _ _ h => congrArg (fun n => decide (lba < n)) h.sectors)
    fun _ _ h => ⟨congrFun h.view.symm lba, h⟩

theorem blind_writeSector (lba : Nat) (x : Sector) :
    Fallible.Blind Twin (BlockDevice.writeSector lba x : DevM Disk Unit) :=
  blind_call (fun _ _ h => congrArg (fun n => decide (lba < n)) h.sectors)
    fun _ _ h => ⟨rfl, h.sectors, congrArg (·.write lba x) h.medium, h.quiet, h.quiet'⟩

theorem blind_flush : Fallible.Blind Twin (BlockDevice.flush : DevM Disk Unit) :=
  blind_call (fun _ _ _ => rfl)
    fun _ _ h => ⟨rfl, h.sectors, congrArg Medium.flush h.medium, h.quiet, h.quiet'⟩

end Disk

namespace Journal

open Disk Fallible

theorem blind_writePage (page : Nat) (data : Page) :
    Blind Twin (Journal.writePage page data : DevM Disk Unit) :=
  Blind.forM (fun _ => blind_writeSector _ _) _

theorem blind_readPage (page : Nat) (out : Page) :
    Blind Twin (Journal.readPage page out : DevM Disk Page) :=
  Blind.foldlM (fun _ _ => (blind_readSector _).bind fun _ => Blind.pure _) _ _

theorem blind_writeCtrl (buf : Buf ctrlSize) : Blind Twin (writeCtrl buf : DevM Disk Unit) :=
  Blind.forM (fun _ => blind_writePage _ _) _

/-- A commit goes by what is on the disk. -/
theorem blind_commit (txid : Nat) (dirty : List (Nat × Page)) :
    Blind Twin (Journal.commit txid dirty : DevM Disk Unit) := by
  unfold Journal.commit
  split
  · exact Blind.throw _
  · refine (Blind.forM (fun _ => blind_writePage _ _) _).bind fun _ => ?_
    refine (blind_writeCtrl _).bind fun _ => blind_flush.bind fun _ => ?_
    refine (blind_writeCtrl _).bind fun _ => blind_flush.bind fun _ => ?_
    refine (Blind.forM (fun _ => blind_writePage _ _) _).bind fun _ => blind_flush.bind fun _ => ?_
    exact (blind_writeCtrl _).bind fun _ => blind_flush

end Journal

namespace Pager

/-! ## Two handles that stand at the same place -/

/-- The two handles have the same volume under them and the same superblock in
memory. What they have cached may differ. -/
structure Alike (pg pg' : Pager Disk) : Prop where
  dev : Disk.Twin pg.dev pg'.dev
  sb : pg'.sb = pg.sb

theorem Still.alike {pg pg' : Pager Disk} (h : Still pg pg') (hq : pg.dev.Quiet) :
    Alike pg pg' := by
  obtain ⟨k, hk⟩ := h.dev
  exact ⟨hk ▸ Disk.twin_later hq k, h.sb⟩

namespace Alike

variable {pg pg' : Pager Disk}

theorem load (h : Alike pg pg') : pg'.load = pg.load := by
  funext p
  unfold Pager.load
  rw [h.dev.sectors, h.dev.view]

theorem ask {α : Type} (h : Alike pg pg') (q : PageQuery α) : pg'.ask q = pg.ask q := by
  rw [Pager.ask, Pager.ask, h.load, h.sb]

theorem attempt {α : Type} (h : Alike pg pg') (body : PageProg α) :
    pg'.attempt body = pg.attempt body := by
  rw [Pager.attempt, Pager.attempt, h.load, h.sb]

theorem rollback (h : Alike pg pg') : Alike (Pager.rollback pg).2 (Pager.rollback pg').2 := by
  have hread : Fallible.Blind Disk.Twin (readSuperblock : DevM Disk Superblock) := by
    refine (blind_readPage 0 _).bind fun p => ?_
    split
    · exact Fallible.Blind.pure _
    · exact Fallible.Blind.throw _
  obtain ⟨ho, hdev⟩ := hread _ _ h.dev
  simp only [Pager.rollback, onDev]
  rcases hr : readSuperblock pg.dev with ⟨e | sb, d⟩ <;>
    rcases hr' : readSuperblock pg'.dev with ⟨e' | sb', d'⟩ <;> rw [hr, hr'] at ho hdev <;>
    cases ho
  · exact ⟨hdev, h.sb⟩
  · exact ⟨hdev, rfl⟩

/-- They commit alike what they have staged. -/
theorem commit (h : Alike pg pg') (hd : pg'.dirty = pg.dirty) :
    (Pager.commit pg).1 = (Pager.commit pg').1 ∧
      Alike (Pager.commit pg).2 (Pager.commit pg').2 := by
  simp only [Pager.commit, onDev, hd, h.sb]
  split
  · exact ⟨rfl, h⟩
  · obtain ⟨ho, hdev⟩ := blind_commit ((pg.sb.generation + 1) % 2 ^ 64)
      (batch { pg.sb with generation := (pg.sb.generation + 1) % 2 ^ 64 } pg.dirty) _ _ h.dev
    rcases hr : Journal.commit _ _ pg.dev with ⟨e | u, d⟩ <;>
      rcases hr' : Journal.commit _ _ pg'.dev with ⟨e' | u', d'⟩ <;> rw [hr, hr'] at ho hdev <;>
      cases ho
    · exact ⟨rfl, hdev, rfl⟩
    · exact ⟨rfl, hdev, rfl⟩

end Alike

end Pager

namespace Store

open Pager

variable {α : Type} {pg pg' : Pager Disk}

theorem tx_alike {body : PageProg α} (h : pg.Clean) (h' : pg'.Clean) (ha : Alike pg pg')
    (hb : KeepsSize pg.sb.totalPages (fun _ => True) body) (hne : (pg.attempt body).1 ≠ .panic) :
    (tx body pg).1 = (tx body pg').1 ∧ Alike (tx body pg).2 (tx body pg').2 := by
  have hatt := ha.attempt body
  have hne' : (pg'.attempt body).1 ≠ .panic := by
    rw [hatt]
    exact hne
  have hb' : KeepsSize pg'.sb.totalPages (fun _ => True) body := by
    rw [ha.sb]
    exact hb
  obtain ⟨o, k, sb, dirty, cache, hrun, -, -, hres⟩ := runProg_sim body hb h.coherent
  obtain ⟨o', k', sb', dirty', cache', hrun', -, -, hres'⟩ := runProg_sim body hb' h'.coherent
  rw [h.staged] at hres
  rw [h'.staged] at hres'
  replace hres := hres.resolve_right fun hf =>
    hf.elim (fun hf => ha.dev.quiet.not_faultIn k hf.2) hne
  replace hres' := hres'.resolve_right fun hf =>
    hf.elim (fun hf => ha.dev.quiet'.not_faultIn k' hf.2) hne'
  have hsame : (o, Staged.mk sb dirty) = (o', ⟨sb', dirty'⟩) :=
    hres.trans (hatt.symm.trans hres'.symm)
  injection hsame with ho hs
  injection hs with hsb hdirty
  subst ho hsb hdirty
  have hmid : Alike ⟨pg.dev.later k, sb, dirty, cache⟩ ⟨pg'.dev.later k', sb, dirty, cache'⟩ :=
    ⟨ha.dev.later k k', rfl⟩
  unfold tx
  rw [hrun, hrun']
  cases o with
  | ok r =>
      obtain ⟨ho, hend⟩ := hmid.commit rfl
      simp only []
      rcases hc : Pager.commit ⟨pg.dev.later k, sb, dirty, cache⟩ with ⟨e | u, pg₁⟩ <;>
        rcases hc' : Pager.commit ⟨pg'.dev.later k', sb, dirty, cache'⟩ with ⟨e' | u', pg₁'⟩ <;>
        rw [hc, hc'] at ho hend <;> cases ho
      · exact ⟨rfl, hend.rollback⟩
      · exact ⟨rfl, hend⟩
  | err e => exact ⟨rfl, hmid.rollback⟩
  | panic => exact ⟨rfl, hmid⟩
  | diverge => exact ⟨rfl, hmid⟩

/-- An operation that reads no page below the data pages goes by what is on the
volume, and leaves the two handles alike. -/
theorem call_alike {m : PageQuery (Call α)} (h : pg.Clean) (h' : pg'.Clean) (ha : Alike pg pg')
    (hm : Steady pg.sb.totalPages m) (hne : pg.ask m ≠ .panic)
    (hbody : ∀ body, pg.ask m = .ok (.tx body) → (pg.attempt body).1 ≠ .panic) :
    (call m pg).1 = (call m pg').1 ∧ Alike (call m pg).2 (call m pg').2 := by
  have hm' : Steady pg'.sb.totalPages m := by
    rw [ha.sb]
    exact hm
  obtain ⟨o, k, cache, hrun, hc, hsize, hres⟩ := questions_run h hm
  obtain ⟨o', k', cache', hrun', hc', -, hres'⟩ := questions_run h' hm'
  replace hres := hres.resolve_right fun hf =>
    hf.elim (fun hf => ha.dev.quiet.not_faultIn k hf.2) hne
  replace hres' := hres'.resolve_right fun hf =>
    hf.elim (fun hf => ha.dev.quiet'.not_faultIn k' hf.2) (ha.ask m ▸ hne)
  rw [ha.ask, ← hres] at hres'
  subst hres'
  have hmid : Alike ⟨pg.dev.later k, pg.sb, ∅, cache⟩ ⟨pg'.dev.later k', pg'.sb, ∅, cache'⟩ :=
    ⟨ha.dev.later k k', ha.sb⟩
  unfold call
  rw [hrun, hrun']
  cases o' with
  | ok c =>
      cases c with
      | ret a => exact ⟨rfl, hmid⟩
      | tx body => exact tx_alike hc hc' hmid (hsize body rfl) (hbody body hres.symm)
  | err e => exact ⟨rfl, hmid⟩
  | panic => exact ⟨rfl, hmid⟩
  | diverge => exact ⟨rfl, hmid⟩

/-! ## Handles that store the same tables -/

/-- With row ids that were handed out, no operation reads below the data pages,
and none stages a page there. -/
theorem Mirrored.keepsToData {led : Ledger RowId} {db : Database RowId} (h : Mirrored led pg db)
    {op : Op RowId} (he : led.Covers (.call op)) : pg.ask (method op) ≠ .panic ∧
      ∀ body, pg.ask (method op) = .ok (.tx body) → (pg.attempt body).1 ≠ .panic ∧
        ∀ a s, pg.attempt body = (.ok a, s) → ∀ p ∈ s.dirty, firstDataPage ≤ p := by
  have huses := h.uses he
  obtain ⟨L, hL, rfl⟩ := h.stores
  obtain ⟨avail, cat, hr⟩ := hL.readable
  have hask : ∀ o, (method op).eval ((Staged.mk pg.sb ∅).read (volumeOf pg hL.clean).base)
      pg.sb = o → pg.ask (method op) = o := fun o ho => ask_of_eval hL.clean ho
  rcases method_settles hr hL.intact op huses with
    ⟨e, hq, -⟩ | ⟨a, hq, -⟩ | ⟨body, -, hq, hbody⟩
  · rw [hask _ hq]
    refine ⟨fun hp => ?_, fun body hb => ?_⟩
    · cases hp
    · cases hb
  · rw [hask _ hq]
    refine ⟨fun hp => ?_, fun body hb => ?_⟩
    · cases hp
    · cases hb
  · rw [hask _ hq]
    refine ⟨fun hp => ?_, fun body' hb => ?_⟩
    · cases hp
    cases hb
    have hatt : ∀ o s, body.eval (volumeOf pg hL.clean).base ⟨pg.sb, ∅⟩ = (o, s) →
        pg.attempt body = (o, s) := fun o s hb => hb
    rcases hbody with ⟨e, he, -⟩ | ⟨-, ⟨s, hs⟩ | ⟨a, s, hs, L', hl, -⟩⟩
    · rw [hatt _ _ he]
      refine ⟨fun hp => ?_, fun a s hok => ?_⟩
      · cases hp
      · cases hok
    · rw [hatt _ _ hs]
      refine ⟨fun hp => ?_, fun a s hok => ?_⟩
      · cases hp
      · cases hok
    · rw [hatt _ _ hs]
      obtain ⟨ps, avail', cat', -, -, hstage⟩ := hl
      refine ⟨fun hp => ?_, fun a' s' hok p hp => ?_⟩
      · cases hp
      · cases hok
        rw [hstage.moves.staged] at hp
        exact hstage.data p (hp.resolve_left (not_mem_empty p))

/-- An event does the same to two handles that stand at the same place. -/
theorem happen_alike {led : Ledger RowId} {db : Database RowId} (h : Mirrored led pg db)
    (h' : Mirrored led pg' db) (ha : Alike pg pg') (e : StoreEvent RowId) (he : led.Covers e) :
    (happen e pg).1 = (happen e pg').1 ∧ Alike (happen e pg).2 (happen e pg').2 := by
  cases e with
  | remount =>
      obtain ⟨pg₁, hopen, hstill, -⟩ := open_clean h.clean h.quiet
      obtain ⟨pg₁', hopen', hstill', -⟩ := open_clean h'.clean h'.quiet
      rw [happen, happen, hopen, hopen']
      refine ⟨rfl, ?_, ?_⟩
      · obtain ⟨k, hk⟩ := hstill.dev
        obtain ⟨k', hk'⟩ := hstill'.dev
        rw [hk, hk']
        exact ha.dev.later k k'
      · rw [hstill.sb, hstill'.sb]
        exact ha.sb
  | call op =>
      obtain ⟨hne, hbody⟩ := h.keepsToData he
      exact call_alike h.clean h'.clean ha (steady_method op) hne fun body hb => (hbody body hb).1

/-- What one of them stores, the other stores. -/
theorem Mirrored.alike {led : Ledger RowId} {db : Database RowId} (h : Mirrored led pg db)
    (ha : Alike pg pg') (hc : pg'.Clean) : Mirrored led pg' db := by
  obtain ⟨L, hL, rfl⟩ := h.stores
  obtain ⟨avail, cat, hr⟩ := hL.readable
  have hvolume : volumeOf pg' hc = volumeOf pg hL.clean := by
    have htotal : pg'.sb.totalPages = pg.sb.totalPages := congrArg Superblock.totalPages ha.sb
    have hpages : image pg'.dev.view = image pg.dev.view := congrArg image ha.dev.view
    have hload := ha.load
    unfold volumeOf
    congr
  refine ⟨⟨L, ⟨hc, ha.dev.quiet', ⟨avail, cat, ?_⟩, hL.intact⟩, rfl⟩, h.ledger⟩
  rw [hvolume, ha.sb]
  exact hr

/-- And so does a history. -/
theorem history_alike (es : List (StoreEvent RowId)) : ∀ {led : Ledger RowId}
    {db : Database RowId} {pg pg' : Pager Disk}, Mirrored led pg db → Mirrored led pg' db →
      Alike pg pg' → HandedOut es led pg →
      HandedOut es led pg' ∧ (history es pg).1 = (history es pg').1 ∧
        Alike (history es pg).2 (history es pg').2 := by
  induction es with
  | nil => exact fun _ _ ha _ => ⟨trivial, rfl, ha⟩
  | cons e es ih =>
      intro led db pg pg' h h' ha hes
      obtain ⟨ho, hnext⟩ := happen_alike h h' ha e hes.1
      obtain ⟨fresh, -, -, hm, -⟩ := happen_mirrored h e hes.1
      obtain ⟨fresh', -, -, hm', -⟩ := happen_mirrored h' e hes.1
      obtain ⟨hout, hos, hend⟩ := ih hm (hm.alike hnext hm'.clean) hnext hes.2
      rw [ho] at hout
      rw [history_cons, history_cons, ho, hos]
      exact ⟨⟨hes.1, hout⟩, rfl, hend⟩

end Store

end TablesOS
