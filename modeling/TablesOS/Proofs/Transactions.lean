import TablesOS.Proofs.PagerRuns
import Mathlib.Data.List.Nodup

/-!
# Transactions on a device that works

Between two operations a handle is `Clean`: nothing is staged, the superblock
in memory is the one on the device, the journal is free. An operation that
answers `Err` leaves the device, the superblock and the empty staging set as
they were, whatever it staged on the way (`call_err`); one whose transaction
commits leaves the committed pages overlaid with the staged ones (`tx_ok`).
Mounting a clean volume gives a clean handle on the same pages. With the sum of
the commit checked a call panics or is the same call.
-/

namespace TablesOS

open Medium Journal

/-! ## Superblocks -/

namespace Superblock

/-- The fields are `u64`s. -/
structure Small (sb : Superblock) : Prop where
  totalPages : sb.totalPages < 2 ^ 64
  hwm : sb.hwm < 2 ^ 64
  freeHead : sb.freeHead < 2 ^ 64
  catalogHead : sb.catalogHead < 2 ^ 64
  generation : sb.generation < 2 ^ 64

theorem decode_encode {sb : Superblock} (h : sb.Small) : decode sb.encode = .ok sb := by
  have h0 : sb.encode.getLe 4 0 = sbMagic := by
    unfold encode encodeFields
    iterate 8 rw [Buf.getLe_putLe_disjoint (by omega)]
    exact Buf.getLe_putLe_self (by decide) (by decide)
  have hcrc : sb.encode.getLe 4 12 = crc32 (sb.encodeFields.slice 16 40) :=
    Buf.getLe_putLe_self (by decide) (crc32_lt _)
  have hslice : sb.encode.slice 16 40 = sb.encodeFields.slice 16 40 :=
    Buf.slice_putLe_disjoint (by omega)
  have h16 : sb.encode.getLe 8 16 = sb.totalPages := by
    unfold encode encodeFields
    iterate 5 rw [Buf.getLe_putLe_disjoint (by omega)]
    exact Buf.getLe_putLe_self (by decide) h.totalPages
  have h24 : sb.encode.getLe 8 24 = sb.hwm := by
    unfold encode encodeFields
    iterate 4 rw [Buf.getLe_putLe_disjoint (by omega)]
    exact Buf.getLe_putLe_self (by decide) h.hwm
  have h32 : sb.encode.getLe 8 32 = sb.freeHead := by
    unfold encode encodeFields
    iterate 3 rw [Buf.getLe_putLe_disjoint (by omega)]
    exact Buf.getLe_putLe_self (by decide) h.freeHead
  have h40 : sb.encode.getLe 8 40 = sb.catalogHead := by
    unfold encode encodeFields
    iterate 2 rw [Buf.getLe_putLe_disjoint (by omega)]
    exact Buf.getLe_putLe_self (by decide) h.catalogHead
  have h48 : sb.encode.getLe 8 48 = sb.generation := by
    unfold encode encodeFields
    rw [Buf.getLe_putLe_disjoint (by omega)]
    exact Buf.getLe_putLe_self (by decide) h.generation
  unfold decode
  rw [h0, hcrc, hslice, h16, h24, h32, h40, h48, if_neg (by simp), if_neg (by simp)]

end Superblock

namespace Pager

/-! ## Clean handles -/

/-- A handle between two operations. -/
structure Clean (pg : Pager Disk) : Prop where
  staged : pg.dirty = ∅
  coherent : Coherent pg.sb.totalPages pg
  fits : Fits pg.dev.sectors pg.sb.totalPages
  super : Superblock.decode (image pg.dev.view 0) = .ok pg.sb
  idle : pg.dev.medium.Within (idle pg.dev.view)

/-- `pg'` stands where `pg` stood: the same medium, the same superblock. -/
structure Still (pg pg' : Pager Disk) : Prop where
  dev : ∃ k, pg'.dev = pg.dev.later k
  sb : pg'.sb = pg.sb

theorem Still.refl (pg : Pager Disk) : Still pg pg := ⟨⟨0, rfl⟩, rfl⟩

theorem Still.trans {pg pg' pg'' : Pager Disk} (h : Still pg pg') (h' : Still pg' pg'') :
    Still pg pg'' := by
  obtain ⟨j, hj⟩ := h.dev
  obtain ⟨k, hk⟩ := h'.dev
  exact ⟨⟨j + k, by rw [hk, hj, Disk.later_later]⟩, h'.sb.trans h.sb⟩

theorem Still.load {pg pg' : Pager Disk} (h : Still pg pg') : pg'.load = pg.load := by
  obtain ⟨k, hk⟩ := h.dev
  funext p
  unfold Pager.load
  rw [hk]
  rfl

theorem Still.quiet {pg pg' : Pager Disk} (h : Still pg pg') (hq : pg.dev.Quiet) :
    pg'.dev.Quiet := by
  obtain ⟨k, hk⟩ := h.dev
  rw [hk]
  exact hq

theorem not_mem_empty (p : Nat) : p ∉ (∅ : PageMap) := by simp

/-- A handle after reads, back at the superblock on the device. -/
theorem Clean.later {pg : Pager Disk} (h : pg.Clean) (k : Nat) {sb : Superblock}
    {dirty cache : PageMap}
    (hc : Coherent pg.sb.totalPages ⟨pg.dev.later k, sb, dirty, cache⟩) :
    Clean ⟨pg.dev.later k, pg.sb, ∅, cache⟩ :=
  ⟨rfl, ⟨rfl, fun p hp => absurd hp (not_mem_empty p), hc.cache⟩, h.fits, h.super, h.idle⟩

theorem Clean.pages_lt {pg : Pager Disk} (h : pg.Clean) : pg.sb.totalPages < 2 ^ 64 := by
  have h1 := h.fits.pages
  have h2 := h.fits.disk
  simp only [pageSectors] at h1
  omega

theorem Clean.load_eq {pg : Pager Disk} (h : pg.Clean) {p : Nat}
    (hp : p < pg.sb.totalPages) : pg.load p = .ok (image pg.dev.view p) := by
  unfold Pager.load
  rw [readAll_eq h.fits.disk (h.fits.page hp)]
  rfl

/-! ## Rolling back -/

/-- Reading the superblock, whatever the plan. -/
theorem readSuperblock_run {d : Disk} {T : Nat} {sb : Superblock} (hf : Fits d.sectors T)
    (hsb : Superblock.decode (image d.view 0) = .ok sb) :
    ∃ k, readSuperblock d = (.ok sb, d.later k) ∨
      readSuperblock d = (.error .io, d.later k) ∧ d.FaultIn k := by
  have hj := hf.journal
  have h0 : readAll d.sectors d.view 0 zeroedPage = .ok (image d.view 0) :=
    readAll_eq hf.disk (hf.page (by
      have hfirst : 0 < firstDataPage := by decide
      omega)) zeroedPage
  obtain ⟨k, hdev, hres⟩ := readPage_run d 0 zeroedPage
  rw [h0] at hres
  refine ⟨k, ?_⟩
  unfold readSuperblock
  rcases hr : Journal.readPage 0 zeroedPage d with ⟨e | x, d'⟩ <;> rw [hr] at hdev hres <;>
    simp only at hdev hres <;> subst hdev
  · rcases hres with hres | ⟨hres, hf⟩
    · cases hres
    · cases hres
      exact Or.inr ⟨Fallible.run_bind_error hr, hf⟩
  · rcases hres with hres | ⟨hres, -⟩
    · cases hres
      left
      rw [Fallible.run_bind_ok hr, hsb]
      rfl
    · cases hres

/-- Rolling back from any state of a run restores the superblock, unless the
read of it fails. -/
theorem rollback_run {pg pg₁ : Pager Disk} (h : pg.Clean) {j : Nat}
    (hdev : pg₁.dev = pg.dev.later j) :
    ∃ k, rollback pg₁ = (.ok (), ⟨pg.dev.later (j + k), pg.sb, ∅, pg₁.cache⟩) ∨
      rollback pg₁ = (.error .io, ⟨pg.dev.later (j + k), pg₁.sb, ∅, pg₁.cache⟩) ∧
        (pg.dev.later j).FaultIn k := by
  obtain ⟨k, hres⟩ := readSuperblock_run (d := pg.dev.later j) h.fits h.super
  refine ⟨k, ?_⟩
  unfold rollback onDev
  rw [hdev]
  rw [← Disk.later_later]
  rcases hres with hres | ⟨hres, hf⟩ <;> simp only [hres]
  · exact Or.inl trivial
  · exact Or.inr ⟨trivial, hf⟩

/-- On a disk that works, a rollback leaves the handle where it was. -/
theorem rollback_still {pg pg₁ : Pager Disk} (h : pg.Clean) (hq : pg.dev.Quiet) {j : Nat}
    (hdev : pg₁.dev = pg.dev.later j) (hc : Coherent pg.sb.totalPages pg₁) :
    Still pg (rollback pg₁).2 ∧ (rollback pg₁).2.Clean := by
  obtain ⟨k, hr | ⟨-, hf⟩⟩ := rollback_run h hdev
  · rw [hr]
    have hc' : Coherent pg.sb.totalPages
        ⟨pg.dev.later (j + k), pg₁.sb, pg₁.dirty, pg₁.cache⟩ :=
      ⟨hc.size, hc.dirty, fun p x hx => ?_⟩
    · exact ⟨⟨⟨j + k, rfl⟩, rfl⟩, h.later (j + k) hc'⟩
    obtain ⟨hlt, hload⟩ := hc.cache p x hx
    refine ⟨hlt, fun hp => ?_⟩
    have hl := hload hp
    unfold Pager.load at hl ⊢
    rw [hdev] at hl
    exact hl
  · exact absurd hf (Disk.Quiet.not_faultIn (d := pg.dev.later j) hq k)

/-! ## Committing -/

/-- Writing pages of the volume, whatever is in them. -/
theorem calls_writePages_any {n T : Nat} {π : Nat → Bool} (hf : Fits n T)
    {ws : List (Nat × Page)} (hws : ∀ w ∈ ws, w.1 < T) :
    Calls n π (pageSectors * ws.length) (fun _ => True) (writePages ws)
      (fun _ _ => True) fun _ => True := by
  intro c d hd
  have h := calls_writePages (π := π) (A := fun _ _ => True) (U := d.medium.view) hf.disk
    (fun w hw => hf.page (hws w hw)) fun _ _ _ _ => trivial
  exact (h.conseq (fun _ h => h) (fun _ _ _ => trivial) fun _ _ => trivial) c d
    ⟨hd.sectors, hd.plan, hd.clock, ⟨fun _ => trivial, fun _ _ => trivial⟩, rfl⟩

theorem calls_sync_any {n T : Nat} {π : Nat → Bool} (hf : Fits n T)
    {ws : List (Nat × Page)} (hws : ∀ w ∈ ws, w.1 < T) :
    Calls n π (pageSectors * ws.length + 1) (fun _ => True) (sync ws)
      (fun _ _ => True) fun _ => True :=
  (calls_writePages_any hf hws).bind fun _ =>
    calls_flush (fun _ _ => trivial) fun _ _ => trivial

/-- On a disk that works a commit of pages of the volume comes back. -/
theorem commit_returns {T : Nat} {ws : List (Nat × Page)} {d : Disk} (txid : Nat)
    (hq : d.Quiet) (hf : Fits d.sectors T) (hcount : ws.length ≤ jcap)
    (hws : ∀ w ∈ ws, w.1 < T) : ∃ d', Journal.commit txid ws d = (.ok (), d') := by
  have hj := hf.journal
  have hfirst : firstDataPage = jdataStartPage + jcap := rfl
  have hctrl : ∀ buf : Buf ctrlSize, ∀ w ∈ ctrlPages buf, w.1 < T := by
    intro buf w hw
    have h := (mem_ctrlPages hw).2.1
    omega
  have hstage : ∀ w ∈ stagePages ws, w.1 < T := by
    intro w hw
    obtain ⟨i, hi, rfl⟩ := mem_stagePages hw
    simp only
    omega
  have h4 := calls_sync_any (π := d.plan) hf
    (hctrl (renderCtrl (ws.map (·.1)) txid stateEmpty))
  have h3 := (calls_sync_any hf hws).bind fun _ => h4
  have h2 := (calls_sync_any hf
    (hctrl (renderCtrl (ws.map (·.1)) txid stateCommitted))).bind fun _ => h3
  have h1 := (calls_sync_any hf
    (hctrl (renderCtrl (ws.map (·.1)) txid stateEmpty))).bind fun _ => h2
  have h0 := (calls_writePages_any hf hstage).bind fun _ => h1
  obtain ⟨u, d', he, -⟩ := h0.run_quiet rfl rfl hq trivial
  rw [commit_eq hcount, he]
  exact ⟨d', rfl⟩

/-- What a question is answered on a handle. -/
def ask {α : Type} (pg : Pager Disk) (q : PageQuery α) : Outcome StoreError α :=
  q.eval (base pg.load pg.sb) pg.sb

/-- What a transaction body answers and stages on a handle. -/
def attempt {α : Type} (pg : Pager Disk) (body : PageProg α) :
    Outcome StoreError α × Staged Superblock Page :=
  body.eval (base pg.load) ⟨pg.sb, ∅⟩

theorem Still.ask {α : Type} {pg pg' : Pager Disk} (h : Still pg pg') (q : PageQuery α) :
    pg'.ask q = pg.ask q := by
  rw [Pager.ask, Pager.ask, h.load, h.sb]

theorem Still.attempt {α : Type} {pg pg' : Pager Disk} (h : Still pg pg')
    (body : PageProg α) : pg'.attempt body = pg.attempt body := by
  rw [Pager.attempt, Pager.attempt, h.load, h.sb]

theorem read_nothing_staged (load : Nat → Outcome StoreError Page) (sb : Superblock) :
    (Staged.mk sb ∅).read (base load) = base load sb := by
  funext p
  unfold Staged.read
  rw [Std.TreeMap.getElem?_emptyc]

end Pager

namespace Store

open Pager

section Checked

variable {D α : Type} [BlockDevice D] {pg : Pager D}

/-- A commit whose sum is checked and does not panic is the commit. -/
theorem commitChecked_returned (h : (commitChecked pg).1.returned) :
    commitChecked pg = (Outcome.ofExcept (commit pg).1, (commit pg).2) := by
  unfold commitChecked at h ⊢
  split at h
  · exact h.elim
  · next hsum => rw [if_neg hsum]

theorem txChecked_returned {body : PageProg α} (h : (txChecked body pg).1.returned) :
    txChecked body pg = tx body pg := by
  unfold txChecked at h ⊢
  unfold tx
  generalize runProg body pg = out at h ⊢
  obtain ⟨o, pg₁⟩ := out
  cases o with
  | ok r =>
      have hcommit : (commitChecked pg₁).1.returned := by
        rcases hc : commitChecked pg₁ with ⟨o, pg₂⟩
        simp only [hc] at h
        cases o with
        | ok _ => trivial
        | err e => trivial
        | panic => exact h
        | diverge => exact h
      simp only [commitChecked_returned hcommit]
      rcases commit pg₁ with ⟨r', pg₂⟩
      cases r' <;> rfl
  | err e => rfl
  | panic => rfl
  | diverge => rfl

/-- A call that comes back from the checked sum is the call without the check. -/
theorem callChecked_returned {m : PageQuery (Call α)} (h : (callChecked m pg).1.returned) :
    callChecked m pg = call m pg := by
  unfold callChecked at h ⊢
  unfold call
  generalize runProg (Prog.ofQuery m) pg = out at h ⊢
  obtain ⟨o, pg₁⟩ := out
  cases o with
  | ok c =>
      cases c with
      | ret a => rfl
      | tx body => exact txChecked_returned h
  | err e => rfl
  | panic => rfl
  | diverge => rfl

theorem runChecked_returned {op : Op RowId} (h : (runChecked op pg).1.returned) :
    runChecked op pg = run op pg :=
  callChecked_returned h

end Checked

/-- What the transaction bodies of an operation do to superblock and staging
set. -/
def Steady {α : Type} (T : Nat) (m : PageQuery (Call α)) : Prop :=
  KeepsSize T (fun c => ∀ body, c = .tx body → KeepsSize T (fun _ => True) body)
    (Prog.ofQuery m)

section Quiet

variable {α : Type} {pg : Pager Disk} {m : PageQuery (Call α)} {body : PageProg α}

/-- The preliminary questions of an operation leave the handle where it was;
they are answered as the pages say, a planned fault apart. -/
theorem questions_run (h : pg.Clean) (hm : Steady pg.sb.totalPages m) :
    ∃ o k cache, runProg (Prog.ofQuery m) pg =
        (o, ⟨pg.dev.later k, pg.sb, ∅, cache⟩) ∧
      Clean ⟨pg.dev.later k, pg.sb, ∅, cache⟩ ∧
      (∀ body, o = .ok (.tx body) → KeepsSize pg.sb.totalPages (fun _ => True) body) ∧
      (o = pg.ask m ∨ o = .err .io ∧ pg.dev.FaultIn k ∨ pg.ask m = .panic) := by
  obtain ⟨o, k, sb, dirty, cache, hrun, hc, hq, hres⟩ := runProg_sim _ hm h.coherent
  obtain ⟨hsb, hdirty⟩ := runProg_query m h.coherent
  rw [hrun] at hsb hdirty
  simp only at hsb hdirty
  rw [h.staged] at hdirty hres
  subst hsb hdirty
  refine ⟨o, k, cache, hrun, h.later k hc, fun body hb => hq _ hb body rfl, ?_⟩
  have heval := Prog.eval_query (base pg.load) m ⟨pg.sb, ∅⟩
  rw [read_nothing_staged] at heval
  change (Prog.ofQuery m).eval _ _ = _ at heval
  rw [heval] at hres
  rcases hres with hres | hres | hres
  · exact Or.inl (congrArg Prod.fst hres)
  · exact Or.inr (Or.inl hres)
  · exact Or.inr (Or.inr hres)

/-- A transaction that answers `Err` is as if it had not been. -/
theorem tx_err (h : pg.Clean) (hq : pg.dev.Quiet)
    (hb : KeepsSize pg.sb.totalPages (fun _ => True) body) {e : StoreError}
    {pg' : Pager Disk} (hrun : tx body pg = (.err e, pg')) : Still pg pg' ∧ pg'.Clean := by
  obtain ⟨o, k, sb, dirty, cache, hprog, hc, -, -⟩ := runProg_sim _ hb h.coherent
  unfold tx at hrun
  rw [hprog] at hrun
  have hback := rollback_still h hq (j := k)
    (show (⟨pg.dev.later k, sb, dirty, cache⟩ : Pager Disk).dev = _ from rfl) hc
  cases o with
  | ok r =>
      simp only [Pager.commit] at hrun
      split at hrun
      · next hcommit =>
          injection hrun with hrun
          cases hrun
      · next e' pg₂ hcommit =>
          split at hcommit
          · injection hcommit with hcommit
            cases hcommit
          · unfold onDev at hcommit
            simp only at hcommit
            by_cases hcount : (batch { sb with generation := (sb.generation + 1) % 2 ^ 64 }
                dirty).length ≤ jcap
            · obtain ⟨d', hd'⟩ := commit_returns ((sb.generation + 1) % 2 ^ 64)
                (d := pg.dev.later k) hq h.fits hcount fun w hw => by
                  rcases List.mem_cons.mp hw with rfl | hw
                  · have hj := h.fits.journal
                    have hpos : 0 < firstDataPage := by decide
                    simp only
                    omega
                  · exact hc.dirty _ (mem_of_getElem?
                      (Std.TreeMap.mem_toList_iff_getElem?_eq_some.mp hw))
              rw [hd'] at hcommit
              injection hcommit with hcommit
              cases hcommit
            · have hthrow : Journal.commit ((sb.generation + 1) % 2 ^ 64)
                  (batch { sb with generation := (sb.generation + 1) % 2 ^ 64 } dirty)
                  (pg.dev.later k) = (.error .outOfSpace, pg.dev.later k) := by
                unfold Journal.commit
                rw [if_pos (by omega)]
                rfl
              rw [hthrow] at hcommit
              injection hcommit with _ hpg
              subst hpg
              injection hrun with _ hpg'
              subst hpg'
              exact hback
  | err e' =>
      injection hrun with _ hpg'
      subst hpg'
      exact hback
  | panic =>
      injection hrun with hrun
      cases hrun
  | diverge =>
      injection hrun with hrun
      cases hrun

/-- An operation that answers `Err` is as if it had not been called. -/
theorem call_err (h : pg.Clean) (hq : pg.dev.Quiet) (hm : Steady pg.sb.totalPages m)
    {e : StoreError} {pg' : Pager Disk} (hrun : call m pg = (.err e, pg')) :
    Still pg pg' ∧ pg'.Clean := by
  obtain ⟨o, k, cache, hprog, hclean, hsize, -⟩ := questions_run h hm
  have hstill : Still pg ⟨pg.dev.later k, pg.sb, ∅, cache⟩ := ⟨⟨k, rfl⟩, rfl⟩
  unfold call at hrun
  rw [hprog] at hrun
  cases o with
  | ok c =>
      cases c with
      | ret a =>
          injection hrun with hrun
          cases hrun
      | tx body =>
          obtain ⟨hs, hc⟩ := tx_err hclean (hstill.quiet hq) (hsize body rfl) hrun
          exact ⟨hstill.trans hs, hc⟩
  | err e' =>
      injection hrun with _ hpg'
      subst hpg'
      exact ⟨hstill, hclean⟩
  | panic =>
      injection hrun with hrun
      cases hrun
  | diverge =>
      injection hrun with hrun
      cases hrun

/-- What an operation answers before any transaction. -/
theorem call_ret (h : pg.Clean) (hq : pg.dev.Quiet) (hm : Steady pg.sb.totalPages m)
    {a : α} (hask : pg.ask m = .ok (.ret a)) :
    ∃ pg', call m pg = (.ok a, pg') ∧ Still pg pg' ∧ pg'.Clean := by
  obtain ⟨o, k, cache, hprog, hclean, -, ho | ⟨-, hf⟩ | ho⟩ := questions_run h hm
  · unfold call
    rw [hprog, ho, hask]
    exact ⟨_, rfl, ⟨⟨k, rfl⟩, rfl⟩, hclean⟩
  · exact absurd hf (hq.not_faultIn k)
  · rw [hask] at ho
    cases ho

theorem call_ask_err (h : pg.Clean) (hq : pg.dev.Quiet) (hm : Steady pg.sb.totalPages m)
    {e : StoreError} (hask : pg.ask m = .err e) : ∃ pg', call m pg = (.err e, pg') := by
  obtain ⟨o, k, cache, hprog, hclean, -, ho | ⟨-, hf⟩ | ho⟩ := questions_run h hm
  · unfold call
    rw [hprog, ho, hask]
    exact ⟨_, rfl⟩
  · exact absurd hf (hq.not_faultIn k)
  · rw [hask] at ho
    cases ho

/-- The transaction of an operation runs from where the handle was. -/
theorem call_tx (h : pg.Clean) (hq : pg.dev.Quiet) (hm : Steady pg.sb.totalPages m)
    (hask : pg.ask m = .ok (.tx body)) :
    KeepsSize pg.sb.totalPages (fun _ => True) body ∧
      ∃ pg₁, call m pg = tx body pg₁ ∧ Still pg pg₁ ∧ pg₁.Clean ∧
        callChecked m pg = txChecked body pg₁ := by
  obtain ⟨o, k, cache, hprog, hclean, hsize, ho | ⟨-, hf⟩ | ho⟩ := questions_run h hm
  · refine ⟨hsize body (ho.trans hask), ⟨pg.dev.later k, pg.sb, ∅, cache⟩, ?_,
      ⟨⟨k, rfl⟩, rfl⟩, hclean, ?_⟩
    · unfold call
      rw [hprog, ho, hask]
    · unfold callChecked
      rw [hprog, ho, hask]
  · exact absurd hf (hq.not_faultIn k)
  · rw [hask] at ho
    cases ho

/-- A body that fails makes the transaction fail. -/
theorem tx_attempt_err (h : pg.Clean) (hq : pg.dev.Quiet)
    (hb : KeepsSize pg.sb.totalPages (fun _ => True) body) {e : StoreError}
    {s : Staged Superblock Page} (hatt : pg.attempt body = (.err e, s)) :
    ∃ pg', tx body pg = (.err e, pg') := by
  obtain ⟨o, k, sb, dirty, cache, hprog, hc, -, ho | ⟨-, hf⟩ | ho⟩ :=
    runProg_sim _ hb h.coherent
  · unfold Pager.attempt at hatt
    rw [h.staged, hatt] at ho
    injection ho with ho
    subst ho
    unfold tx
    rw [hprog]
    exact ⟨_, rfl⟩
  · exact absurd hf (hq.not_faultIn k)
  · unfold Pager.attempt at hatt
    rw [h.staged, hatt] at ho
    cases ho

/-- What a body has to leave for its commit to go through. -/
structure Committable (T : Nat) (s : Staged Superblock Page) : Prop where
  nonempty : s.dirty.isEmpty = false
  count : s.dirty.size < jcap
  data : ∀ p, p ∈ s.dirty → firstDataPage ≤ p
  small : s.ctl.hwm < 2 ^ 64 ∧ s.ctl.freeHead < 2 ^ 64 ∧ s.ctl.catalogHead < 2 ^ 64

theorem length_batch (sb : Superblock) (dirty : PageMap) :
    (batch sb dirty).length = dirty.size + 1 := by
  rw [batch, List.length_cons, Std.TreeMap.length_toList]

/-- With its sum checked a transaction that stages something panics at the end of
the counter, before anything is written, and nowhere else. -/
theorem txChecked_answer (h : pg.Clean) (hq : pg.dev.Quiet)
    (hb : KeepsSize pg.sb.totalPages (fun _ => True) body) {a : α}
    {s : Staged Superblock Page} (hatt : pg.attempt body = (.ok a, s))
    (hne : s.dirty.isEmpty = false) :
    (txChecked body pg).1 =
      if 2 ^ 64 ≤ s.ctl.generation + 1 then .panic else (tx body pg).1 := by
  obtain ⟨o, k, sb, dirty, cache, hprog, hc, -, ho | ⟨-, hf⟩ | ho⟩ :=
    runProg_sim _ hb h.coherent
  · unfold Pager.attempt at hatt
    rw [h.staged, hatt] at ho
    injection ho with ho hs
    subst ho
    subst hs
    unfold txChecked tx
    rw [hprog]
    simp only [commitChecked]
    by_cases hend : 2 ^ 64 ≤ sb.generation + 1
    · rw [if_pos hend]
      simp only [if_pos (And.intro hne hend)]
    · rw [if_neg hend]
      simp only [if_neg fun hsum : dirty.isEmpty = false ∧ 2 ^ 64 ≤ sb.generation + 1 =>
        hend hsum.2]
      rcases commit ⟨pg.dev.later k, sb, dirty, cache⟩ with ⟨r, pg'⟩
      cases r <;> rfl
  · exact absurd hf (hq.not_faultIn k)
  · unfold Pager.attempt at hatt
    rw [h.staged, hatt] at ho
    cases ho

/-- More staged pages than the journal holds: refused. -/
theorem tx_full (h : pg.Clean) (hq : pg.dev.Quiet)
    (hb : KeepsSize pg.sb.totalPages (fun _ => True) body) {a : α}
    {s : Staged Superblock Page} (hatt : pg.attempt body = (.ok a, s))
    (hcount : jcap ≤ s.dirty.size) : ∃ pg', tx body pg = (.err .outOfSpace, pg') := by
  obtain ⟨o, k, sb, dirty, cache, hprog, hc, -, ho | ⟨-, hf⟩ | ho⟩ :=
    runProg_sim _ hb h.coherent
  · unfold Pager.attempt at hatt
    rw [h.staged, hatt] at ho
    injection ho with ho hs
    subst ho
    subst hs
    simp only at hcount
    have hne : dirty.isEmpty = false := by
      rw [Std.TreeMap.isEmpty_eq_size_eq_zero]
      have hj : jcap ≠ 0 := by decide
      simp only [beq_eq_false_iff_ne, ne_eq]
      omega
    unfold tx
    rw [hprog]
    simp only [Pager.commit, hne, Bool.false_eq_true, if_false, onDev]
    have hthrow : Journal.commit ((sb.generation + 1) % 2 ^ 64)
        (batch { sb with generation := (sb.generation + 1) % 2 ^ 64 } dirty)
        (pg.dev.later k) = (.error .outOfSpace, pg.dev.later k) := by
      unfold Journal.commit
      rw [if_pos (by rw [length_batch]; omega)]
      rfl
    rw [hthrow]
    exact ⟨_, rfl⟩
  · exact absurd hf (hq.not_faultIn k)
  · unfold Pager.attempt at hatt
    rw [h.staged, hatt] at ho
    cases ho

/-- The pages of a commit are distinct home pages of the volume. -/
theorem writeSet_batch {T : Nat} {s : Staged Superblock Page} (sb : Superblock)
    (hs : Committable T s) (hT : ∀ p, p ∈ s.dirty → p < T) (hj : firstDataPage ≤ T) :
    WriteSet T (batch sb s.dirty) := by
  have hmem : ∀ w ∈ s.dirty.toList, w.1 ∈ s.dirty := fun w hw =>
    mem_of_getElem? (Std.TreeMap.mem_toList_iff_getElem?_eq_some.mp hw)
  refine ⟨?_, ?_, fun w hw => ?_⟩
  · rw [length_batch]
    exact hs.count
  · rw [batch, List.map_cons, List.nodup_cons]
    constructor
    · intro h0
      obtain ⟨w, hw, hw0⟩ := List.mem_map.mp h0
      have hdata := hs.data w.1 (hmem w hw)
      have hpos : 0 < firstDataPage := by decide
      omega
    · rw [List.nodup_iff_pairwise_ne, List.pairwise_map]
      exact (Std.TreeMap.distinct_keys_toList).imp fun h heq =>
        h (Nat.compare_eq_eq.mpr heq)
  · rcases List.mem_cons.mp hw with rfl | hw
    · have hpos : 0 < firstDataPage := by decide
      exact ⟨by simp only; omega, Or.inl rfl⟩
    · exact ⟨hT _ (hmem w hw), Or.inr (hs.data _ (hmem w hw))⟩

/-- The write-set of a commit over any pages: the superblock, then the staged
images over what was there. -/
theorem updAll_batch {T : Nat} {s : Staged Superblock Page} {sb : Superblock}
    (hws : WriteSet T (batch sb s.dirty)) (U : Nat → Page) :
    updAll U (batch sb s.dirty) 0 = sb.encode ∧
      ∀ p, firstDataPage ≤ p →
        updAll U (batch sb s.dirty) p = (s.dirty[p]?).getD (U p) := by
  have hval : ∀ w ∈ batch sb s.dirty, ∀ w' ∈ batch sb s.dirty, w.1 = w'.1 → w.2 = w'.2 := by
    intro w hw w' hw' heq
    have h := List.inj_on_of_nodup_map hws.distinct hw hw' heq
    rw [h]
  refine ⟨?_, fun p hp => ?_⟩
  · exact updAll_mem (fun w hw hw0 => hval w hw (0, sb.encode) List.mem_cons_self hw0)
      (Or.inl ⟨(0, sb.encode), List.mem_cons_self, rfl⟩)
  · have hmem : ∀ x, s.dirty[p]? = some x → (p, x) ∈ batch sb s.dirty := fun x hx =>
      List.mem_cons_of_mem _ (Std.TreeMap.mem_toList_iff_getElem?_eq_some.mpr hx)
    cases hx : s.dirty[p]? with
    | some x =>
        exact updAll_mem (fun w hw hwp => hval w hw (p, x) (hmem x hx) hwp)
          (Or.inl ⟨(p, x), hmem x hx, rfl⟩)
    | none =>
        refine updAll_other fun w hw hwp => ?_
        rcases List.mem_cons.mp hw with rfl | hw
        · have hpos : 0 < firstDataPage := by decide
          simp only at hwp
          omega
        · have hget := Std.TreeMap.mem_toList_iff_getElem?_eq_some.mp hw
          rw [hwp, hx] at hget
          cases hget

/-- The home pages after a commit. -/
theorem image_committed {T : Nat} {s : Staged Superblock Page} {sb : Superblock}
    {V W : Nat → Sector} (hws : WriteSet T (batch sb s.dirty))
    (hW : Released (applied V (batch sb s.dirty)) W) :
    image W 0 = sb.encode ∧
      ∀ p, firstDataPage ≤ p → image W p = (s.dirty[p]?).getD (image V p) := by
  obtain ⟨h0, hdata⟩ := updAll_batch hws (image V)
  refine ⟨?_, fun p hp => ?_⟩
  · rw [hW.image_eq (Or.inl rfl), applied, image_updAll, h0]
  · rw [hW.image_eq (Or.inr hp), applied, image_updAll, hdata p hp]

/-- The cache after a commit holds committed images or clean ones. -/
theorem getElem?_cacheAll {ws : List (Nat × Page)} :
    ∀ {cache : PageMap} {p : Nat} {x : Page},
      (ws.foldl (fun cache w => cacheInsert cache w.1 w.2) cache)[p]? = some x →
        (p, x) ∈ ws ∨ (cache[p]? = some x ∧ p ∉ ws.map (·.1)) := by
  induction ws with
  | nil => exact fun h => Or.inr ⟨h, by simp⟩
  | cons w ws ih =>
      intro cache p x h
      rcases ih h with hin | ⟨hcache, hnot⟩
      · exact Or.inl (List.mem_cons_of_mem _ hin)
      · rcases getElem?_cacheInsert hcache with ⟨rfl, rfl⟩ | ⟨hne, hget⟩
        · exact Or.inl List.mem_cons_self
        · refine Or.inr ⟨hget, fun hmem => ?_⟩
          rw [List.map_cons, List.mem_cons] at hmem
          exact hmem.elim hne hnot

/-- Once the staged images are on the device they may be in the cache. -/
theorem coherent_committed {T : Nat} {pg : Pager Disk} (hc : Coherent T pg)
    (hf : Fits pg.dev.sectors T) {d' : Disk} (hsec : d'.sectors = pg.dev.sectors)
    (hdata : ∀ p, firstDataPage ≤ p →
      image d'.view p = (pg.dirty[p]?).getD (image pg.dev.view p))
    {sb : Superblock} (hsb : sb.totalPages = T) :
    Coherent T ⟨d', sb, ∅,
      pg.dirty.toList.foldl (fun cache w => cacheInsert cache w.1 w.2) pg.cache⟩ := by
  have hload : ∀ p, p < T → readAll d'.sectors d'.view p zeroedPage =
      .ok (image d'.view p) := fun p hp => readAll_eq d'.sectors_lt
    (hsec ▸ hf.page hp) zeroedPage
  refine ⟨hsb, fun p hp => absurd hp (not_mem_empty p), fun p x hx => ?_⟩
  rcases getElem?_cacheAll hx with hmem | ⟨hget, hnot⟩
  · have hdirty := Std.TreeMap.mem_toList_iff_getElem?_eq_some.mp hmem
    have hlt := hc.dirty p (mem_of_getElem? hdirty)
    refine ⟨hlt, fun hp => ?_⟩
    show Outcome.ofExcept (readAll d'.sectors d'.view p zeroedPage) = _
    rw [hload p hlt, hdata p hp, hdirty]
    rfl
  · obtain ⟨hlt, hold⟩ := hc.cache p x hget
    refine ⟨hlt, fun hp => ?_⟩
    have hx' := hold hp
    have hnone : pg.dirty[p]? = none := by
      cases hd : pg.dirty[p]? with
      | none => rfl
      | some y => exact absurd (List.mem_map_of_mem
          (Std.TreeMap.mem_toList_iff_getElem?_eq_some.mpr hd)) hnot
    change Outcome.ofExcept (readAll pg.dev.sectors pg.dev.view p zeroedPage) = _ at hx'
    rw [readAll_eq hf.disk (hf.page hlt)] at hx'
    show Outcome.ofExcept (readAll d'.sectors d'.view p zeroedPage) = _
    rw [hload p hlt, hdata p hp, hnone]
    exact hx'

/-- A body that succeeds and can be committed is committed: the handle is
clean again, its superblock is the one the body left with the next generation,
in memory and on the first page, and the data pages are the committed ones
overlaid with the staged ones. -/
theorem tx_ok (h : pg.Clean) (hq : pg.dev.Quiet)
    (hb : KeepsSize pg.sb.totalPages (fun _ => True) body) {a : α}
    {s : Staged Superblock Page} (hatt : pg.attempt body = (.ok a, s))
    (hs : Committable pg.sb.totalPages s) :
    ∃ pg', tx body pg = (.ok a, pg') ∧ pg'.Clean ∧ pg'.dev.Quiet ∧
      pg'.dev.sectors = pg.dev.sectors ∧
      pg'.sb = { s.ctl with generation := (s.ctl.generation + 1) % 2 ^ 64 } ∧
      image pg'.dev.view 0 = pg'.sb.encode ∧
      ∀ p, firstDataPage ≤ p →
        image pg'.dev.view p = (s.dirty[p]?).getD (image pg.dev.view p) := by
  obtain ⟨o, k, sb, dirty, cache, hprog, hc, -, ho | ⟨-, hf⟩ | ho⟩ :=
    runProg_sim _ hb h.coherent
  · unfold Pager.attempt at hatt
    rw [h.staged, hatt] at ho
    injection ho with ho hs'
    subst ho
    subst hs'
    have hne : dirty.isEmpty = false := hs.nonempty
    have hws := writeSet_batch { sb with generation := (sb.generation + 1) % 2 ^ 64 } hs
      hc.dirty h.fits.journal
    obtain ⟨u, d', hcommit, hat⟩ := (calls_commit (π := pg.dev.plan) (V := pg.dev.view)
      h.fits hws (Nat.mod_lt (sb.generation + 1) (by decide : 0 < 2 ^ 64))).run_quiet
      (d := pg.dev.later k) rfl rfl hq h.idle
    obtain ⟨W, hW, hrel⟩ := hat.medium
    have hview : d'.view = W := hW.view
    obtain ⟨h0, hdata⟩ := image_committed (s := ⟨sb, dirty⟩) hws hrel
    have hsize : sb.totalPages = pg.sb.totalPages := hc.size
    have hfits : Fits d'.sectors sb.totalPages := by
      rw [hat.sectors, hsize]
      exact h.fits
    have hcoh := coherent_committed hc h.fits hat.sectors
      (fun p hp => by rw [hview]; exact hdata p hp)
      (show Superblock.totalPages { sb with generation := (sb.generation + 1) % 2 ^ 64 } =
        pg.sb.totalPages from hsize)
    rw [← hsize] at hcoh
    refine ⟨⟨d', { sb with generation := (sb.generation + 1) % 2 ^ 64 }, ∅,
      dirty.toList.foldl (fun cache w => cacheInsert cache w.1 w.2) cache⟩,
      ?_, ⟨rfl, hcoh, hfits, ?_, ?_⟩, ?_, hat.sectors, rfl, ?_, ?_⟩
    · unfold tx
      rw [hprog]
      simp only [Pager.commit, hne, Bool.false_eq_true, if_false, onDev, hcommit]
    · show Superblock.decode (image d'.view 0) = _
      rw [hview, h0]
      have hT := h.pages_lt
      obtain ⟨h1, h2, h3⟩ := hs.small
      exact Superblock.decode_encode ⟨by simp only; omega, h1, h2, h3,
        Nat.mod_lt _ (by decide)⟩
    · rw [hview]
      refine hW.within.mono fun lba x hx => ?_
      subst hx
      exact ⟨fun _ => rfl, fun h8 => h8 ▸ hrel.state⟩
    · intro i
      show d'.plan i = false
      rw [hat.plan]
      exact hq i
    · show image d'.view 0 = _
      rw [hview, h0]
    · intro p hp
      show image d'.view p = _
      rw [hview, hdata p hp]
  · exact absurd hf (hq.not_faultIn k)
  · unfold Pager.attempt at hatt
    rw [h.staged, hatt] at ho
    cases ho

end Quiet

/-! ## Mounting and formatting -/

theorem eq_later {d d' : Disk} {k : Nat} (h1 : d'.sectors = d.sectors)
    (h2 : d'.plan = d.plan) (h3 : d'.clock = d.clock + k) (h4 : d'.medium = d.medium) :
    d' = d.later k := by
  cases d
  cases d'
  cases h1
  cases h2
  cases h3
  cases h4
  rfl

/-- Mounting the device of a clean handle gives a clean handle on it. -/
theorem open_clean {pg : Pager Disk} (h : pg.Clean) (hq : pg.dev.Quiet) :
    ∃ pg', openStore pg.dev = (.ok pg', pg'.dev) ∧ Still pg pg' ∧ pg'.Clean := by
  obtain ⟨b, d₁, hrec, hat⟩ := (calls_recover_released (π := pg.dev.plan)
    (P := fun m => m = pg.dev.medium) (E := fun m => m = pg.dev.medium) h.fits
    (fun m hm => congrArg Medium.view hm) (fun _ hm => hm)
    ((h.idle.view pageSectors).2 rfl)).run_quiet (d := pg.dev) rfl rfl hq rfl
  obtain ⟨k, hd₁⟩ : ∃ k, d₁ = pg.dev.later k :=
    ⟨_, eq_later hat.sectors hat.plan hat.clock hat.medium.2⟩
  obtain ⟨j, hsb | ⟨-, hf⟩⟩ := readSuperblock_run (d := pg.dev.later k) h.fits h.super
  · have hmount : mount pg.dev =
        (.ok (⟨pg.dev.later (k + j), pg.sb, ∅, ∅⟩ : Pager Disk), pg.dev.later (k + j)) := by
      unfold mount
      rw [Fallible.run_bind_ok hrec, hd₁, Fallible.run_bind_ok hsb, Fallible.run_gets,
        Disk.later_later]
    refine ⟨⟨pg.dev.later (k + j), pg.sb, ∅, ∅⟩, ?_, ⟨⟨_, rfl⟩, rfl⟩, ?_⟩
    · unfold openStore
      rw [hmount]
    · refine ⟨rfl, ⟨rfl, fun p hp => absurd hp (not_mem_empty p), fun p x hx => ?_⟩,
        h.fits, h.super, h.idle⟩
      rw [Std.TreeMap.getElem?_emptyc] at hx
      cases hx
  · exact absurd hf (Disk.Quiet.not_faultIn (d := pg.dev.later k) hq j)

/-- The superblock of a fresh store. -/
def freshSb (T : Nat) : Superblock :=
  { totalPages := T, hwm := firstDataPage, freeHead := 0, catalogHead := 0, generation := 1 }

/-- Formatting a device that works and has room for a data page. -/
theorem format_clean {d : Disk} (hq : d.Quiet)
    (hroom : firstDataPage + 1 < d.sectors / pageSectors) :
    ∃ pg', formatStore d = (.ok pg', pg'.dev) ∧ pg'.Clean ∧ pg'.dev.Quiet ∧
      pg'.dev.sectors = d.sectors ∧ pg'.sb = freshSb (d.sectors / pageSectors) := by
  have hf : Fits d.sectors (d.sectors / pageSectors) :=
    ⟨d.sectors_lt, Nat.div_mul_le_self _ _, by omega⟩
  have hpos : 0 < firstDataPage := by decide
  obtain ⟨u, d₁, hinit, hat₁⟩ := (calls_sync (n := d.sectors) (π := d.plan)
    (A := fun _ _ => True) (U := d.medium.view) hf.disk
    (hf.ctrlPages (renderCtrl [] 0 stateEmpty)) fun _ _ _ _ => trivial).run_quiet rfl rfl hq
    ⟨⟨fun _ => trivial, fun _ _ => trivial⟩, rfl⟩
  have hq₁ : d₁.Quiet := by
    intro i
    rw [hat₁.plan]
    exact hq i
  obtain ⟨u, d₂, hwrite, hat₂⟩ := (calls_writePage (n := d.sectors) (π := d.plan)
    (w := (0, (freshSb (d.sectors / pageSectors)).encode)) (A := fun _ _ => True)
    (U := d₁.medium.view) hf.disk (hf.page (by simp only; omega))
    fun _ _ => trivial).run_quiet hat₁.sectors hat₁.plan hq₁
    ⟨⟨fun _ => trivial, fun _ _ => trivial⟩, rfl⟩
  have hq₂ : d₂.Quiet := by
    intro i
    rw [hat₂.plan]
    exact hq i
  obtain ⟨u, d₃, hflush, hat₃⟩ := (calls_flush (n := d.sectors) (π := d.plan)
    (P := fun m => m = d₂.medium) (Q := fun m => m.Settled d₂.medium.view)
    (E := fun _ => True) (fun m hm => hm ▸ settled_flush m)
    fun _ _ => trivial).run_quiet hat₂.sectors hat₂.plan hq₂ rfl
  have hview : d₃.view = updAll (updAll d.medium.view
      ((ctrlPages (renderCtrl [] 0 stateEmpty)).flatMap pageWrites))
      (pageWrites (0, (freshSb (d.sectors / pageSectors)).encode)) := by
    rw [Disk.view, hat₃.medium.view, hat₂.medium.2, hat₁.medium.view]
  have hrun : formatStore d = (.ok (⟨d₃, freshSb (d.sectors / pageSectors), ∅, ∅⟩ :
      Pager Disk), d₃) := by
    unfold formatStore Pager.format
    rw [Fallible.run_bind_ok (Fallible.run_gets _ d)]
    have hsec : BlockDevice.sectorCount d = d.sectors := rfl
    have hinit' : (Journal.init : DevM Disk Unit) d = (.ok (), d₁) := by
      unfold Journal.init
      rw [writeCtrl_eq]
      exact hinit
    rw [hsec, if_neg (by omega), Fallible.run_bind_ok hinit']
    simp only [freshSb] at hwrite ⊢
    rw [Fallible.run_bind_ok hwrite, Fallible.run_bind_ok hflush]
    rfl
  refine ⟨_, hrun, ⟨rfl, ⟨rfl, fun p hp => absurd hp (not_mem_empty p), fun p x hx => ?_⟩,
    ?_, ?_, ?_⟩, fun i => ?_, hat₃.sectors, rfl⟩
  · rw [Std.TreeMap.getElem?_emptyc] at hx
    cases hx
  · show Fits d₃.sectors (d.sectors / pageSectors)
    rw [hat₃.sectors]
    exact hf
  · show Superblock.decode (image d₃.view 0) = _
    rw [hview, image_updAll_page, upd_self]
    have hT : d.sectors / pageSectors ≤ d.sectors := Nat.div_le_self _ _
    have hd := d.sectors_lt
    exact Superblock.decode_encode ⟨by simp only [freshSb]; omega,
      show firstDataPage < 2 ^ 64 by decide, show 0 < 2 ^ 64 by decide,
      show 0 < 2 ^ 64 by decide, show 1 < 2 ^ 64 by decide⟩
  · refine hat₃.medium.within.mono fun lba x hx => ?_
    subst hx
    show idle d₃.view lba _
    rw [Disk.view, hat₃.medium.view]
    refine ⟨fun _ => rfl, fun h8 => ?_⟩
    have hother : updAll d₁.medium.view
        (pageWrites (0, (freshSb (d.sectors / pageSectors)).encode)) pageSectors =
        d₁.medium.view pageSectors := by
      refine updAll_other fun w hw hw8 => ?_
      have h := (mem_pageWrites hw).1
      rw [hw8] at h
      simp only [pageSectors] at h
      omega
    rw [h8, hat₂.medium.2, hother, hat₁.medium.view, state_ctrl (by decide) (by decide)
      (by simp)]
    decide
  · show d₃.plan i = false
    rw [hat₃.plan]
    exact hq i

end Store

end TablesOS
