import TablesOS.Proofs.Space
import TablesOS.Proofs.Twins

/-!
# The pages below the data pages

The superblock and the journal are not the store's to read, but a made-up row
id can make it read them, and what is read stays in the cache. A cached data
page is what the device has at all times, a cached page below the data pages
only until the next commit, which writes the superblock past the cache. With
handed-out row ids none of them is ever read (`Mirrored.low`), so a reachable
handle has none in its cache (`Reachable.noLow`); and what a refused operation
leaves in the cache, whatever its arguments were, is what the device has
(`call_refused`).
-/

namespace TablesOS

open Prog Codec Journal Medium

namespace Pager

/-! ## What the cache holds -/

/-- Every cached page is what the device has. -/
structure Faithful (T : Nat) (pg : Pager Disk) : Prop where
  size : pg.sb.totalPages = T
  dirty : ∀ p, p ∈ pg.dirty → p < T
  cache : ∀ p x, pg.cache[p]? = some x → p < T ∧ pg.load p = .ok x

/-- A read that the staging set does not answer, of any page. -/
def direct (load : Nat → Outcome StoreError Page) (sb : Superblock) (p : Nat) :
    Outcome StoreError Page :=
  if sb.totalPages ≤ p then .err (.corrupt "page out of range") else load p

/-- No page below the data pages is cached. -/
def NoLow (cache : PageMap) : Prop := ∀ p < firstDataPage, cache[p]? = none

theorem Coherent.faithful {T : Nat} {pg : Pager Disk} (h : Coherent T pg) (hlow : NoLow pg.cache) :
    Faithful T pg := by
  refine ⟨h.size, h.dirty, fun p x hx => ?_⟩
  obtain ⟨hlt, hload⟩ := h.cache p x hx
  by_cases hp : p < firstDataPage
  · rw [hlow p hp] at hx
    cases hx
  · exact ⟨hlt, hload (Nat.not_lt.mp hp)⟩

/-- A read answers what the device has, and leaves what it has read. -/
theorem readPage_direct {T : Nat} {pg : Pager Disk} (h : Faithful T pg) (hq : pg.dev.Quiet)
    (p : Nat) : ∃ r k cache, Pager.readPage p pg =
        (r, ⟨pg.dev.later k, pg.sb, pg.dirty, cache⟩) ∧
      Faithful T ⟨pg.dev.later k, pg.sb, pg.dirty, cache⟩ ∧ (∀ x, r = .ok x → p < T) ∧
      .ofExcept r = (Staged.mk pg.sb pg.dirty).read (direct pg.load) p := by
  unfold Pager.readPage Staged.read direct
  cases hd : pg.dirty[p]? with
  | some x => exact ⟨_, 0, _, rfl, h, fun _ _ => h.dirty p (mem_of_getElem? hd), rfl⟩
  | none =>
      simp only [h.size]
      cases hcache : pg.cache[p]? with
      | some x =>
          obtain ⟨hlt, hload⟩ := h.cache p x hcache
          refine ⟨_, 0, _, rfl, h, fun _ _ => hlt, ?_⟩
          rw [if_neg (by omega), hload]
          rfl
      | none =>
          simp only []
          split
          · exact ⟨_, 0, _, rfl, h, (fun _ hx => by cases hx), rfl⟩
          · next hlt =>
              obtain ⟨k, hdev, hres⟩ := readPage_run pg.dev p zeroedPage
              have hres' := hres.resolve_right fun hf => hq.not_faultIn k hf.2
              unfold onDev
              rcases hr : Journal.readPage p zeroedPage pg.dev with ⟨e | x, d⟩ <;>
                rw [hr] at hdev hres' <;> simp only at hdev hres' <;> subst hdev
              · refine ⟨_, k, _, rfl, ⟨h.size, h.dirty, h.cache⟩, (fun _ hx => by cases hx), ?_⟩
                exact congrArg Outcome.ofExcept hres'
              · have hok : pg.load p = .ok x := (congrArg Outcome.ofExcept hres').symm
                refine ⟨_, k, _, rfl, ⟨h.size, h.dirty, fun q y hq => ?_⟩, fun _ _ => by omega,
                  hok.symm⟩
                rcases getElem?_cacheInsert hq with ⟨rfl, rfl⟩ | ⟨-, hq⟩
                · exact ⟨by omega, hok⟩
                · exact h.cache q y hq

/-- A program on such a pager does what its evaluation does, whatever pages it
reads. -/
theorem runProg_direct {α : Type} {T : Nat} {Q : α → Prop} (prog : PageProg α)
    (hp : KeepsSize T Q prog) : ∀ {pg : Pager Disk}, Faithful T pg → pg.dev.Quiet →
      ∃ o k sb dirty cache, runProg prog pg = (o, ⟨pg.dev.later k, sb, dirty, cache⟩) ∧
        Faithful T ⟨pg.dev.later k, sb, dirty, cache⟩ ∧ (∀ a, o = .ok a → Q a) ∧
        (o, ⟨sb, dirty⟩) = prog.eval (direct pg.load) ⟨pg.sb, pg.dirty⟩ := by
  induction prog with
  | done o => exact fun {pg} h _ => ⟨o, 0, _, _, _, rfl, h, hp, rfl⟩
  | read a k ih =>
      intro pg h hq
      obtain ⟨r, j, cache, hrun, h', hlt, hres⟩ := readPage_direct h hq a
      simp only [runProg, hrun, Prog.eval, ← hres]
      cases r with
      | error e => exact ⟨_, j, _, _, _, rfl, h', (fun _ hx => by cases hx), rfl⟩
      | ok x =>
          obtain ⟨o, i, sb, dirty, cache', hrun', h'', hQ, hres'⟩ :=
            ih x (hp (hlt x rfl) x) h' hq
          refine ⟨o, j + i, sb, dirty, cache', ?_, ?_, hQ, hres'⟩
          · simp only [hrun', Disk.later_later]
          · rw [← Disk.later_later]
            exact h''
  | ctl k ih => exact fun {pg} h hq => ih pg.sb (hp pg.sb h.size) h hq
  | write a x p ih =>
      intro pg h hq
      have h' : Faithful T (pg.writePage a x) := ⟨h.size, fun q hmem => ?_, h.cache⟩
      · exact ih hp.2 h' hq
      rcases Std.TreeMap.mem_insert.mp hmem with haq | hmem
      · rw [← Nat.compare_eq_eq.mp haq]
        exact hp.1
      · exact h.dirty q hmem
  | setCtl sb p ih =>
      intro pg h hq
      have h' : Faithful T { pg with sb } := ⟨hp.1, h.dirty, h.cache⟩
      exact ih hp.2 h' hq

/-! ## They stay out of the cache -/

/-- From `cache` to `cache'` nothing has changed below the data pages; or the cache
was full and has been dropped, which a small volume never comes to. -/
def LowKept (T : Nat) (cache cache' : PageMap) : Prop :=
  ∀ p < firstDataPage, cache'[p]? = cache[p]? ∨ cacheMax ≤ T ∧ cache'[p]? = none

namespace LowKept

variable {T : Nat} {cache cache' cache'' : PageMap}

theorem refl (T : Nat) (cache : PageMap) : LowKept T cache cache := fun _ _ => .inl rfl

theorem trans (h : LowKept T cache cache') (h' : LowKept T cache' cache'') :
    LowKept T cache cache'' := by
  intro p hp
  rcases h' p hp with hsame | hnone
  · rw [hsame]
    exact h p hp
  · exact .inr hnone

theorem noLow (h : LowKept T cache cache') (hlow : NoLow cache) : NoLow cache' := by
  intro p hp
  rcases h p hp with hsame | ⟨-, hnone⟩
  · rw [hsame, hlow p hp]
  · exact hnone

theorem same (h : LowKept T cache cache') (hT : T < cacheMax) {p : Nat} (hp : p < firstDataPage) :
    cache'[p]? = cache[p]? :=
  (h p hp).resolve_right fun hfull => absurd hfull.1 (Nat.not_le.mpr hT)

end LowKept

section Cache

variable {T : Nat} {cache : PageMap}

theorem lowKept_insert (hc : ∀ p ∈ cache, p < T) {q : Nat} (hq : firstDataPage ≤ q) (x : Page) :
    LowKept T cache (cacheInsert cache q x) := by
  intro p hp
  have hne : compare q p ≠ .eq := fun heq => by
    have := Nat.compare_eq_eq.mp heq
    omega
  have hsize := Store.size_le_of_range fun p hp => ⟨Nat.zero_le p, hc p hp⟩
  unfold cacheInsert
  rw [Std.TreeMap.getElem?_insert, if_neg hne]
  split
  · exact .inr ⟨by omega, Std.TreeMap.getElem?_emptyc⟩
  · exact .inl rfl

theorem mem_cacheInsert {p q : Nat} {x : Page} (h : q ∈ cacheInsert cache p x) :
    q = p ∨ q ∈ cache := by
  rw [Std.TreeMap.mem_iff_isSome_getElem?, Option.isSome_iff_exists] at h
  obtain ⟨y, hy⟩ := h
  rcases getElem?_cacheInsert hy with ⟨hqp, -⟩ | ⟨-, hq⟩
  · exact .inl hqp
  · exact .inr (mem_of_getElem? hq)

/-- A commit caches the staged pages. -/
theorem lowKept_insertAll {ws : List (Nat × Page)}
    (hws : ∀ w ∈ ws, firstDataPage ≤ w.1 ∧ w.1 < T) : ∀ {cache : PageMap}, (∀ p ∈ cache, p < T) →
      LowKept T cache (ws.foldl (fun cache w => cacheInsert cache w.1 w.2) cache) := by
  induction ws with
  | nil => exact fun _ => LowKept.refl T _
  | cons w ws ih =>
      intro cache hc
      obtain ⟨hdata, hlt⟩ := hws w List.mem_cons_self
      refine (lowKept_insert hc hdata w.2).trans
        (ih (fun v hv => hws v (List.mem_cons_of_mem _ hv)) fun p hp => ?_)
      rcases mem_cacheInsert hp with rfl | hp
      · exact hlt
      · exact hc p hp

theorem Coherent.cached_lt {pg : Pager Disk} (h : Coherent T pg) : ∀ p ∈ pg.cache, p < T := by
  intro p hp
  rw [Std.TreeMap.mem_iff_isSome_getElem?, Option.isSome_iff_exists] at hp
  obtain ⟨x, hx⟩ := hp
  exact (h.cache p x hx).1

theorem readPage_low {pg : Pager Disk} (h : Coherent T pg) {p : Nat}
    (hr : (Staged.mk pg.sb pg.dirty).read (base pg.load) p ≠ .panic) :
    LowKept T pg.cache (Pager.readPage p pg).2.cache := by
  unfold Pager.readPage
  unfold Staged.read base at hr
  cases hd : pg.dirty[p]? with
  | some x => exact LowKept.refl T _
  | none =>
      simp only [hd] at hr ⊢
      cases hcache : pg.cache[p]? with
      | some x => exact LowKept.refl T _
      | none =>
          simp only []
          split
          · exact LowKept.refl T _
          · next hlt =>
              rw [if_neg hlt] at hr
              have hp : firstDataPage ≤ p := by
                by_contra hlow
                exact hr (if_pos (Nat.not_le.mp hlow))
              unfold onDev
              rcases Journal.readPage p zeroedPage pg.dev with ⟨e | x, d⟩
              · exact LowKept.refl T _
              · exact lowKept_insert h.cached_lt hp x

/-- A program that reads no page below the data pages caches none. -/
theorem runProg_low {α : Type} {Q : α → Prop} (prog : PageProg α) (hp : KeepsSize T Q prog) :
    ∀ {pg : Pager Disk}, Coherent T pg → pg.dev.Quiet →
      (prog.eval (base pg.load) ⟨pg.sb, pg.dirty⟩).1 ≠ .panic →
      LowKept T pg.cache (runProg prog pg).2.cache := by
  induction prog with
  | done o => exact fun _ _ _ => LowKept.refl T _
  | read a k ih =>
      intro pg hc hq hne
      obtain ⟨r, j, cache, hrun, hc', hlt, hres⟩ := readPage_sim hc a
      have hread : (Staged.mk pg.sb pg.dirty).read (base pg.load) a ≠ .panic := by
        intro hpanic
        rw [Prog.eval, hpanic] at hne
        exact hne rfl
      have hlow := readPage_low hc hread
      have hok := hres.resolve_right fun hf =>
        hf.elim (fun hf => hq.not_faultIn j hf.2) hread
      rw [Prog.eval, ← hok] at hne
      rw [hrun] at hlow
      simp only [runProg, hrun]
      cases r with
      | error e => exact hlow
      | ok x => exact hlow.trans (ih x (hp (hlt x rfl) x) hc' hq hne)
  | ctl k ih => exact fun {pg} hc hq hne => ih pg.sb (hp pg.sb hc.size) hc hq hne
  | write a x p ih =>
      intro pg hc hq hne
      have hc' : Coherent T (pg.writePage a x) := ⟨hc.size, fun q hmem => ?_, hc.cache⟩
      · exact ih hp.2 hc' hq hne
      rcases Std.TreeMap.mem_insert.mp hmem with haq | hmem
      · rw [← Nat.compare_eq_eq.mp haq]
        exact hp.1
      · exact hc.dirty q hmem
  | setCtl sb p ih =>
      intro pg hc hq hne
      have hc' : Coherent T { pg with sb } := ⟨hp.1, hc.dirty, hc.cache⟩
      exact ih hp.2 hc' hq hne

theorem commit_low {pg : Pager Disk} (h : Coherent T pg)
    (hdata : ∀ p ∈ pg.dirty, firstDataPage ≤ p) :
    LowKept T pg.cache (Pager.commit pg).2.cache := by
  have hlt := h.cached_lt
  simp only [Pager.commit, onDev]
  split
  · exact LowKept.refl T _
  · rcases Journal.commit _ _ pg.dev with ⟨e | u, d⟩
    · exact LowKept.refl T _
    · refine lowKept_insertAll (fun w hw => ?_) hlt
      have hmem : w.1 ∈ pg.dirty :=
        mem_of_getElem? (Std.TreeMap.mem_toList_iff_getElem?_eq_some.mp hw)
      exact ⟨hdata w.1 hmem, h.dirty w.1 hmem⟩

theorem rollback_cache (pg : Pager Disk) : (rollback pg).2.cache = pg.cache := by
  unfold rollback onDev
  rcases readSuperblock pg.dev with ⟨e | sb, d⟩ <;> rfl

end Cache

end Pager

namespace Store

open Pager

variable {α : Type} {pg : Pager Disk}

theorem tx_low {body : PageProg α} (h : pg.Clean) (hq : pg.dev.Quiet)
    (hb : KeepsSize pg.sb.totalPages (fun _ => True) body) (hne : (pg.attempt body).1 ≠ .panic)
    (hdata : ∀ a s, pg.attempt body = (.ok a, s) → ∀ p ∈ s.dirty, firstDataPage ≤ p) :
    LowKept pg.sb.totalPages pg.cache (tx body pg).2.cache := by
  have hstart : pg.attempt body = body.eval (base pg.load) ⟨pg.sb, pg.dirty⟩ := by
    rw [h.staged]
    rfl
  rw [hstart] at hne
  have hcache := runProg_low body hb h.coherent hq hne
  obtain ⟨o, k, sb, dirty, cache, hrun, hc, -, hres⟩ := runProg_sim body hb h.coherent
  replace hres := hres.resolve_right fun hf => hf.elim (fun hf => hq.not_faultIn k hf.2) hne
  rw [hrun] at hcache
  unfold tx
  rw [hrun]
  cases o with
  | ok r =>
      have hend := hcache.trans
        (commit_low hc (hdata r ⟨sb, dirty⟩ (hstart.trans hres.symm)))
      simp only []
      rcases hcommit : Pager.commit ⟨pg.dev.later k, sb, dirty, cache⟩ with ⟨e | u, pg₁⟩ <;>
        rw [hcommit] at hend
      · rw [rollback_cache]
        exact hend
      · exact hend
  | err e =>
      rw [rollback_cache]
      exact hcache
  | panic => exact hcache
  | diverge => exact hcache

/-- A question that is answered, on the handle. -/
theorem query_run {β : Type} (h : pg.Clean) (hq : pg.dev.Quiet) (q : PageQuery β)
    (hne : pg.ask q ≠ .panic) : ∃ pg', runProg (liftM q) pg = (pg.ask q, pg') ∧ Still pg pg' ∧
      pg'.Clean ∧ LowKept pg.sb.totalPages pg.cache pg'.cache := by
  have hquery : (Prog.ofQuery q).eval (base pg.load) ⟨pg.sb, pg.dirty⟩ =
      (pg.ask q, ⟨pg.sb, pg.dirty⟩) := by
    rw [h.staged, Pager.ask, ← read_nothing_staged]
    exact Prog.eval_query _ _ _
  have hlow := runProg_low (Prog.ofQuery q) (keepsSize_query q) h.coherent hq
    (by rw [hquery]; exact hne)
  obtain ⟨o, k, sb, dirty, cache, hrun, hc, -, hres⟩ :=
    runProg_sim (Prog.ofQuery q) (keepsSize_query q) h.coherent
  rw [hquery] at hres
  replace hres := hres.resolve_right fun hf => hf.elim (fun hf => hq.not_faultIn k hf.2) hne
  injection hres with ho hs
  injection hs with hsb hdirty
  subst ho hsb
  rw [h.staged] at hdirty
  subst hdirty
  rw [hrun] at hlow
  exact ⟨_, hrun, ⟨⟨k, rfl⟩, rfl⟩, h.later k hc, hlow⟩

/-- No operation on handed-out row ids reads below the data pages. -/
theorem Mirrored.low {led : Ledger RowId} {db : Database RowId} (h : Mirrored led pg db)
    {op : Op RowId} (he : led.Covers (.call op)) :
    LowKept pg.sb.totalPages pg.cache (run op pg).2.cache := by
  obtain ⟨hne, hbody⟩ := h.keepsToData he
  obtain ⟨pg₁, hrun, hstill, hclean, hlow⟩ := query_run h.clean h.quiet (method op) hne
  change runProg (Prog.ofQuery (method op)) pg = _ at hrun
  rw [run, call, hrun]
  cases hask : pg.ask (method op) with
  | ok c =>
      cases c with
      | ret a => exact hlow
      | tx body =>
          obtain ⟨hne', hdata⟩ := hbody body hask
          obtain ⟨hsize, -⟩ := call_tx h.clean h.quiet (steady_method op) hask
          rw [← hstill.attempt] at hne' hdata
          rw [← hstill.sb] at hsize hlow ⊢
          exact hlow.trans (tx_low hclean (hstill.quiet h.quiet) hsize hne' hdata)
  | err e => exact hlow
  | panic => exact hlow
  | diverge => exact hlow

theorem any_triple {β : Type} (m : DevM Disk β) :
    Fallible.Triple (fun _ => True) m (fun _ _ => True) fun _ => True := by
  intro d _
  rcases m d with ⟨e | a, d'⟩ <;> trivial

/-- A fresh handle has nothing cached. -/
theorem mount_cache : Fallible.Triple (fun _ : Disk => True) mount (fun pg _ => pg.cache = ∅)
    fun _ => True :=
  (any_triple _).bind fun _ => (any_triple _).bind fun _ _ _ => rfl

theorem format_cache : Fallible.Triple (fun _ : Disk => True) Pager.format
    (fun pg _ => pg.cache = ∅) fun _ => True := by
  refine (any_triple _).bind fun total => Fallible.Triple.ite (fun _ => ?_) fun _ => ?_
  · exact Fallible.Triple.throw fun _ _ => trivial
  · refine (any_triple _).bind fun _ => (any_triple _).bind fun _ => ?_
    exact (any_triple _).bind fun _ _ _ => rfl

theorem noLow_empty : NoLow ∅ := fun _ _ => Std.TreeMap.getElem?_emptyc

/-- The cache of a reachable handle holds no page below the data pages. -/
theorem Reachable.noLow {d : Disk} (hq : d.Quiet) {led : Ledger RowId} {pg : Pager Disk}
    (h : Reachable d led pg) : NoLow pg.cache := by
  induction h with
  | format h =>
      rw [format_cache.ok trivial h]
      exact noLow_empty
  | @event led pg h e he ih =>
      obtain ⟨db, hm⟩ := h.mirrored hq
      cases e with
      | remount =>
          rw [happen]
          unfold openStore
          rcases hmount : mount pg.dev with ⟨err | pg', d'⟩
          · cases err <;> exact ih
          · rw [show pg'.cache = ∅ from mount_cache.ok trivial hmount]
            exact noLow_empty
      | call op => exact (hm.low he).noLow ih

/-! ## After a refusal -/

theorem tx_of_err {body : PageProg α} {e : StoreError} {pg pg' : Pager Disk}
    (h : runProg body pg = (.err e, pg')) : tx body pg = (.err e, (rollback pg').2) := by
  unfold tx
  rw [h]

/-- A refused transaction leaves the cache as its body has left it. -/
theorem tx_err_cache {body : PageProg α} {e : StoreError} {pg pg' : Pager Disk}
    (hrun : tx body pg = (.err e, pg')) : pg'.cache = (runProg body pg).2.cache := by
  unfold tx at hrun
  rcases hp : runProg body pg with ⟨r | e' | _ | _, pg₁⟩ <;> rw [hp] at hrun
  · simp only [Pager.commit, onDev] at hrun
    split at hrun
    · cases hrun
    · next e' pg₂ hcommit =>
        injection hrun with _ hpg
        subst hpg
        rw [rollback_cache]
        split at hcommit
        · cases hcommit
        · rcases hj : Journal.commit _ _ pg₁.dev with ⟨e'' | u, d⟩ <;> rw [hj] at hcommit <;>
            cases hcommit
          rfl
  · injection hrun with _ hpg
    subst hpg
    exact rollback_cache pg₁
  · cases hrun
  · cases hrun

theorem faithful_still {T : Nat} {pg pg' : Pager Disk} (h : Faithful T pg) (hs : Still pg pg')
    (hc : pg'.Clean) {cache : PageMap} (hcache : pg'.cache = cache)
    (hmid : ∀ p x, cache[p]? = some x → p < T ∧ pg.load p = .ok x) : Faithful T pg' := by
  refine ⟨by rw [hs.sb, h.size], fun p hp => ?_, fun p x hx => ?_⟩
  · rw [hc.staged] at hp
    exact absurd hp (not_mem_empty p)
  · rw [hs.load]
    exact hmid p x (hcache ▸ hx)

/-- A refused operation leaves pages in the cache, and each of them is what the
device has. -/
theorem call_refused {m : PageQuery (Call α)} {pg pg' : Pager Disk} (h : pg.Clean)
    (hq : pg.dev.Quiet) (hlow : NoLow pg.cache) (hm : Steady pg.sb.totalPages m) {e : StoreError}
    (hrun : call m pg = (.err e, pg')) :
    Still pg pg' ∧ pg'.Clean ∧ Faithful pg.sb.totalPages pg' := by
  obtain ⟨hstill, hclean⟩ := call_err h hq hm hrun
  refine ⟨hstill, hclean, ?_⟩
  have hf := h.coherent.faithful hlow
  obtain ⟨o, k, sb, dirty, cache, hprog, hf', hsize, -⟩ := runProg_direct _ hm hf hq
  unfold call at hrun
  rw [hprog] at hrun
  cases o with
  | ok c =>
      cases c with
      | ret a => cases hrun
      | tx body =>
          have hend := tx_err_cache hrun
          obtain ⟨o', k', sb', dirty', cache', hbody, hf'', -⟩ :=
            runProg_direct body (hsize _ rfl body rfl) hf' hq
          rw [hbody] at hend
          exact faithful_still hf hstill hclean hend hf''.cache
  | err e' =>
      injection hrun with _ hpg
      subst hpg
      exact faithful_still hf hstill hclean rfl hf'.cache
  | panic => cases hrun
  | diverge => cases hrun

/-- A reading operation is its query. -/
theorem method_reads {op : Op RowId} (hr : op.writes = false) :
    ∃ (β : Type) (f : β → Reply RowId) (q : PageQuery β), method op = answer f q := by
  cases op with
  | listTables => exact ⟨_, _, _, rfl⟩
  | getTable name => exact ⟨_, _, _, rfl⟩
  | scan name => exact ⟨_, _, _, rfl⟩
  | getRow name id => exact ⟨_, _, _, rfl⟩
  | followFk table id fkName => exact ⟨_, _, _, rfl⟩
  | referencingRows table id => exact ⟨_, _, _, rfl⟩
  | _ => cases hr

/-- Where the cache holds what the device has, any read is answered from what the
device has. -/
theorem answer_direct {β : Type} {T : Nat} {pg : Pager Disk} (h : Faithful T pg)
    (hq : pg.dev.Quiet) (hd : pg.dirty = ∅) (f : β → Reply RowId) (q : PageQuery β) :
    (call (answer f q) pg).1 = q.eval (direct pg.load pg.sb) pg.sb >>= fun a => .ok (f a) := by
  obtain ⟨o, k, sb, dirty, cache, hrun, -, -, hres⟩ :=
    runProg_direct (Prog.ofQuery (answer f q)) (steady_answer f q) h hq
  have hread : (Staged.mk pg.sb pg.dirty).read (direct pg.load) = direct pg.load pg.sb := by
    funext p
    unfold Staged.read
    rw [hd, Std.TreeMap.getElem?_emptyc]
  have heval := Prog.eval_query (direct pg.load) (answer f q) ⟨pg.sb, pg.dirty⟩
  change (Prog.ofQuery (answer f q)).eval _ _ = _ at heval
  rw [heval, hread, answer, Query.eval_bind] at hres
  injection hres with ho
  unfold call
  rw [hrun, ho]
  cases q.eval (direct pg.load pg.sb) pg.sb <;> rfl

/-- What reads no page below the data pages is answered as before when those can
be read. -/
theorem direct_of_base {β : Type} {load : Nat → Outcome StoreError Page} {sb : Superblock}
    (q : PageQuery β)
    {o : Outcome StoreError β} (h : q.eval (base load sb) sb = o) (hne : o ≠ .panic) :
    q.eval (direct load sb) sb = o := by
  induction q with
  | done o' => exact h
  | read a k ih =>
      rw [Query.eval] at h ⊢
      unfold base at h
      unfold direct
      split at h
      · next hge =>
          rw [if_pos hge]
          exact h
      · next hlt =>
          rw [if_neg hlt]
          split at h
          · exact absurd h.symm hne
          · cases hl : load a with
            | ok x =>
                rw [hl] at h
                exact ih x h
            | err e => rw [hl] at h; exact h
            | panic => rw [hl] at h; exact h
            | diverge => rw [hl] at h; exact h
  | ctl k ih => exact ih sb h

end Store

end TablesOS
