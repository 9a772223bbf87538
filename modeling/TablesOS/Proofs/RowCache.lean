import TablesOS.Base.Memo
import TablesOS.Proofs.NextValue
import TablesOS.Proofs.Peeks

/-!
# The row cache of the browser

The cache is taken for current while table, filter, sort and commit counter are
those it was filled with. A call on the store moves the counter on by one or
leaves the handle where it was, and the rows of a query depend on the tables
alone, so a cache whose counter has not moved is right. The counter cannot come
back to where it was: the sum that takes it up is checked, and the call that
would take it past `u64` does not return.
-/

namespace TablesOS

open Store Pager

namespace Views

open Asking

/-- The handle and the cache of a UI after any calls that came back and any
queries. -/
inductive Viewing (d : Disk) : Ledger RowId → Pager Disk → Option RowCache → Prop where
  | opened {led : Ledger RowId} {pg : Pager Disk} (h : Reachable d led pg) :
      Viewing d led pg none
  | call {led : Ledger RowId} {pg : Pager Disk} {cache : Option RowCache}
      (h : Viewing d led pg cache) (op : Op RowId) (he : led.Covers (.call op))
      (hback : (runChecked op pg).1.returned) :
      Viewing d (led.after (.call op) (runChecked op pg).1) (runChecked op pg).2 cache
  | query {led : Ledger RowId} {pg pg' : Pager Disk} {cache : Option RowCache} {c : RowCache}
      (h : Viewing d led pg cache) (table : String) (filter : Option (String × Value))
      (sort : Option (ℕ × Bool))
      (hrun : cachedRows table filter sort cache pg = .ok (c, pg')) :
      Viewing d led pg' (some c)

section Cache

variable {d : Disk} {led : Ledger RowId} {pg pg' : Pager Disk} {db : Database RowId}
  {cache : Option RowCache} {c : RowCache}

/-- The cache holds the rows of its query, or the counter has moved since. -/
abbrev CacheKept (generation : ℕ) (db : Database RowId) (c : RowCache) : Prop :=
  Memo.Kept c.generation c.rows generation (queried db c.table c.filter c.sort)

/-- The cache is for this query. -/
theorem of_fresh {table : String} {filter : Option (String × Value)} {sort : Option (ℕ × Bool)}
    {generation : ℕ} (h : c.fresh table filter sort generation = true) :
    c.table = table ∧ c.filter = filter ∧ c.sort = sort ∧ c.generation = generation := by
  simp only [RowCache.fresh, Bool.and_eq_true, decide_eq_true_eq] at h
  exact ⟨h.1.1.1, h.1.1.2, h.1.2, h.2⟩

/-- A query answers from a cache that is for it, or anew. -/
theorem cachedRows_run (h : Mirrored led pg db) (table : String)
    (filter : Option (String × Value)) (sort : Option (ℕ × Bool)) (cache : Option RowCache) :
    ∃ c pg', cachedRows table filter sort cache pg = .ok (c, pg') ∧ Still pg pg' ∧ pg'.Clean ∧
      c.fresh table filter sort pg.sb.generation = true ∧
      (cache = some c ∨ cache ≠ some c ∧ c.rows = queried db table filter sort) := by
  have hstart : cachedRows table filter sort cache pg =
      refilled table filter sort pg.sb.generation
        (cache.filter fun c => c.fresh table filter sort pg.sb.generation) pg := rfl
  rw [hstart]
  rcases hfresh : cache.filter fun c => c.fresh table filter sort pg.sb.generation with _ | c
  · have hnew : Reads led db (refilled table filter sort pg.sb.generation none)
        ⟨table, filter, sort, pg.sb.generation, queried db table filter sort⟩ :=
      (reads_rows table filter sort).bind (reads_pure _)
    obtain ⟨pg', hrun, hstill, hclean⟩ := hnew pg h
    rw [hfresh]
    refine ⟨_, pg', hrun, hstill, hclean, ?_, Or.inr ⟨?_, rfl⟩⟩
    · simp [RowCache.fresh]
    · rintro rfl
      simp [RowCache.fresh] at hfresh
  · obtain ⟨hcache, hc⟩ := Option.filter_eq_some_iff.mp hfresh
    rw [hfresh]
    exact ⟨c, pg, rfl, Still.refl pg, h.clean, hc, Or.inl hcache⟩

/-- A handle that has not moved shows the same rows. -/
theorem queried_still {db' : Database RowId} {led' : Ledger RowId} (h : Mirrored led pg db)
    (hstill : Still pg pg') (h' : Mirrored led' pg' db') (table : String)
    (filter : Option (String × Value)) (sort : Option (ℕ × Bool)) :
    queried db' table filter sort = queried db table filter sort := by
  obtain ⟨pg₁, hrun₁, -⟩ := @reads_rows led _ table filter sort pg' (h.still hstill h'.clean)
  obtain ⟨pg₂, hrun₂, -⟩ := @reads_rows led' _ table filter sort pg' h'
  rw [hrun₁] at hrun₂
  injection hrun₂ with hpair
  exact (congrArg Prod.fst hpair).symm

/-- A call that comes back leaves a cache right, or moves the counter. -/
theorem CacheKept.call {db' : Database RowId} {led' : Ledger RowId}
    (hc : CacheKept pg.sb.generation db c) (h : Mirrored led pg db) {op : Op RowId}
    (he : led.Covers (.call op)) (hback : (runChecked op pg).1.returned)
    (h' : Mirrored led' (run op pg).2 db') : CacheKept (run op pg).2.sb.generation db' c := by
  refine hc.step ?_
  rcases h.commitsOnce he hback with hstill | hgen
  · exact .inr ⟨congrArg Superblock.generation hstill.sb, queried_still h hstill h' _ _ _⟩
  · exact .inl (hgen ▸ Nat.lt_succ_self _)

/-- In every run the cache holds the rows of its query, or the counter has moved. -/
theorem Viewing.kept (hq : d.Quiet) (h : Viewing d led pg cache) :
    ∃ db, Mirrored led pg db ∧ ∀ c, cache = some c → CacheKept pg.sb.generation db c := by
  induction h with
  | opened h =>
      obtain ⟨db, hdb⟩ := h.mirrored hq
      exact ⟨db, hdb, fun c hc => by cases hc⟩
  | @call led pg cache h op he hback ih =>
      obtain ⟨db, hdb, hcache⟩ := ih
      obtain ⟨f, -, -, hnext, -⟩ := happen_mirrored hdb (.call op) he
      rw [runChecked_returned hback]
      exact ⟨_, hnext, fun c hc => (hcache c hc).call hdb he hback hnext⟩
  | @query led pg pg' cache c h table filter sort hrun ih =>
      obtain ⟨db, hdb, hcache⟩ := ih
      obtain ⟨c', pg₁, hrun', hstill, hclean, hfresh, hcase⟩ :=
        cachedRows_run hdb table filter sort cache
      rw [hrun] at hrun'
      cases hrun'
      refine ⟨db, hdb.still hstill hclean, fun c' hc' => ?_⟩
      injection hc' with hc'
      subst hc'
      rw [hstill.sb]
      rcases hcase with hsame | ⟨-, hrows⟩
      · exact hcache c hsame
      · obtain ⟨rfl, rfl, rfl, hgen⟩ := of_fresh hfresh
        rw [CacheKept, ← hgen, ← hrows]
        exact .start

/-- A query answers what the store holds, after any calls and queries. -/
theorem cached_rows_current (hq : d.Quiet) (h : Viewing d led pg cache) (table : String)
    (filter : Option (String × Value)) (sort : Option (ℕ × Bool)) :
    ∃ c rs pg₁ pg₂, cachedRows table filter sort cache pg = .ok (c, pg₁) ∧
      rows table filter sort pg = .ok (rs, pg₂) ∧ c.rows = rs := by
  obtain ⟨db, hdb, hcache⟩ := h.kept hq
  obtain ⟨c, pg₁, hrun, -, -, hfresh, hcase⟩ := cachedRows_run hdb table filter sort cache
  obtain ⟨pg₂, hrows, -⟩ := @reads_rows led _ table filter sort pg hdb
  refine ⟨c, _, pg₁, pg₂, hrun, hrows, ?_⟩
  rcases hcase with hsame | ⟨-, hnew⟩
  · have hkept := hcache c hsame
    obtain ⟨rfl, rfl, rfl, hgen⟩ := of_fresh hfresh
    rw [CacheKept, ← hgen] at hkept
    exact hkept.unmoved.symm
  · exact hnew

end Cache

/-- A cache filled from a table without rows. -/
theorem cachedRows_empty {pg : Pager Disk} (h : Seated wideDisk 2100 [] pg [⟨keys, [], []⟩]) :
    cachedRows "keys" none none none pg =
      .ok (⟨"keys", none, none, pg.sb.generation, []⟩, (run (.scan "keys") pg).2) := by
  have hrun : (run (.scan "keys") pg).1 = .ok (.rows []) :=
    @Mirrored.scan _ _ _ ⟨keys, [], []⟩ h.mirrored (List.mem_singleton_self _)
  have hask : ask (.scan "keys") pg = .ok (.ok (.rows []), (run (.scan "keys") pg).2) := by
    unfold Asking.ask
    rcases hop : run (.scan "keys") pg with ⟨o, pg'⟩
    rw [hop] at hrun
    rw [show o = _ from hrun]
  have hscan : scan "keys" pg = .ok (some [], (run (.scan "keys") pg).2) := by
    unfold Asking.scan
    rw [bind_run hask]
    rfl
  have hrows : rows "keys" none none pg = .ok ([], (run (.scan "keys") pg).2) := by
    unfold rows
    rw [bind_run hscan]
    rfl
  have hnew : refilled "keys" none none pg.sb.generation none pg =
      .ok (⟨"keys", none, none, pg.sb.generation, []⟩, (run (.scan "keys") pg).2) :=
    bind_run hrows _
  exact hnew

/-- The cache is filled while the table is empty; then a row comes. -/
theorem cached_rows_current_opened : ∃ (led : Ledger RowId) (pg : Pager Disk) (cache : RowCache)
    (key : RowId), Viewing wideDisk led pg (some cache) ∧ cache.rows = [] ∧
      ∃ (c : RowCache) (rs : List (RowId × Row)) (pg₁ pg₂ : Pager Disk),
        cachedRows "keys" none none (some cache) pg = .ok (c, pg₁) ∧
          rows "keys" none none pg = .ok (rs, pg₂) ∧ c.rows = rs ∧
          rs = [(key, [some minusOne])] := by
  obtain ⟨pg, h, hgen⟩ := noKeys_seated
  have hv := (Viewing.opened h.reach).query "keys" none none (cachedRows_empty h)
  obtain ⟨hstill, hclean⟩ := @still_of_reads _ _ (.scan "keys") rfl _ h.mirrored trivial
  have hreach := h.reach.event (.call (.scan "keys")) trivial
  have hled : ∀ o : Outcome StoreError (Reply RowId),
      Ledger.after [] (.call (.scan "keys")) o = ([] : Ledger RowId) := fun o => by cases o <;> rfl
  have h₀ : Seated wideDisk 2100 [] (run (.scan "keys") pg).2 [⟨keys, [], []⟩] :=
    ⟨hled _ ▸ hreach, h.mirrored.still hstill hclean, hstill.sb ▸ h.total, h.small⟩
  obtain ⟨key, -, hins, h₁⟩ := @Seated.insert _ _ _ _ _ h₀ _ (List.mem_singleton_self _)
    [some minusOne] rfl keys_room
  have hmoved : ¬ Still (run (.scan "keys") pg).2
      (run (.insert "keys" [some minusOne]) (run (.scan "keys") pg).2).2 := fun hst => by
    have hrows := queried_still h₀.mirrored hst h₁.mirrored "keys" none none
    cases hrows
  have hchecked := @Mirrored.checked _ _ _ h₀.mirrored (.insert "keys" [some minusOne]) trivial
    hmoved
  rw [hstill.sb, if_neg (by omega), show (run (.insert "keys" [some minusOne]) _).1 = _ from hins]
    at hchecked
  have hback : (runChecked (.insert "keys" [some minusOne])
      (run (.scan "keys") pg).2).1.returned := by
    rw [hchecked]
    trivial
  have hv₁ := hv.call (.insert "keys" [some minusOne]) trivial hback
  rw [runChecked_returned hback] at hv₁
  obtain ⟨c, rs, pg₁, pg₂, hrun, hrows, hcur⟩ :=
    cached_rows_current wideDisk_quiet hv₁ "keys" none none
  obtain ⟨pg₃, hrows', -⟩ := reads_rows "keys" none none _ h₁.mirrored
  have hpair := hrows.symm.trans hrows'
  injection hpair with hpair
  exact ⟨_, _, _, key, hv₁, rfl, c, rs, pg₁, pg₂, hrun, hrows, hcur, congrArg Prod.fst hpair⟩

end Views

end TablesOS
