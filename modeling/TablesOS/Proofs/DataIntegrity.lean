import TablesOS.Proofs.Space

/-!
# The data stays in order

What is on the pages of a handle is said without the model: the catalog, and
for every entry the schema and the rows as they are stored, not fitted to the
schema. `Sound` lists what the rows owe to the schemas, column by column, and
`Database.Closed` what the schemas owe to each other. Both hold in every state
that is reached with row ids the store has handed out for the table they are
used on. The code does not check that an id is one of the table: with the id
of another one an update stores cells that the columns do not admit, and a
delete is taken off the wrong row count.
-/

namespace TablesOS

open Prog Codec Journal

namespace Database

variable {ι : Type}

/-- What the rows owe to the schemas, by position. -/
structure Sound (db : Database ι) : Prop where
  arity : ∀ t ∈ db, ∀ r ∈ t.rows, r.2.length = t.schema.columns.length
  types : ∀ t ∈ db, ∀ r ∈ t.rows, ∀ i c v, t.schema.columns[i]? = some c →
    Store.cellAt r.2 i = some v → v.typeOf = c.ty
  notNull : ∀ t ∈ db, ∀ r ∈ t.rows, ∀ i c, t.schema.columns[i]? = some c →
    c.nullable = false → Store.cellAt r.2 i ≠ none
  unique : ∀ t ∈ db, ∀ i c, t.schema.columns[i]? = some c → c.unique = true →
    t.rows.Pairwise fun r r' => Store.cellAt r.2 i ≠ none →
      Store.cellAt r.2 i ≠ Store.cellAt r'.2 i
  references : ∀ t ∈ db, ∀ fk ∈ t.schema.fks, ∃ i, t.schema.columnIndex fk.fromCol = some i ∧
    ∃ u ∈ db, u.schema.name = fk.toTable ∧ ∃ j, u.schema.columnIndex fk.toCol = some j ∧
      ∀ r ∈ t.rows, ∀ v, Store.cellAt r.2 i = some v → ∃ r' ∈ u.rows, Store.cellAt r'.2 j = some v

theorem cell_of_index {t : Table} {row : Row} {name : String} {i : Nat}
    (h : t.columnIndex name = some i) : t.cell row name = Store.cellAt row i := by
  simp [Table.cell, h]

theorem Intact.sound {db : Database ι} (h : db.Intact) : db.Sound := by
  have hcell : ∀ t ∈ db, ∀ i c, t.schema.columns[i]? = some c → ∀ row : Row,
      t.schema.cell row c.name = Store.cellAt row i :=
    fun t ht i c hc row => cell_at (h.tables t ht).columns hc row
  refine ⟨?_, ?_, ?_, ?_, ?_⟩
  · intro t ht r hr
    exact (h.tables t ht).fitted.arity r hr
  · intro t ht r hr i c v hc hv
    refine (h.tables t ht).types r hr c (List.mem_of_getElem? hc) v ?_
    rw [hcell t ht i c hc, hv]
  · intro t ht r hr i c hc hnull
    have hne := (h.tables t ht).notNull r hr c (List.mem_of_getElem? hc) hnull
    rwa [hcell t ht i c hc] at hne
  · intro t ht i c hc hun
    have hd := (h.tables t ht).unique c (List.mem_of_getElem? hc) hun
    simpa only [TableState.Distinct, hcell t ht i c hc] using hd
  · intro t ht fk hfk
    have hkey := h.keys t ht fk hfk
    obtain ⟨c, hc, hcn, u, hu, hun, d, hd, hdn, -⟩ := hkey.closed
    obtain ⟨i, hi⟩ := Table.columnIndex_of_mem hc
    obtain ⟨j, hj⟩ := Table.columnIndex_of_mem hd
    rw [hcn] at hi
    rw [hdn] at hj
    refine ⟨i, hi, u, hu, hun, j, hj, fun r hr v hv => ?_⟩
    have hval : some v ∈ t.values fk.fromCol :=
      TableState.mem_values.mpr ⟨r, hr, (cell_of_index hi).trans hv⟩
    obtain ⟨w, hw, hwn, hmem⟩ := hkey.values v hval
    have hwu : w = u := List.inj_on_of_nodup_map h.names hw hu (hwn.trans hun.symm)
    rw [hwu] at hmem
    obtain ⟨r', hr', hcell'⟩ := TableState.mem_values.mp hmem
    exact ⟨r', hr', (cell_of_index hj).symm.trans hcell'⟩

/-- A table that no key points to restricts nothing. -/
theorem restrict_unkeyed [DecidableEq ι] {db : Database ι} {t : TableState ι}
    (hkeys : ∀ o ∈ db, ∀ fk ∈ o.schema.fks, fk.toTable ≠ t.schema.name) (id : ι) (row : Row)
    (kept : String → Value → Bool) : db.restrict t id row kept = .ok () :=
  restrict_iff.mpr fun o ho fk hfk hto => absurd hto (hkeys o ho fk hfk)

/-- What the schemas owe to each other, they owe without their rows. -/
theorem Closed.of_schemas {db db' : Database ι} (h : db.Closed)
    (hs : db'.map (·.schema) = db.map (·.schema)) : db'.Closed := by
  have hmem : ∀ {sch : Table}, (∃ t ∈ db', t.schema = sch) ↔ ∃ t ∈ db, t.schema = sch := by
    intro sch
    rw [← List.mem_map, hs, List.mem_map]
  refine ⟨?_, ?_, ?_, ?_, ?_⟩
  · have hnames := congrArg (List.map Table.name) hs
    rw [List.map_map, List.map_map] at hnames
    exact hnames ▸ h.names
  · intro t ht
    obtain ⟨u, hu, heq⟩ := hmem.mp ⟨t, ht, rfl⟩
    rw [← heq]
    exact h.columns u hu
  · intro t ht
    obtain ⟨u, hu, heq⟩ := hmem.mp ⟨t, ht, rfl⟩
    rw [← heq]
    exact h.fkNames u hu
  · intro t ht fk hfk
    obtain ⟨u, hu, heq⟩ := hmem.mp ⟨t, ht, rfl⟩
    rw [← heq] at hfk ⊢
    obtain ⟨c, hc, hcn, v, hv, hvn, d, hd, hrest⟩ := h.fks u hu fk hfk
    obtain ⟨w, hw, hwv⟩ := hmem.mpr ⟨v, hv, rfl⟩
    rw [← hwv] at hvn hd
    exact ⟨c, hc, hcn, w, hw, hvn, d, hd, hrest⟩
  · intro t ht
    obtain ⟨u, hu, heq⟩ := hmem.mp ⟨t, ht, rfl⟩
    rw [← heq]
    exact h.refCols u hu

end Database

namespace Store

open Pager

/-! ## What is on the pages -/

/-- The rows of a table as they are stored. -/
def storedRows (e : CatEntry) : PageQuery (List (RowId × Row)) := do
  let rows ← indexCollect e.dataHead
  rows.mapM fun (id, head) => do
    let row ← readRow head
    pure (id, row)

/-- The pages of the handle hold the catalog `es`, and for its entries the
tables `db`. -/
structure OnPages (pg : Pager Disk) (es : List CatEntry) (db : Database RowId) : Prop where
  catalog : pg.ask loadCatalog = .ok es
  tables : List.Forall₂ (fun e t => e.name = t.schema.name ∧
    pg.ask (schemaOf e) = .ok t.schema ∧ pg.ask (storedRows e) = .ok t.rows) es db

/-- The row count of every entry is that of its table. -/
def Counted (es : List CatEntry) (db : Database RowId) : Prop :=
  List.Forall₂ (fun e t => e.rowCount = t.rows.length) es db

theorem storedRows_run {V : Volume} {s : Staged Superblock Page} {avail cat : List Nat}
    {L : List Stored} (h : Readable V s avail cat L) {t : Stored} (ht : t ∈ L) :
    (storedRows t.entry).eval (s.read V.base) s.ctl = .ok t.state.rows := by
  rw [storedRows, Query.eval_bind_ok _ _ (collect_run h ht), Query.eval_mapM, List.mapM_map]
  refine Outcome.mapM_ok fun x hx => ?_
  rw [Function.comp_apply, Query.eval_bind_ok _ _ (h.readRow_run ht (slot_of_live hx))]
  rfl

/-- What the pages hold of readable tables, whatever they owe to each other. -/
theorem onPages_of_readable {pg : Pager Disk} (hc : pg.Clean) {avail cat : List Nat}
    {L : List Stored} (h : Readable (volumeOf pg hc) ⟨pg.sb, ∅⟩ avail cat L) :
    OnPages pg (L.map Stored.entry) (dbOf L) := by
  refine ⟨ask_of_eval hc h.loadCatalog_run, ?_⟩
  rw [dbOf, List.forall₂_map_left_iff, List.forall₂_map_right_iff]
  exact List.forall₂_same.mpr fun t ht => ⟨rfl, ask_of_eval hc (h.schemaOf_run ht),
    ask_of_eval hc (storedRows_run h ht)⟩

/-- A handle whose pages hold the tables `L`, whatever these owe to each other. -/
structure Laid (pg : Pager Disk) (L : List Stored) : Prop where
  clean : pg.Clean
  quiet : pg.dev.Quiet
  readable : ∃ avail cat, Readable (volumeOf pg clean) ⟨pg.sb, ∅⟩ avail cat L

theorem Stores.laid {pg : Pager Disk} {L : List Stored} (h : Stores pg L) : Laid pg L :=
  ⟨h.clean, h.quiet, h.readable⟩

theorem Laid.onPages {pg : Pager Disk} {L : List Stored} (h : Laid pg L) :
    OnPages pg (L.map Stored.entry) (dbOf L) := by
  obtain ⟨avail, cat, hr⟩ := h.readable
  exact onPages_of_readable h.clean hr

/-- The pages hold one database. -/
theorem OnPages.unique {pg : Pager Disk} {es es' : List CatEntry} {db db' : Database RowId}
    (h : OnPages pg es db) (h' : OnPages pg es' db') : es = es' ∧
      db.map (fun t => (t.schema, t.rows)) = db'.map (fun t => (t.schema, t.rows)) := by
  obtain ⟨hcat, ht⟩ := h
  obtain ⟨hcat', ht'⟩ := h'
  rw [hcat] at hcat'
  injection hcat' with hes
  subst hes
  refine ⟨rfl, ?_⟩
  clear hcat
  induction ht generalizing db' with
  | nil =>
      cases ht'
      rfl
  | cons hx _ ih =>
      cases ht' with
      | cons hy hrest =>
          obtain ⟨-, hs, hr⟩ := hx
          obtain ⟨-, hs', hr'⟩ := hy
          rw [hs] at hs'
          rw [hr] at hr'
          injection hs' with hs'
          injection hr' with hr'
          rw [List.map_cons, List.map_cons, hs', hr', ih hrest]

theorem Mirrored.onPages {led : Ledger RowId} {pg : Pager Disk} {db : Database RowId}
    (h : Mirrored led pg db) : ∃ es, OnPages pg es db ∧ Counted es db := by
  obtain ⟨L, hL, rfl⟩ := h.stores
  obtain ⟨avail, cat, hr⟩ := hL.readable
  refine ⟨L.map Stored.entry, onPages_of_readable hL.clean hr, ?_⟩
  rw [Counted, dbOf, List.forall₂_map_left_iff, List.forall₂_map_right_iff]
  exact List.forall₂_same.mpr fun t _ => (length_rows t).symm

/-- Every operation on a reachable handle comes back. -/
theorem Mirrored.returns {led : Ledger RowId} {pg : Pager Disk} {db : Database RowId}
    (h : Mirrored led pg db) {op : Op RowId} (he : led.Covers (.call op)) :
    (run op pg).1.returned := by
  obtain ⟨fresh, -, ho, -, -⟩ := happen_mirrored h (.call op) he
  have ho' : (run op pg).1 = Outcome.ofExcept (db.happen fresh (.call op)).1 := ho
  rw [ho']
  exact Outcome.returned_ofExcept _

/-! ## A transaction that ends in a stage -/

/-- A body that has come to a stage the journal has room for commits it. -/
theorem run_committed {pg : Pager Disk} (hc : pg.Clean) (hq : pg.dev.Quiet) {op : Op RowId}
    {body : PageProg (Reply RowId)} {a : Reply RowId} {s : Staged Superblock Page}
    (hm : (method op).eval ((Staged.mk pg.sb ∅).read (volumeOf pg hc).base) pg.sb =
      .ok (.tx body))
    (hb : body.eval (volumeOf pg hc).base ⟨pg.sb, ∅⟩ = (.ok a, s)) {head : Nat}
    {ps avail : List Nat} {objs : Multiset Obj}
    (hs : Stage (volumeOf pg hc) (withCatalog ⟨pg.sb, ∅⟩ head) ps s avail objs) (hps : ps ≠ [])
    (hhead : head < 2 ^ 64) (hcount : s.dirty.size < jcap) :
    ∃ pg', ∃ hc' : pg'.Clean, run op pg = (.ok a, pg') ∧ pg'.dev.Quiet ∧
      pg'.sb.totalPages = pg.sb.totalPages ∧
      Holds (volumeOf pg' hc') ⟨pg'.sb, ∅⟩ avail objs ∧ pg'.sb.catalogHead = head := by
  obtain ⟨hsize, pg₁, hcall, hstill, hclean, -⟩ :=
    call_tx hc hq (steady_method op) (ask_of_eval hc hm)
  have hatt : pg₁.attempt body = (.ok a, s) := by
    rw [hstill.attempt]
    exact hb
  rw [← hstill.sb] at hsize
  have htotal : pg₁.sb.totalPages = (volumeOf pg hc).total := by
    rw [hstill.sb]
    rfl
  have hcommit := hs.committable rfl hps hhead hcount
  rw [← htotal] at hcommit
  obtain ⟨pg', htx, hc', hq', -, hsb, -, hview⟩ :=
    tx_ok hclean (hstill.quiet hq) hsize hatt hcommit
  refine ⟨pg', hc', hcall.trans htx, hq', ?_, hs.settled hc hc' hsb fun p hp => ?_, ?_⟩
  · rw [hsb]
    exact hs.holds.size
  · obtain ⟨k, hk⟩ := hstill.dev
    rw [hview p hp, hk]
    rfl
  · rw [hsb]
    exact hs.moves.catalog

/-- On a small volume the journal has room for every stage. -/
theorem run_staged {pg : Pager Disk} (hc : pg.Clean) (hq : pg.dev.Quiet)
    (hsmall : pg.sb.totalPages - firstDataPage < jcap) {op : Op RowId}
    {body : PageProg (Reply RowId)} {a : Reply RowId} {s : Staged Superblock Page}
    (hm : (method op).eval ((Staged.mk pg.sb ∅).read (volumeOf pg hc).base) pg.sb =
      .ok (.tx body))
    (hb : body.eval (volumeOf pg hc).base ⟨pg.sb, ∅⟩ = (.ok a, s)) {head : Nat}
    {ps avail : List Nat} {objs : Multiset Obj}
    (hs : Stage (volumeOf pg hc) (withCatalog ⟨pg.sb, ∅⟩ head) ps s avail objs) (hps : ps ≠ [])
    (hhead : head < 2 ^ 64) :
    ∃ pg', ∃ hc' : pg'.Clean, run op pg = (.ok a, pg') ∧ pg'.dev.Quiet ∧
      pg'.sb.totalPages = pg.sb.totalPages ∧ s.dirty.size < jcap ∧
      Holds (volumeOf pg' hc') ⟨pg'.sb, ∅⟩ avail objs ∧ pg'.sb.catalogHead = head := by
  obtain ⟨hsize, pg₁, -, hstill, hclean, -⟩ :=
    call_tx hc hq (steady_method op) (ask_of_eval hc hm)
  have hatt : pg₁.attempt body = (.ok a, s) := by
    rw [hstill.attempt]
    exact hb
  have hcount : s.dirty.size < jcap := by
    rw [← hstill.sb] at hsize hsmall
    refine Nat.lt_of_le_of_lt (size_le_of_range fun p hp => ⟨?_, ?_⟩) hsmall
    · rw [hs.moves.staged] at hp
      exact hs.data p (hp.resolve_left Std.TreeMap.not_mem_emptyc)
    · exact attempt_lt hclean (hstill.quiet hq) hsize hatt p hp
  obtain ⟨pg', hc', hrun, hq', htotal, hholds, hcat⟩ :=
    run_committed hc hq hm hb hs hps hhead hcount
  exact ⟨pg', hc', hrun, hq', htotal, hcount, hholds, hcat⟩

/-- On a small volume a body that has left tables commits them. -/
theorem run_leaves {pg : Pager Disk} (hc : pg.Clean) (hq : pg.dev.Quiet)
    (hsmall : pg.sb.totalPages - firstDataPage < jcap) {op : Op RowId}
    {body : PageProg (Reply RowId)} {a : Reply RowId} {s : Staged Superblock Page}
    {L : List Stored}
    (hm : (method op).eval ((Staged.mk pg.sb ∅).read (volumeOf pg hc).base) pg.sb =
      .ok (.tx body))
    (hb : body.eval (volumeOf pg hc).base ⟨pg.sb, ∅⟩ = (.ok a, s))
    (hl : Leaves (volumeOf pg hc) ⟨pg.sb, ∅⟩ s L) :
    ∃ pg', run op pg = (.ok a, pg') ∧ Laid pg' L ∧ pg'.sb.totalPages = pg.sb.totalPages := by
  obtain ⟨ps, avail, cat, hps, hcat, hs⟩ := hl
  obtain ⟨pg', hc', hrun, hq', htotal, hcount, hholds, hhead⟩ :=
    run_staged hc hq hsmall hm hb hs hps hs.catalog_lt
  exact ⟨pg', hrun, ⟨hc', hq', avail, cat, hholds, hhead, hcat,
    fun qs bytes ho => hs.bytes_lt hcount ho⟩, htotal⟩

/-- A method that answers without a transaction. -/
theorem Laid.answered {pg : Pager Disk} {L : List Stored} (h : Laid pg L) {op : Op RowId}
    {a : Reply RowId} (hm : (method op).eval ((Staged.mk pg.sb ∅).read (volumeOf pg h.clean).base)
      pg.sb = .ok (.ret a)) : (run op pg).1 = .ok a := by
  obtain ⟨pg', hrun, -⟩ := call_ret h.clean h.quiet (steady_method op) (ask_of_eval h.clean hm)
  exact congrArg Prod.fst hrun

/-! ## The id of another table -/

section Stray

variable {V : Volume} {s : Staged Superblock Page} {avail cat : List Nat} {A B C D : List Stored}
  {t u : Stored} {k : Nat} {r : List Nat × Row} {cells : Row}

theorem rowHeadAt_slot (h : Readable V s avail cat (A ++ u :: B))
    (hr : u.slots.getD k none = some r) :
    (rowHeadAt (rowIdAt u.indexPages k)).eval (s.read V.base) s.ctl = .ok (r.1.headD 0) := by
  have hu : u ∈ A ++ u :: B := by simp
  have hk := lt_of_slot hr
  have hmem : some r ∈ u.slots := hr ▸ getD_mem_slots hk
  have hhead := rowHeadAt_run h.holds (Readable.index_mem hu) (k := k) (by simpa [Stored.heads])
  have hne := (headOf_ne_zero h hu hmem).not.mpr (by simp)
  rw [heads_getD hk, hr, if_neg hne] at hhead
  exact hhead

theorem decodeRowFitted_slot (h : Readable V s avail cat (A ++ u :: B))
    (hr : u.slots.getD k none = some r) (n : Nat) :
    (decodeRowFitted (r.1.headD 0) n).eval (s.read V.base) s.ctl = .ok (fit n r.2) := by
  have hu : u ∈ A ++ u :: B := by simp
  have hmem : some r ∈ u.slots := hr ▸ getD_mem_slots (lt_of_slot hr)
  rw [decodeRowFitted, Query.eval_bind_ok _ _ (h.readRow_run hu hmem)]
  rfl

/-- A table that no key points to guards no row. -/
theorem restrict_free {L : List Stored} (h : Readable V s avail cat L) (hc : (dbOf L).Closed)
    {i : Nat} (hi : L[i]? = some t)
    (hkeys : ∀ o ∈ dbOf L, ∀ fk ∈ o.schema.fks, fk.toTable ≠ t.schema.name) (id : RowId) (row : Row)
    (kept : Nat → Value → Bool) (kept' : String → Value → Bool)
    (hk : ∀ col ci key, t.schema.columnIndex col = some ci → kept ci key = kept' col key) :
    (restrict (L.map Stored.entry) i t.schema id row t.schema.name kept).eval
      (s.read V.base) s.ctl = .ok () := by
  rw [@restrict_run _ _ _ _ _ _ _ id row kept kept' h hc hi hk,
    Database.restrict_unkeyed (t := t.state) hkeys]
  rfl

/-- An update of the table `t` with the id of a row of `u`, another table or the
same, is checked against `t` and writes to `u`. -/
theorem update_stray (h : Readable V s avail cat (A ++ u :: B))
    (hc : (dbOf (A ++ u :: B)).Closed) (hL : A ++ u :: B = C ++ t :: D)
    (hr : u.slots.getD k none = some r)
    (hv : (dbOf (A ++ u :: B)).validate t.state cells (some (rowIdAt u.indexPages k)) = .ok ())
    (hres : (dbOf (A ++ u :: B)).restrict t.state (rowIdAt u.indexPages k)
      (fit t.schema.columns.length r.2) (fun col key => t.schema.cell cells col == some key) =
        .ok ())
    (hn : nchunks (encodeRow cells) ≤ avail.length) :
    ∃ body qs s', (update t.schema.name (rowIdAt u.indexPages k) cells).eval (s.read V.base) s.ctl =
        .ok (.tx body) ∧ body.eval V.base s = (.ok (), s') ∧
      Leaves V s s' (A ++ { u with slots := u.slots.set k (some (qs, cells)) } :: B) := by
  obtain ⟨qs, s', he, hl⟩ := exchange_room h hr hn
  refine ⟨_, qs, s', rfl, ?_, hl⟩
  have hhead := rowHeadAt_slot h hr
  have hrow := decodeRowFitted_slot h hr t.schema.columns.length
  rw [hL] at h hc hv hres
  have hget : (C ++ t :: D)[C.length]? = some t := by simp
  have hcheck := validate_run h hc hget cells (some (rowIdAt u.indexPages k))
  rw [hv] at hcheck
  have hguard := @restrict_run _ _ _ _ _ _ _ (rowIdAt u.indexPages k)
    (fit t.schema.columns.length r.2) (fun tci key => cellAt cells tci == some key) _ h hc hget
    (fun col ci key hci => by rw [← Table.cell_eq hci cells])
  rw [hres] at hguard
  rw [opened_tx h (catIndex_at hc.names hget), eval_query_bind _ hcheck, eval_query_bind _ hhead,
    eval_query_bind _ hrow, eval_query_bind _ hguard]
  exact he

/-- The catalog with one off the row count of its entry `i`. -/
def lowered (es : List CatEntry) (i : Nat) (e : CatEntry) : List CatEntry :=
  es.set i { e with rowCount := e.rowCount - 1 }

theorem lowered_names (C : List Stored) (t : Stored) (D : List Stored) :
    (lowered ((C ++ t :: D).map Stored.entry) C.length t.entry).map (·.name) =
      (dbOf (C ++ t :: D)).map (·.schema.name) :=
  (names_set _ (entry_at C t D) (by rfl)).trans (names_entries _)

theorem lowered_small {L : List Stored} (h : Readable V s avail cat L) (ht : t ∈ L) {i : Nat}
    {e : CatEntry} (he : e ∈ lowered (L.map Stored.entry) i t.entry) :
    e.schemaHead < 2 ^ 64 ∧ e.dataHead < 2 ^ 64 ∧ e.rowCount < 2 ^ 64 := by
  rcases List.mem_or_eq_of_mem_set he with he | rfl
  · obtain ⟨v, hv, rfl⟩ := List.mem_map.mp he
    exact h.entry_small hv
  · obtain ⟨hschema, hdata, hrows⟩ := h.entry_small ht
    exact ⟨hschema, hdata, Nat.lt_of_le_of_lt (Nat.sub_le _ _) hrows⟩

/-- A delete from the table `t` with the id of a row of `u` takes the row out
of `u`, and one off the row count of `t`. -/
theorem delete_stray (h : Readable V s avail cat (A ++ u :: B))
    (hc : (dbOf (A ++ u :: B)).Closed) (hL : A ++ u :: B = C ++ t :: D)
    (hr : u.slots.getD k none = some r)
    (hkeys : ∀ o ∈ dbOf (A ++ u :: B), ∀ fk ∈ o.schema.fks, fk.toTable ≠ t.schema.name)
    (hn : Database.catalogPages (dbOf (A ++ u :: B)) ≤ avail.length) :
    ∃ body s' cat' ps avail', (delete t.schema.name (rowIdAt u.indexPages k)).eval
        (s.read V.base) s.ctl = .ok (.tx body) ∧ body.eval V.base s = (.ok (), s') ∧
      ps ≠ [] ∧ Stage V (withCatalog s (cat'.headD 0)) ps s' avail'
        (.blob cat' (encodeCatalog (lowered ((A ++ u :: B).map Stored.entry) C.length t.entry)) ::ₘ
          tableObjs (A ++ { u with slots := u.slots.set k none } :: B)) := by
  obtain ⟨s₁, s₂, he₁, he₂, h₂⟩ := clear_ok h hr
  have hle := nchunks_catalog (hL ▸ lowered_names C t D :
    (lowered ((A ++ u :: B).map Stored.entry) C.length t.entry).map (·.name) = _)
  obtain ⟨s', he, hs⟩ := storeCatalog_room h₂ (h₂.moves.catalog.trans h.catalog)
    (show nchunks (encodeCatalog (lowered ((A ++ u :: B).map Stored.entry) C.length t.entry)) ≤
      (r.1.reverse ++ avail).length by
        rw [List.length_append]
        omega)
  refine ⟨_, s', _, _, _, rfl, ?_, ?_, hs⟩
  · have hhead := rowHeadAt_slot h hr
    have hrow := decodeRowFitted_slot h hr t.schema.columns.length
    rw [hL] at h hc hkeys he
    have hget : (C ++ t :: D)[C.length]? = some t := by simp
    have hguard := restrict_free h hc hget hkeys (rowIdAt u.indexPages k)
      (fit t.schema.columns.length r.2) (fun _ _ => false) (fun _ _ => false)
      (fun _ _ _ _ => rfl)
    rw [opened_tx h (catIndex_at hc.names hget), eval_query_bind _ hhead, eval_query_bind _ hrow,
      eval_query_bind _ hguard, eval_bind_ok _ he₁, eval_bind_ok _ he₂]
    exact he
  · simp

/-- How many live slots an index has. -/
theorem length_liveRows (ips slots : List Nat) :
    (liveRows ips slots).length = slots.countP (· ≠ 0) := by
  have hloop : ∀ f : Nat → RowId, ((List.range slots.length).filterMap fun k =>
      if slots.getD k 0 ≠ 0 then some (f k, slots.getD k 0) else none).length =
        slots.countP (· ≠ 0) := by
    induction slots with
    | nil => exact fun _ => rfl
    | cons x xs ih =>
        intro f
        rw [List.length_cons, List.range_succ_eq_map, List.filterMap_cons, List.filterMap_map,
          List.countP_cons, ← ih fun k => f (k + 1)]
        by_cases hx : x = 0 <;> simp [hx]
  exact hloop (rowIdAt ips)

/-- A slot cleared is one live slot fewer. -/
theorem fewer_live (h : Readable V s avail cat (A ++ u :: B))
    (hr : u.slots.getD k none = some r) :
    (liveRows u.indexPages (Stored.heads { u with slots := u.slots.set k none })).length + 1 =
      u.state.rows.length := by
  have hu : u ∈ A ++ u :: B := by simp
  have hk : k < u.heads.length := by simpa [Stored.heads] using lt_of_slot hr
  have hhead : u.heads[k] ≠ 0 := by
    rw [← List.getD_eq_getElem _ 0 hk, heads_getD (lt_of_slot hr), hr]
    exact (headOf_ne_zero h hu (hr ▸ getD_mem_slots (lt_of_slot hr))).not.mpr (by simp)
  have hpos : 0 < u.heads.countP (· ≠ 0) :=
    List.countP_pos_iff.mpr ⟨_, List.getElem_mem hk, by simpa using hhead⟩
  have hheads : Stored.heads { u with slots := u.slots.set k none } = u.heads.set k 0 :=
    List.map_set
  have hlive := congrArg List.length (liveRows_eq h hu)
  have hset : (u.heads.set k 0).countP (· ≠ 0) = u.heads.countP (· ≠ 0) - 1 := by
    rw [List.countP_set hk]
    simp [hhead]
  rw [length_liveRows, List.length_map] at hlive
  rw [length_liveRows, hheads, length_rows, ← hlive, hset]
  omega

end Stray

/-! ## What a stray id does to the handle -/

section Runs

variable {led : Ledger RowId} {pg : Pager Disk} {db : Database RowId} {t u : TableState RowId}
  {id : RowId} {row cells : Row}

/-- A row of the model, in its slot. -/
theorem slot_of_row {L : List Stored} (hn : ((dbOf L).map (·.schema.name)).Nodup)
    (hu : u ∈ dbOf L) (hrow : (id, row) ∈ u.rows) :
    ∃ A w B k r, L = A ++ w :: B ∧ w.state = u ∧ w.slots.getD k none = some r ∧
      rowIdAt w.indexPages k = id ∧ r.2 = row := by
  obtain ⟨A, w, B, rfl, rfl, -⟩ := Seated.split hn hu
  obtain ⟨x, hx, heq⟩ := mem_rows hrow
  obtain ⟨k, -, hr, hid⟩ := mem_live.mp hx
  injection heq with hid' hrow'
  exact ⟨A, w, B, k, x.2, rfl, rfl, hr, hid.trans hid'.symm, hrow'.symm⟩

/-- An update of the table `t` with the id of a row of `w`, run on a handle. -/
theorem Laid.update_slot {A B C D : List Stored} {w t : Stored} {k : Nat} {r : List Nat × Row}
    (hL : Laid pg (A ++ w :: B)) (hsmall : pg.sb.totalPages - firstDataPage < jcap)
    (hc : (dbOf (A ++ w :: B)).Closed) (hT : A ++ w :: B = C ++ t :: D)
    (hslot : w.slots.getD k none = some r)
    (hv : (dbOf (A ++ w :: B)).validate t.state cells (some (rowIdAt w.indexPages k)) = .ok ())
    (hres : (dbOf (A ++ w :: B)).restrict t.state (rowIdAt w.indexPages k)
      (fit t.schema.columns.length r.2) (fun col key => t.schema.cell cells col == some key) =
        .ok ())
    (hn : nchunks (encodeRow cells) + (dbOf (A ++ w :: B)).pages ≤
      pg.sb.totalPages - firstDataPage) :
    ∃ pg' qs, run (.update t.schema.name (rowIdAt w.indexPages k) cells) pg = (.ok .done, pg') ∧
      Laid pg' (A ++ { w with slots := w.slots.set k (some (qs, cells)) } :: B) ∧
      pg'.sb.totalPages = pg.sb.totalPages := by
  obtain ⟨avail, cat, hr⟩ := hL.readable
  have hroom := hr.room
  have htotal : (volumeOf pg hL.clean).total = pg.sb.totalPages := rfl
  obtain ⟨body, qs, s', hm, hb, hl⟩ := update_stray hr hc hT hslot hv hres (by omega)
  have hm' : (method (.update t.schema.name (rowIdAt w.indexPages k) cells)).eval
      ((Staged.mk pg.sb ∅).read (volumeOf pg hL.clean).base) pg.sb =
        .ok (.tx ((fun _ => .done) <$> body)) := (Query.eval_bind_ok _ _ hm).trans rfl
  have hb' : ((fun _ => .done) <$> body : PageProg (Reply RowId)).eval
      (volumeOf pg hL.clean).base ⟨pg.sb, ∅⟩ = (.ok .done, s') := (eval_bind_ok _ hb).trans rfl
  obtain ⟨pg', hrun, hL', htotal'⟩ := run_leaves hL.clean hL.quiet hsmall hm' hb' hl
  exact ⟨pg', qs, hrun, hL', htotal'⟩

/-- With the id of a row of `u`, an update of `t` puts its cells into `u`. -/
theorem Laid.update {L : List Stored} (hL : Laid pg L)
    (hsmall : pg.sb.totalPages - firstDataPage < jcap) (hc : (dbOf L).Closed) (ht : t ∈ dbOf L)
    (hu : u ∈ dbOf L) (hrow : (id, row) ∈ u.rows)
    (hv : (dbOf L).validate t cells (some id) = .ok ())
    (hres : (dbOf L).restrict t id (fit t.schema.columns.length row)
      (fun col key => t.schema.cell cells col == some key) = .ok ())
    (hn : nchunks (encodeRow cells) + (dbOf L).pages ≤ pg.sb.totalPages - firstDataPage) :
    ∃ pg' L', run (.update t.schema.name id cells) pg = (.ok .done, pg') ∧ Laid pg' L' ∧
      pg'.sb.totalPages = pg.sb.totalPages ∧ dbOf L' = (dbOf L).replace u.schema.name fun u =>
        { u with rows := u.rows.map fun r => if r.1 = id then (id, cells) else r } := by
  obtain ⟨avail, cat, hr⟩ := hL.readable
  obtain ⟨A, w, B, k, r, rfl, rfl, hslot, rfl, rfl⟩ := slot_of_row hc.names hu hrow
  obtain ⟨C, t, D, hT, rfl, -⟩ := Seated.split hc.names ht
  obtain ⟨pg', qs, hrun, hL', htotal⟩ := hL.update_slot hsmall hc hT hslot hv hres hn
  have hstate := @state_replaced _ _ _ _ _ w hr (by simp) k r (qs, cells) hslot
  exact ⟨pg', _, hrun, hL', htotal, dbOf_replace hc hstate.symm⟩

/-- A row is answered as it is stored, fitted to the schema. -/
theorem Laid.getRow {L : List Stored} (hL : Laid pg L)
    (hnames : ((dbOf L).map (·.schema.name)).Nodup) (hu : u ∈ dbOf L) (hrow : (id, row) ∈ u.rows) :
    (run (.getRow u.schema.name id) pg).1 = .ok (.row (fit u.schema.columns.length row)) := by
  obtain ⟨avail, cat, hr⟩ := hL.readable
  obtain ⟨A, w, B, k, r, rfl, rfl, hslot, rfl, rfl⟩ := slot_of_row hnames hu hrow
  have hget : (A ++ w :: B)[A.length]? = some w := by simp
  refine hL.answered ((Query.eval_bind_ok _ _ ?_).trans rfl)
  rw [Stored.state_schema, Store.getRow, opened hr (catIndex_at hnames hget),
    Query.eval_bind_ok _ _ (rowHeadAt_slot hr hslot)]
  exact decodeRowFitted_slot hr hslot _

/-- With the id of a row of `u`, a delete from another table, one that no key
points to, takes the row out of `u` and leaves the row count of `u`. -/
theorem run_delete_stray (h : Mirrored led pg db)
    (hsmall : pg.sb.totalPages - firstDataPage < jcap) (ht : t ∈ db) (hu : u ∈ db) (hne : t ≠ u)
    (hrow : (id, row) ∈ u.rows)
    (hkeys : ∀ o ∈ db, ∀ fk ∈ o.schema.fks, fk.toTable ≠ t.schema.name)
    (hn : db.catalogPages + db.pages ≤ pg.sb.totalPages - firstDataPage) :
    ∃ pg' es e rows, run (.delete t.schema.name id) pg = (.ok .done, pg') ∧
      pg'.ask loadCatalog = .ok es ∧ e ∈ es ∧ e.rowCount = u.rows.length ∧
      pg'.ask (indexCollect e.dataHead) = .ok rows ∧ rows.length + 1 = u.rows.length := by
  obtain ⟨L, hL, rfl⟩ := h.stores
  have hc := hL.intact.closed
  obtain ⟨avail, cat, hr⟩ := hL.readable
  have hroom := hr.room
  have htotal : (volumeOf pg hL.clean).total = pg.sb.totalPages := rfl
  obtain ⟨A, w, B, k, r, rfl, rfl, hslot, rfl, rfl⟩ := slot_of_row hc.names hu hrow
  obtain ⟨C, t, D, hT, rfl, -⟩ := Seated.split hc.names ht
  obtain ⟨body, s', cat', ps, avail', hm, hb, hps, hs⟩ :=
    delete_stray hr hc hT hslot hkeys (by omega)
  have hm' : (method (.delete t.schema.name (rowIdAt w.indexPages k))).eval
      ((Staged.mk pg.sb ∅).read (volumeOf pg hL.clean).base) pg.sb =
        .ok (.tx ((fun _ => .done) <$> body)) := (Query.eval_bind_ok _ _ hm).trans rfl
  have hb' : ((fun _ => .done) <$> body : PageProg (Reply RowId)).eval
      (volumeOf pg hL.clean).base ⟨pg.sb, ∅⟩ = (.ok .done, s') := (eval_bind_ok _ hb).trans rfl
  obtain ⟨pg', hc', hrun, -, -, hcount, hholds, hhead⟩ :=
    run_staged hL.clean hL.quiet hsmall hm' hb' hs hps (hs.head_lt (Multiset.mem_cons_self _ _))
  have hplace : C.length ≠ A.length := by
    intro hlen
    have hpair := List.append_inj hT hlen.symm
    injection hpair.2 with hwt
    exact hne (congrArg Stored.state hwt).symm
  have hentry : w.entry ∈ lowered ((A ++ w :: B).map Stored.entry) C.length t.entry := by
    refine List.mem_of_getElem? (i := A.length) ?_
    rw [lowered, List.getElem?_set_ne hplace]
    simp
  have hblob := Multiset.mem_cons_self
    (Obj.blob cat' (encodeCatalog (lowered ((A ++ w :: B).map Stored.entry) C.length t.entry)))
    (tableObjs (A ++ { w with slots := w.slots.set k none } :: B))
  have hw : { w with slots := w.slots.set k none } ∈
    A ++ { w with slots := w.slots.set k none } :: B := by simp
  have hindex : Obj.index w.indexPages (Stored.heads { w with slots := w.slots.set k none }) ∈
      tableObjs (A ++ { w with slots := w.slots.set k none } :: B) :=
    Multiset.mem_of_le (objs_le_tableObjs hw)
      (Multiset.mem_cons_of_mem (Multiset.mem_cons_self _ _))
  refine ⟨pg', _, w.entry, _, hrun, ask_of_eval hc' (loadCatalog_blob hholds hblob hhead
    (hs.bytes_lt hcount hblob) ?_), hentry, (length_rows w).symm,
      ask_of_eval hc' (indexCollect_run hholds (Multiset.mem_cons_of_mem hindex)),
      fewer_live hr hslot⟩
  exact fun e he => lowered_small hr (by simp [hT]) he

end Runs

/-! ## Two small tables -/

/-- Texts, and numbers. -/
def notes : Table := ⟨"notes", [⟨"text", .string, true, false, none⟩], [], []⟩
def counts : Table := ⟨"counts", [⟨"n", .integer, true, false, none⟩], [], []⟩

/-- No note, and one count, which is `NULL`. -/
def oneCount (id : RowId) : Database RowId := [⟨notes, [], []⟩, ⟨counts, [(id, [none])], [id]⟩]

/-- The calls that lead there. -/
def countCalls : List (StoreEvent RowId) :=
  [.call (.createTable "notes"), .call (.addColumn "notes" ⟨"text", .string, true, false, none⟩),
    .call (.createTable "counts"), .call (.addColumn "counts" ⟨"n", .integer, true, false, none⟩),
    .call (.insert "counts" [none])]

theorem oneCount_room (id : RowId) :
    nchunks (encodeRow [some (.str "one")]) + (oneCount id).pages ≤ 2100 - firstDataPage ∧
      (oneCount id).catalogPages + (oneCount id).pages ≤ 2100 - firstDataPage := by
  have hcat : (oneCount id).catalogPages = Database.catalogPages
      [⟨notes, [], []⟩, ⟨counts, [((), [none])], [()]⟩] := rfl
  have hpages : (oneCount id).pages = Database.pages
      [⟨notes, [], []⟩, ⟨counts, [((), [none])], [()]⟩] := rfl
  rw [hcat, hpages]
  decide

theorem history_call {pg pg' : Pager Disk} {op : Op RowId}
    {o : Outcome StoreError (Reply RowId)} (h : run op pg = (o, pg'))
    (es : List (StoreEvent RowId)) :
    history (.call op :: es) pg = (o :: (history es pg').1, (history es pg').2) := by
  have hhappen : happen (.call op) pg = (o, pg') := h
  rw [history_cons, hhappen]

theorem oneCount_seated : ∃ pg id pg', formatStore wideDisk = (.ok pg, pg.dev) ∧
    history countCalls pg =
      ([.ok .done, .ok .done, .ok .done, .ok .done, .ok (.inserted id)], pg') ∧
    Seated wideDisk 2100 [("counts", id)] pg' (oneCount id) := by
  obtain ⟨pg, hformat, h⟩ := wideDisk_seated
  obtain ⟨pg₁, hrun₁, h₁⟩ : ∃ pg', run (.createTable "notes") pg = (.ok .done, pg') ∧
      Seated wideDisk 2100 [] pg' [⟨Table.new "notes", [], []⟩] := by
    obtain ⟨ha, h'⟩ := @Seated.createTable _ _ _ _ _ h "notes" (by decide) (by simp) (by decide)
    exact ⟨_, Prod.ext ha rfl, h'⟩
  obtain ⟨pg₂, hrun₂, h₂⟩ : ∃ pg', run (.addColumn "notes" ⟨"text", .string, true, false, none⟩)
      pg₁ = (.ok .done, pg') ∧ Seated wideDisk 2100 [] pg' [⟨notes, [], []⟩] := by
    obtain ⟨ha, h'⟩ := @Seated.addColumn _ _ _ _ _ h₁ _ (List.mem_singleton_self _)
      ⟨"text", .string, true, false, none⟩ rfl rfl rfl (by decide) _ rfl
    exact ⟨_, Prod.ext ha rfl, h'⟩
  obtain ⟨pg₃, hrun₃, h₃⟩ : ∃ pg', run (.createTable "counts") pg₂ = (.ok .done, pg') ∧
      Seated wideDisk 2100 [] pg' [⟨notes, [], []⟩, ⟨Table.new "counts", [], []⟩] := by
    obtain ⟨ha, h'⟩ := @Seated.createTable _ _ _ _ _ h₂ "counts" (by decide) (by simp [notes])
      (by decide)
    exact ⟨_, Prod.ext ha rfl, h'⟩
  obtain ⟨pg₄, hrun₄, h₄⟩ : ∃ pg', run (.addColumn "counts" ⟨"n", .integer, true, false, none⟩)
      pg₃ = (.ok .done, pg') ∧
        Seated wideDisk 2100 [] pg' [⟨notes, [], []⟩, ⟨counts, [], []⟩] := by
    obtain ⟨ha, h'⟩ := @Seated.addColumn _ _ _ _ _ h₃ ⟨Table.new "counts", [], []⟩ (by simp)
      ⟨"n", .integer, true, false, none⟩ rfl rfl rfl (by decide) _ rfl
    exact ⟨_, Prod.ext ha rfl, h'⟩
  obtain ⟨id, -, ha, h₅⟩ := @Seated.insert _ _ _ _ _ h₄ ⟨counts, [], []⟩ (by simp) [none] rfl
    (by decide)
  have hrun₅ : run (.insert "counts" [none]) pg₄ = (.ok (.inserted id), _) := Prod.ext ha rfl
  refine ⟨pg, id, _, hformat, ?_, h₅⟩
  rw [countCalls, history_call hrun₁, history_call hrun₂, history_call hrun₃, history_call hrun₄,
    history_call hrun₅]
  rfl

theorem history_append (es fs : List (StoreEvent RowId)) (pg : Pager Disk) :
    (history (es ++ fs) pg).2 = (history fs (history es pg).2).2 := by
  induction es generalizing pg with
  | nil => rfl
  | cons e es ih =>
      rw [List.cons_append, history_cons, history_cons]
      exact ih _

theorem answers_append (es fs : List (StoreEvent RowId)) (pg : Pager Disk) :
    (history (es ++ fs) pg).1 = (history es pg).1 ++ (history fs (history es pg).2).1 := by
  induction es generalizing pg with
  | nil => rfl
  | cons e es ih =>
      rw [List.cons_append, history_cons, history_cons]
      exact congrArg _ (ih _)

/-! ## Constraints -/

/-- In every reachable state the rows on the pages satisfy the constraints of
the schemas on the pages. -/
theorem data_integrity {d : Disk} (hq : d.Quiet) {led : Ledger RowId} {pg : Pager Disk}
    (h : Reachable d led pg) : ∃ es db, OnPages pg es db ∧ db.Sound := by
  obtain ⟨db, hdb⟩ := h.mirrored hq
  obtain ⟨es, hpages, -⟩ := hdb.onPages
  exact ⟨es, db, hpages, hdb.intact.sound⟩

theorem data_integrity_family : ∃ ann bob pg es db,
    Reachable wideDisk [("people", ann), ("people", bob)] pg ∧ OnPages pg es db ∧ db.Sound := by
  obtain ⟨ann, bob, pg, h⟩ := family_seated
  obtain ⟨es, db, hpages, hsound⟩ := data_integrity wideDisk_quiet h.reach
  exact ⟨ann, bob, pg, es, db, h.reach, hpages, hsound⟩

/-- A text in the column of numbers: the row of `counts` is updated as one of
`notes`. -/
theorem text_among_counts : ∃ pg id, formatStore wideDisk = (.ok pg, pg.dev) ∧
    (history countCalls pg).1 =
      [.ok .done, .ok .done, .ok .done, .ok .done, .ok (.inserted id)] ∧
    ¬ ∃ es db, OnPages (history (countCalls ++
      [.call (.update "notes" id [some (.str "one")])]) pg).2 es db ∧ db.Sound := by
  obtain ⟨pg, id, pg', hformat, hcalls, h⟩ := oneCount_seated
  refine ⟨pg, id, hformat, congrArg Prod.fst hcalls, ?_⟩
  rw [history_append, hcalls]
  obtain ⟨L, hL, hdb⟩ := h.mirrored.stores
  have hroom := (oneCount_room id).1
  have hkeys : ∀ o ∈ oneCount id, ∀ fk ∈ o.schema.fks, fk.toTable ≠ notes.name := by
    simp [oneCount, notes, counts]
  have hmem : ⟨notes, [], []⟩ ∈ oneCount id ∧ ⟨counts, [(id, [none])], [id]⟩ ∈ oneCount id := by
    simp [oneCount]
  rw [← h.total, ← hdb] at hroom
  rw [← hdb] at hkeys hmem
  obtain ⟨pg'', L', hrun, hL', -, hdb'⟩ := @Laid.update _ _ _ id [none] [some (.str "one")] L
    hL.laid (h.total ▸ h.small) hL.intact.closed hmem.1 hmem.2 (List.mem_singleton_self _)
    (hdb ▸ rfl) (Database.restrict_unkeyed hkeys _ _ _) hroom
  have hpages := hL'.onPages
  rw [hdb', hdb] at hpages
  have hrun' : (history [.call (.update "notes" id [some (.str "one")])] pg').2 = pg'' :=
    congrArg Prod.snd hrun
  rw [hrun']
  rintro ⟨es', db', hpages', hsound⟩
  obtain ⟨-, hdb⟩ := hpages.unique hpages'
  have hmem : (counts, [(id, [some (.str "one")])]) ∈ db'.map fun t => (t.schema, t.rows) := by
    rw [← hdb]
    simp [Database.replace, oneCount, notes, counts]
  obtain ⟨t, ht, heq⟩ := List.mem_map.mp hmem
  injection heq with hschema hrows
  have htype := hsound.types t ht (id, [some (.str "one")]) (by simp [hrows]) 0
    ⟨"n", .integer, true, false, none⟩ (.str "one") (by simp [hschema, counts]) rfl
  cases htype

/-! ## Schemas -/

/-- In every reachable state the schemas on the pages are closed and the catalog
counts the rows; and every operation comes back, with an answer or an error. -/
theorem schema_closure {d : Disk} (hq : d.Quiet) {led : Ledger RowId} {pg : Pager Disk}
    (h : Reachable d led pg) : (∃ es db, OnPages pg es db ∧ db.Closed ∧ Counted es db) ∧
      ∀ op, led.Covers (.call op) → (run op pg).1.returned := by
  obtain ⟨db, hdb⟩ := h.mirrored hq
  obtain ⟨es, hpages, hcounted⟩ := hdb.onPages
  exact ⟨⟨es, db, hpages, hdb.intact.closed, hcounted⟩, fun op he => hdb.returns he⟩

theorem schema_closure_family : ∃ ann bob pg,
    Reachable wideDisk [("people", ann), ("people", bob)] pg ∧
    (∃ es db, OnPages pg es db ∧ db.Closed ∧ Counted es db) ∧
    (run (.followFk "people" bob "parent_fk") pg).1.returned := by
  obtain ⟨ann, bob, pg, h⟩ := family_seated
  obtain ⟨hclosed, hreturns⟩ := schema_closure wideDisk_quiet h.reach
  exact ⟨ann, bob, pg, h.reach, hclosed, hreturns _ (show ("people", bob) ∈ _ by simp)⟩

theorem length_storedRows {pg : Pager Disk} {e : CatEntry} {rows : List (RowId × Nat)}
    {stored : List (RowId × Row)} (hrows : pg.ask (indexCollect e.dataHead) = .ok rows)
    (h : pg.ask (storedRows e) = .ok stored) : stored.length = rows.length := by
  rw [Pager.ask] at hrows h
  rw [storedRows, Query.eval_bind_ok _ _ hrows, Query.eval_mapM] at h
  exact Outcome.length_mapM h

/-- Where the catalog counts the rows, it counts the live slots. -/
theorem OnPages.count {pg : Pager Disk} {es : List CatEntry} {db : Database RowId}
    (h : OnPages pg es db) (hcounted : Counted es db) {e : CatEntry} (he : e ∈ es)
    {rows : List (RowId × Nat)} (hrows : pg.ask (indexCollect e.dataHead) = .ok rows) :
    e.rowCount = rows.length := by
  have htables := h.tables
  clear h
  induction htables with
  | nil => cases he
  | cons hx _ ih =>
      cases hcounted with
      | cons hn hrest =>
          rcases List.mem_cons.mp he with rfl | he
          · rw [hn, length_storedRows hrows hx.2.2]
          · exact ih hrest he

/-- The row of `counts` is deleted as one of `notes`, and is still counted. -/
theorem deleted_row_counted : ∃ pg id, formatStore wideDisk = (.ok pg, pg.dev) ∧
    (history countCalls pg).1 =
      [.ok .done, .ok .done, .ok .done, .ok .done, .ok (.inserted id)] ∧
    ¬ ∃ es db, OnPages (history (countCalls ++ [.call (.delete "notes" id)]) pg).2 es db ∧
      db.Closed ∧ Counted es db := by
  obtain ⟨pg, id, pg', hformat, hcalls, h⟩ := oneCount_seated
  refine ⟨pg, id, hformat, congrArg Prod.fst hcalls, ?_⟩
  rw [history_append, hcalls]
  obtain ⟨pg'', es, e, rows, hrun, hcat, he, hold, hrows, hfewer⟩ := @run_delete_stray _ _ _
    ⟨notes, [], []⟩ ⟨counts, [(id, [none])], [id]⟩ id [none] h.mirrored (h.total ▸ h.small)
    (by simp [oneCount]) (by simp [oneCount]) (by simp [notes, counts]) (by simp)
    (by simp [oneCount, notes, counts]) (h.total ▸ (oneCount_room id).2)
  have hrun' : (history [.call (.delete "notes" id)] pg').2 = pg'' := congrArg Prod.snd hrun
  rw [hrun']
  rintro ⟨es', db', hpages, -, hcounted⟩
  have hes := hpages.catalog
  rw [hcat] at hes
  injection hes with hes
  subst hes
  have hcount := hpages.count hcounted he hrows
  omega

end Store

end TablesOS
