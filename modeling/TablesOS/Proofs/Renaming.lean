import TablesOS.Proofs.ColumnEdits

/-!
# Renaming a column changes names and nothing else

The name of a column stands in its own table's column list and reference
columns, in the keys of that table that start from it and in the keys of any
table that lead to it. `Table.withRenamed` replaces it there. No cell moves, so
what is asked of rows is answered as before, and since the new name was free,
replacing it by the old one undoes the edit. A rename writes a schema and the
catalog to other pages; where an id that was never given out has left a row's
page to them, the row changes all the same (`row_under_rename`).
-/

namespace TablesOS

open Store

/-- The schema with column `old` of `table` called `new`. -/
def Table.withRenamed (table old new : String) (s : Table) : Table :=
  { s with
    columns := s.columns.map fun c =>
      { c with name := if s.name = table ∧ c.name = old then new else c.name }
    fks := s.fks.map fun fk => { fk with
      fromCol := if s.name = table ∧ fk.fromCol = old then new else fk.fromCol
      toCol := if fk.toTable = table ∧ fk.toCol = old then new else fk.toCol }
    refCols := s.refCols.map fun c => if s.name = table ∧ c = old then new else c }

namespace Database

variable {ι : Type} {db : Database ι} {table old new : String}

/-- Every schema with the column renamed, and every row as it is. -/
def withRenamed (table old new : String) (db : Database ι) : Database ι :=
  db.map fun o => { o with schema := o.schema.withRenamed table old new }

theorem withRenamed_eq (table old new : String) (db : Database ι) :
    db.withRenamed table old new = db.map (renamedTable table old new) := by
  refine List.map_congr_left fun o _ => ?_
  have hschema : o.schema.withRenamed table old new = (renamedTable table old new o).schema := by
    refine (Table.mk.injEq ..).mpr ⟨rfl, ?_, ?_, ?_⟩
    · exact (columns_renamed o).symm
    · exact (fks_renamed o).symm
    · exact (refCols_renamed o).symm
  rw [hschema]

theorem withRenamed_self (table old : String) (db : Database ι) :
    db.withRenamed table old old = db := by
  refine (List.map_congr_left fun o _ => ?_).trans (List.map_id db)
  have hsame : ∀ (p : Prop) [Decidable p] (n : String), (if p ∧ n = old then old else n) = n := by
    intro p _ n
    split
    · next h => exact h.2.symm
    · rfl
  simp only [Table.withRenamed, hsame, List.map_id', id]

/-! ## What is asked of rows -/

theorem lookup_renamed (name : String) : lookup (db.map (renamedTable table old new)) name =
    renamedTable table old new <$> db.lookup name := by
  have hfind : (db.map (renamedTable table old new)).find? (·.schema.name == name) =
      (db.find? (·.schema.name == name)).map (renamedTable table old new) := by
    rw [List.find?_map]
    rfl
  unfold lookup
  rw [hfind]
  cases db.find? (·.schema.name == name) <;> rfl

/-- The new name is free. -/
abbrev Free (db : Database ι) (table new : String) : Prop :=
  ∀ o ∈ db, o.schema.name = table → new ∉ o.schema.names

/-- A key of `o` after the edit. -/
abbrev renamedFk (table old new : String) (o : TableState ι) (fk : ForeignKey) : ForeignKey :=
  { fk with
    fromCol := renamedTo table old new o fk.fromCol
    toCol := if fk.toTable = table ∧ fk.toCol = old then new else fk.toCol }

/-- The column a key leads to, in the table it leads to. -/
theorem toCol_renamed {u o : TableState ι} {fk : ForeignKey} (hu : u.schema.name = fk.toTable) :
    (renamedFk table old new o fk).toCol = renamedTo table old new u fk.toCol := by
  rw [renamedTo, hu]

/-- The rows that a key leads to from one row. -/
def followBy (db : Database ι) (t : TableState ι) (row : Row) (fk : ForeignKey) :
    Except StoreError (String × List (ι × Row)) :=
  match t.schema.cell row fk.fromCol with
  | none => .ok (fk.toTable, [])
  | some key => do
      let target ← db.lookup fk.toTable
      pure (fk.toTable, target.rows.filter fun r => target.schema.cell r.2 fk.toCol = some key)

theorem followFk_eq [DecidableEq ι] (db : Database ι) (name : String) (id : ι) (fkName : String) :
    db.followFk name id fkName = db.lookup name >>= fun t =>
      match t.schema.fks.find? (·.name == fkName) with
      | none => .error (.notFound ("foreign key '" ++ fkName ++ "'"))
      | some fk => rowOf t id >>= fun row => db.followBy t row fk := by
  unfold followFk
  refine congrArg (db.lookup name >>= ·) (funext fun t => ?_)
  cases t.schema.fks.find? (·.name == fkName) <;> rfl

theorem followBy_renamed (h : db.Intact) (hfree : db.Free table new) {t : TableState ι}
    (ht : t ∈ db) {fk : ForeignKey} (hfk : fk ∈ t.schema.fks) {r : ι × Row} (hr : r ∈ t.rows) :
    followBy (db.map (renamedTable table old new)) (renamedTable table old new t) r.2
      (renamedFk table old new t fk) = db.followBy t r.2 fk := by
  have hrefers := h.keys t ht fk hfk
  unfold followBy
  rw [cell_renamed (h.tables t ht) (hfree t ht) hr hrefers.fromCol_mem, lookup_renamed]
  cases t.schema.cell r.2 fk.fromCol with
  | none => rfl
  | some key =>
      cases hlook : db.lookup fk.toTable with
      | error e => rfl
      | ok u =>
          obtain ⟨hu, hun⟩ := lookup_mem hlook
          have hrows : u.rows.filter (fun s => (renamedTable table old new u).schema.cell s.2
              (renamedFk table old new t fk).toCol = some key) =
              u.rows.filter fun s => u.schema.cell s.2 fk.toCol = some key := by
            refine List.filter_congr fun s hs => ?_
            rw [toCol_renamed hun, cell_renamed (h.tables u hu) (hfree u hu) hs
              (hrefers.toCol_mem h.names hu hun)]
          exact congrArg (fun rows => Except.ok (fk.toTable, rows)) hrows

theorem followFk_renamed [DecidableEq ι] (h : db.Intact) (hfree : db.Free table new)
    (name : String) (id : ι) (fkName : String) :
    followFk (db.map (renamedTable table old new)) name id fkName =
      db.followFk name id fkName := by
  rw [followFk_eq, followFk_eq, lookup_renamed]
  cases hlook : db.lookup name with
  | error e => rfl
  | ok t =>
      obtain ⟨ht, -⟩ := lookup_mem hlook
      have hfind : (renamedTable table old new t).schema.fks.find? (·.name == fkName) =
          (t.schema.fks.find? (·.name == fkName)).map (renamedFk table old new t) := by
        rw [fks_renamed, List.find?_map]
        rfl
      show (match (renamedTable table old new t).schema.fks.find? (·.name == fkName) with
        | none => _
        | some fk => _) = _
      rw [hfind, Outcome.except_ok_bind]
      cases hfk : t.schema.fks.find? (·.name == fkName) with
      | none => rfl
      | some fk =>
          show (rowOf t id >>= _) = (rowOf t id >>= _)
          cases hrow : rowOf t id with
          | error e => rfl
          | ok row =>
              exact followBy_renamed h hfree ht (List.mem_of_find?_eq_some hfk) (rowOf_ok hrow)

theorem referencingBy_renamed (h : db.Intact) (hfree : db.Free table new) {t o : TableState ι}
    (ht : t ∈ db) (ho : o ∈ db) {fk : ForeignKey} (hfk : fk ∈ o.schema.fks) {r : ι × Row}
    (hr : r ∈ t.rows) :
    referencingBy (renamedTable table old new t) r.2 (renamedTable table old new o)
      (renamedFk table old new o fk) = referencingBy t r.2 o fk := by
  have hrefers := h.keys o ho fk hfk
  unfold referencingBy
  by_cases hto : fk.toTable = t.schema.name
  · have hname : ¬ fk.toTable ≠ t.schema.name := not_not.mpr hto
    rw [if_neg hname]
    refine (if_neg hname).trans ?_
    rw [toCol_renamed hto.symm, cell_renamed (h.tables t ht) (hfree t ht) hr
      (hrefers.toCol_mem h.names ht hto.symm)]
    cases t.schema.cell r.2 fk.toCol with
    | none => rfl
    | some key =>
        have hrows : o.rows.filter (fun s => (renamedTable table old new o).schema.cell s.2
            (renamedFk table old new o fk).fromCol = some key) =
            o.rows.filter fun s => o.schema.cell s.2 fk.fromCol = some key := by
          refine List.filter_congr fun s hs => ?_
          rw [cell_renamed (h.tables o ho) (hfree o ho) hs hrefers.fromCol_mem]
        exact congrArg (List.map _) hrows
  · rw [if_pos hto]
    exact if_pos hto

theorem referencingRows_renamed [DecidableEq ι] (h : db.Intact) (hfree : db.Free table new)
    (name : String) (id : ι) :
    referencingRows (db.map (renamedTable table old new)) name id =
      db.referencingRows name id := by
  unfold referencingRows
  rw [lookup_renamed]
  cases hlook : db.lookup name with
  | error e => rfl
  | ok t =>
      obtain ⟨ht, -⟩ := lookup_mem hlook
      show (rowOf t id >>= _) = (rowOf t id >>= _)
      cases hrow : rowOf t id with
      | error e => rfl
      | ok row =>
          refine congrArg Except.ok ?_
          rw [List.flatMap_map]
          refine List.flatMap_congr fun o ho => ?_
          rw [fks_renamed, List.flatMap_map]
          exact List.flatMap_congr fun fk hfk =>
            referencingBy_renamed h hfree ht ho hfk (rowOf_ok hrow)

/-- The operations that answer rows. -/
def asksRows : Op ι → Bool
  | .scan _ | .getRow _ _ | .followFk _ _ _ | .referencingRows _ _ => true
  | _ => false

theorem step_renamed [DecidableEq ι] (h : db.Intact) (hfree : db.Free table new) {op : Op ι}
    (hop : asksRows op = true) (fresh : ι) :
    (step fresh op (db.map (renamedTable table old new))).1 = (db.step fresh op).1 := by
  cases op with
  | scan name =>
      show Reply.rows <$> (TableState.rows <$> lookup _ name) =
        Reply.rows <$> (TableState.rows <$> db.lookup name)
      rw [lookup_renamed]
      cases db.lookup name <;> rfl
  | getRow name id =>
      show Reply.row <$> (lookup _ name >>= fun t => rowOf t id) =
        Reply.row <$> (db.lookup name >>= fun t => rowOf t id)
      rw [lookup_renamed]
      cases db.lookup name <;> rfl
  | followFk name id fkName =>
      show (fun r => Reply.followed r.1 r.2) <$> followFk _ name id fkName = _
      rw [followFk_renamed h hfree]
      rfl
  | referencingRows name id =>
      show Reply.referencing <$> referencingRows _ name id = _
      rw [referencingRows_renamed h hfree]
      rfl
  | _ => cases hop

/-! ## Renaming back -/

theorem renamedTo_back {o : TableState ι} (hfree : o.schema.name = table → new ∉ o.schema.names)
    {n : String} (hn : n ∈ o.schema.names) :
    renamedTo table new old o (renamedTo table old new o n) = n := by
  by_cases hname : o.schema.name = table
  · have hne : n ≠ new := fun heq => hfree hname (heq ▸ hn)
    by_cases hold : n = old
    · simp [renamedTo, hname, hold]
    · simp [renamedTo, hname, hold, hne]
  · rw [renamedTo_of_ne hname, renamedTo_of_ne hname]

theorem renamedTable_back (h : db.Intact) (hfree : db.Free table new) {o : TableState ι}
    (ho : o ∈ db) : renamedTable table new old (renamedTable table old new o) = o := by
  have hback : ∀ n ∈ o.schema.names, renamedTo table new old (renamedTable table old new o)
      (renamedTo table old new o n) = n := fun n hn => renamedTo_back (hfree o ho) hn
  have hcolumns : (renamedTable table new old (renamedTable table old new o)).schema.columns =
      o.schema.columns := by
    rw [columns_renamed, columns_renamed, List.map_map]
    refine (List.map_congr_left fun c hc => ?_).trans (List.map_id _)
    simp only [Function.comp_apply, hback c.name (List.mem_map_of_mem hc), id]
  have hfks : (renamedTable table new old (renamedTable table old new o)).schema.fks =
      o.schema.fks := by
    rw [fks_renamed, fks_renamed, List.map_map]
    refine (List.map_congr_left fun fk hfk => ?_).trans (List.map_id _)
    have hrefers := h.keys o ho fk hfk
    obtain ⟨-, -, -, u, hu, hun, -⟩ := hrefers.closed
    have hto : (if fk.toTable = table ∧
        (if fk.toTable = table ∧ fk.toCol = old then new else fk.toCol) = new then old
        else if fk.toTable = table ∧ fk.toCol = old then new else fk.toCol) = fk.toCol := by
      have := @renamedTo_back _ table old new u (hfree u hu) _ (hrefers.toCol_mem h.names hu hun)
      simp only [renamedTo, hun] at this
      exact this
    simp only [Function.comp_apply, hback fk.fromCol hrefers.fromCol_mem, hto, id]
  have hrefCols : (renamedTable table new old (renamedTable table old new o)).schema.refCols =
      o.schema.refCols := by
    rw [refCols_renamed, refCols_renamed, List.map_map]
    refine (List.map_congr_left fun c hc => ?_).trans (List.map_id _)
    exact hback c ((h.tables o ho).refCols.2 c hc)
  have hschema : (renamedTable table new old (renamedTable table old new o)).schema = o.schema :=
    (Table.mk.injEq ..).mpr ⟨rfl, hcolumns, hfks, hrefCols⟩
  exact (TableState.mk.injEq ..).mpr ⟨hschema, rfl, rfl⟩

/-- The edit back goes through, and gives the same database. -/
theorem renameColumn_back (h : db.Intact) (hfree : db.Free table new) (hne : old ≠ new)
    (hold : old ≠ "") {t : TableState ι} (ht : t ∈ db) (hname : t.schema.name = table)
    (hcol : old ∈ t.schema.names) :
    renameColumn (db.map (renamedTable table old new)) table new old = .ok db := by
  have hlook : lookup (db.map (renamedTable table old new)) table =
      .ok (renamedTable table old new t) := by
    rw [lookup_renamed, ← hname, lookup_of_mem h.names ht]
    rfl
  have hnew : new ∈ (renamedTable table old new t).schema.names := by
    rw [names_renamed]
    exact List.mem_map.mpr ⟨old, hcol, by simp [renamedTo, hname]⟩
  have hgone : old ∉ (renamedTable table old new t).schema.names := by
    rw [names_renamed]
    intro hmem
    obtain ⟨n, -, hn⟩ := List.mem_map.mp hmem
    unfold renamedTo at hn
    split at hn
    · exact hne hn.symm
    · next hnot => exact hnot ⟨hname, hn⟩
  unfold renameColumn
  rw [refuse_neg hold, if_neg hne.symm, hlook, Outcome.except_ok_bind,
    refuse_neg (mt column_isNone.mp (not_not.mpr hnew)), refuse_neg (mt column_isSome.mp hgone)]
  refine congrArg Except.ok ?_
  show (db.map (renamedTable table old new)).map (renamedTable table new old) = db
  rw [List.map_map]
  exact (List.map_congr_left fun o ho => renamedTable_back h hfree ho).trans (List.map_id _)

end Database

namespace Store

open Pager

variable {led : Ledger RowId} {pg : Pager Disk} {db : Database RowId}

/-- An accepted renaming: the model's, and its way back. -/
theorem Mirrored.renamed (h : Mirrored led pg db) {table old new : String} {a : Reply RowId}
    (hrun : (run (.renameColumn table old new) pg).1 = .ok a) :
    Mirrored led (run (.renameColumn table old new) pg).2 (db.withRenamed table old new) ∧
      (∀ op, Database.asksRows op = true → ∀ fresh,
        ((db.withRenamed table old new).step fresh op).1 = (db.step fresh op).1) ∧
      (old ≠ "" → (db.withRenamed table old new).renameColumn table new old = .ok db) := by
  obtain ⟨db', hok, -, hnext⟩ := h.edited (.renameColumn table old new) trivial
    (fun _ => rfl) (fun _ => rfl) hrun
  rcases Database.renameColumn_ok hok with ⟨rfl, rfl⟩ | ⟨t, ht, hname, hne, hcol, hnew, rfl⟩
  · rw [Database.withRenamed_self]
    refine ⟨hnext, fun _ _ _ => rfl, fun hold => ?_⟩
    unfold Database.renameColumn
    rw [Database.refuse_neg hold, if_pos rfl]
    rfl
  · have hfree : db.Free table new := by
      intro o ho hon
      rw [List.inj_on_of_nodup_map h.intact.names ho ht (hon.trans hname.symm)]
      exact hnew
    rw [Database.withRenamed_eq]
    exact ⟨hnext, fun op hop fresh => Database.step_renamed h.intact hfree hop fresh,
      fun hold => Database.renameColumn_back h.intact hfree hne hold ht hname hcol⟩

/-! ## Over a page with two owners -/

namespace Spread

open Prog

variable {pg : Pager Disk} {n c f sp : Nat} {ips heads avail : List Nat} {rest : Multiset Obj}

/-- A rename moves the schema to the first free page and the catalog to the schema's. -/
theorem renameColumn {table old new : String}
    (h : Spread pg (oneColumn table old) n ips heads rest c sp (f :: avail)) (hne : old ≠ new)
    (hempty : new ≠ "") (hsch : (oneColumn table new).encode.length ≤ chainCap)
    (hcat : catalogLen [table] ≤ chainCap) :
    ∃ pg', run (.renameColumn table old new) pg = (.ok .done, pg') ∧
      Spread pg' (oneColumn table new) n ips heads rest sp f (c :: avail) := by
  have hrenamed : renameIn table old new true (oneColumn table old) = oneColumn table new := by
    simp [renameIn, oneColumn]
  have hmen : mentions table old true (oneColumn table old) = true := by
    simp [mentions, oneColumn]
  have hhas : ¬ ((oneColumn table old).column old).isNone = true := by
    simp [oneColumn, Table.column]
  have hfree : ¬ ((oneColumn table old).column new).isSome = true := by
    simp [oneColumn, Table.column, hne]
  have howns : ((oneColumn table old).name == table) = true := beq_self_eq_true table
  have hone : nchunks (oneColumn table new).encode = 1 := nchunks_le hsch
  have hcatalog : nchunks (encodeCatalog [entryOf (oneColumn table new) f ips n]) = 1 := by
    have hle := @nchunks_catalog [entryOf (oneColumn table new) f ips n]
      [⟨oneColumn table new, [], []⟩] rfl
    have hblocks : Database.catalogPages ([⟨oneColumn table new, [], []⟩] : Database RowId) ≤ 1 :=
      (blocks_mono hcat).trans (by decide)
    exact Nat.le_antisymm (hle.trans hblocks) (nchunks_pos _)
  -- the writes
  have hs : Stage (volumeOf pg h.clean) ⟨pg.sb, ∅⟩ [] ⟨pg.sb, ∅⟩ (f :: avail)
      (.blob [sp] (oneColumn table old).encode ::ₘ
        (catalogBlob [c] (encodeCatalog [entryOf (oneColumn table old) sp ips n]) +
          (.index ips heads ::ₘ rest))) := by
    have hstage : Stage (volumeOf pg h.clean) ⟨pg.sb, ∅⟩ [] ⟨pg.sb, ∅⟩ (f :: avail)
        (spread (oneColumn table old) n ips heads rest c sp) :=
      ⟨h.holds, Moves.refl _, by simp, fun qs bytes ho => Or.inl (h.short qs bytes ho)⟩
    exact hstage.recast (Multiset.cons_swap _ _ _)
  obtain ⟨s₁, he₁, h₁⟩ := writeChain_room hs (show nchunks (oneColumn table new).encode ≤
    (f :: avail).length by rw [hone]; exact Nat.succ_pos _)
  rw [hone, Multiset.cons_swap] at h₁
  obtain ⟨s₂, he₂, h₂⟩ := freeChain_ok h₁ blob_ne_raw
  rw [← Multiset.add_cons] at h₂
  obtain ⟨s₃, he₃, h₃⟩ := storeCatalog_room h₂ (h₂.moves.catalog.trans h.head)
    (show nchunks (encodeCatalog [entryOf (oneColumn table new) f ips n]) ≤ _ by
      rw [hcatalog]
      exact Nat.succ_pos _)
  rw [hcatalog] at h₃
  have hall : (renameAll table old new [entryOf (oneColumn table old) sp ips n]).eval
      (volumeOf pg h.clean).base ⟨pg.sb, ∅⟩ =
        (.ok [entryOf (oneColumn table new) f ips n], s₂) := by
    unfold renameAll
    rw [eval_query_bind _ h.schemaOf_run]
    simp only [howns, hmen, hrenamed, if_true]
    rw [hone] at he₁
    have hfreed : (freeChain sp).eval (volumeOf pg h.clean).base s₁ = (.ok (), s₂) := he₂
    rw [eval_bind_ok _ he₁, eval_bind_ok _ hfreed]
    rfl
  obtain ⟨body, hm, hb⟩ : ∃ body, (Store.renameColumn table old new).eval
      ((Staged.mk pg.sb ∅).read (volumeOf pg h.clean).base) pg.sb = .ok (.tx body) ∧
        body.eval (volumeOf pg h.clean).base ⟨pg.sb, ∅⟩ = (.ok (), s₃) := by
    unfold Store.renameColumn
    rw [if_neg (by simpa using hempty), if_neg hne]
    refine ⟨_, rfl, Eq.trans ?_ he₃⟩
    have hidx : catIndex [entryOf (oneColumn table old) sp ips n] table = .ok 0 := catIndex_run
    rw [eval_query_bind _ h.loadCatalog_run,
      eval_bind_ok _ ((eval_outcome _ _ _).trans (congrArg (·, _) hidx)),
      eval_bind_ok _ ((eval_outcome _ _ _).trans
        (congrArg (·, _) (show at! [entryOf _ sp ips n] 0 = .ok _ from rfl))),
      eval_query_bind _ h.schemaOf_run, if_neg hhas, if_neg hfree]
    exact eval_bind_ok _ hall
  have hm' : (method (.renameColumn table old new)).eval
      ((Staged.mk pg.sb ∅).read (volumeOf pg h.clean).base) pg.sb =
        .ok (.tx ((fun _ => .done) <$> body)) := (Query.eval_bind_ok _ _ hm).trans rfl
  have hb' : ((fun _ => .done) <$> body : PageProg (Reply RowId)).eval
      (volumeOf pg h.clean).base ⟨pg.sb, ∅⟩ = (.ok .done, s₃) := (eval_bind_ok _ hb).trans rfl
  have hsp := (h.holds.mem_range_of_foot (p := sp) schema_mem List.mem_cons_self).2
  obtain ⟨pg', hc', hrun, hq', htotal, hcount, hholds, hcatalog'⟩ := run_staged h.clean h.quiet
    h.room hm' hb' h₃ (by simp) (Nat.lt_trans hsp (volumeOf pg h.clean).total_lt)
  exact ⟨pg', hrun, hc', hq', htotal ▸ h.room, hholds, hcatalog', h.count,
    fun qs bytes ho => h₃.bytes_lt hcount ho⟩

end Spread

/-! ## A renaming and its way back -/

/-- Renaming a column is a pure renaming: afterwards every schema is the old
one with the name replaced, the rows and what is asked of them are as before,
and renaming back restores every schema. -/
theorem renames_purely {d : Disk} (hq : d.Quiet) (h : Reachable d led pg) :
    ∃ db, Mirrored led pg db ∧ ∀ table old new a, old ≠ "" →
      (run (.renameColumn table old new) pg).1 = .ok a →
      Mirrored led (run (.renameColumn table old new) pg).2 (db.withRenamed table old new) ∧
      (∀ t ∈ db, shown t.schema.name (run (.renameColumn table old new) pg).2 =
        some (t.schema.withRenamed table old new)) ∧
      (∀ op, Database.asksRows op = true → led.Covers (.call op) →
        (run op (run (.renameColumn table old new) pg).2).1 = (run op pg).1) ∧
      ((run (.renameColumn table new old) (run (.renameColumn table old new) pg).2).1 ≠
          .err .outOfSpace →
        (run (.renameColumn table new old) (run (.renameColumn table old new) pg).2).1 =
          .ok .done ∧
        Mirrored led
          (run (.renameColumn table new old) (run (.renameColumn table old new) pg).2).2 db) := by
  obtain ⟨db, hdb⟩ := h.mirrored hq
  refine ⟨db, hdb, fun table old new a hold hrun => ?_⟩
  obtain ⟨hnext, hasks, hback⟩ := hdb.renamed hrun
  refine ⟨hnext, fun t ht => ?_, fun op hop hcovers => ?_, fun hroom => ?_⟩
  · exact hnext.shown (List.mem_map_of_mem ht)
  · have hreads : op.writes = false := by
      cases op <;> first | rfl | cases hop
    rw [hnext.reads hreads hcovers ⟨0, 0⟩, hdb.reads hreads hcovers ⟨0, 0⟩, hasks op hop]
  · obtain ⟨a', hans⟩ := (@Mirrored.edit_iff _ _ _ hnext (.renameColumn table new old) trivial
      _ _ (fun _ => rfl) (fun _ _ hok => hok) hroom ⟨0, 0⟩).mpr ⟨db, hback hold⟩
    obtain ⟨db', hok', rfl, hnext'⟩ := hnext.edited (.renameColumn table new old) trivial
      (fun _ => rfl) (fun _ => rfl) hans
    rw [hback hold] at hok'
    cases hok'
    exact ⟨hans, hnext'⟩

theorem renames_purely_family : ∃ (led : Ledger RowId) (pg : Pager Disk) (db : Database RowId),
    Mirrored led pg db ∧ (∃ t ∈ db, t.schema = people) ∧
      ∀ a, (run (.renameColumn "people" "name" "alias") pg).1 = .ok a →
        shown "people" (run (.renameColumn "people" "name" "alias") pg).2 =
          some ⟨"people", [⟨"alias", .string, true, true, none⟩,
            ⟨"parent", .string, true, false, none⟩], [⟨"parent_fk", "parent", "people", "alias"⟩],
            []⟩ := by
  obtain ⟨ann, bob, pg, h⟩ := family_seated
  obtain ⟨db, hdb, hall⟩ := renames_purely wideDisk_quiet h.reach
  obtain ⟨t, ht, hname, -⟩ := hdb.of_scan (h.mirrored.scan (List.mem_singleton_self _))
  have hpeople : t.schema = people := by
    have hshown := h.mirrored.shown (List.mem_singleton_self _)
    rw [← hname, hdb.shown ht] at hshown
    exact Option.some.inj hshown
  refine ⟨_, pg, db, hdb, ⟨t, ht, hpeople⟩, fun a hrun => ?_⟩
  have hafter := (hall "people" "name" "alias" a (by decide) hrun).2.1 t ht
  rw [hpeople] at hafter
  exact hafter

/-- The column of a table of two rows is renamed there and back, and there again. The page of the
first row, which no later call names, is the schema's before the last rename and the catalog's
after it. -/
theorem row_under_rename : ∃ pg a b text id pg₁ pg₃ pg₄, formatStore wideDisk = (.ok pg, pg.dev) ∧
    (history (rowCalls "t" "7") pg).1 =
      [.ok .done, .ok .done, .ok (.inserted a), .ok (.inserted b)] ∧ b ≠ a ∧ id ≠ a ∧
    history [.call (.update "t" b [some (.str text)]), .call (.delete "t" id)]
      (history (rowCalls "t" "7") pg).2 = ([.ok .done, .ok .done], pg₁) ∧
    history [.call (.renameColumn "t" "7" "8"), .call (.renameColumn "t" "8" "7")] pg₁ =
      ([.ok .done, .ok .done], pg₃) ∧
    run (.renameColumn "t" "7" "8") pg₃ = (.ok .done, pg₄) ∧
    (∃ v, Value.parse .integer "7" = .ok v ∧
      (run (.getRow "t" a) pg₃).1 = .ok (.row [some v])) ∧
    (run (.getRow "t" a) pg₄).1 = .err (.corrupt "bad type tag") := by
  obtain ⟨pg, a, b, text, id, pg₁, h⟩ := @forged "t" "7" (by decide) (by decide) (by decide)
    (by decide)
  obtain ⟨n, ips, heads, rest, k, s, c, avail, h₁, rfl, hk⟩ := h.spread
  obtain ⟨pg₂, hrun₂, h₂⟩ := @Spread.renameColumn _ _ _ _ _ _ _ _ _ "t" "7" "8" h₁ (by decide)
    (by decide) (by decide) (by decide)
  obtain ⟨pg₃, hrun₃, h₃⟩ := @Spread.renameColumn _ _ _ _ _ _ _ _ _ "t" "8" "7" h₂ (by decide)
    (by decide) (by decide) (by decide)
  obtain ⟨pg₄, hrun₄, h₄⟩ := @Spread.renameColumn _ _ _ _ _ _ _ _ _ "t" "7" "8" h₃ (by decide)
    (by decide) (by decide) (by decide)
  have hthere : history [.call (.renameColumn "t" "7" "8"), .call (.renameColumn "t" "8" "7")]
      pg₁ = ([.ok .done, .ok .done], pg₃) := by
    rw [history_call hrun₂, history_call hrun₃]
    rfl
  have hbefore := h₃.getRow hk Spread.schema_mem
  have hafter := h₄.getRow hk (Multiset.mem_cons_self _ _)
  -- a schema of one column reads as a row of one number, a catalog as none
  obtain ⟨v, hv, hrow⟩ : ∃ v, Value.parse .integer "7" = .ok v ∧
      Codec.decodeRow (oneColumn "t" "7").encode = .ok [some v] := ⟨_, rfl, rfl⟩
  have hname : Codec.putStr "t" = [1, 116] := by decide
  rw [hrow] at hbefore
  rw [decodeRow_catalog hname (by decide) (by decide)] at hafter
  exact ⟨pg, rowIdAt ips k, b, text, id, pg₁, pg₃, pg₄, h.format, h.calls, h.apart.1, h.apart.2,
    h.edits, hthere, hrun₄, ⟨v, hv, hbefore⟩, hafter⟩

end Store

end TablesOS
