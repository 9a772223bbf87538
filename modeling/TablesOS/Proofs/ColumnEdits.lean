import TablesOS.Proofs.Constraints

/-!
# Column edits keep content by name

Rows are positional, so adding, dropping or moving a column edits every row of
the table along with its column list. `SameRows` says that a table has the rows
it had, under their ids and in their order, each with other cells. What the
cells are is said by column name: a row maps the names of the columns to cells,
and an edit may change that mapping at the edited name alone. A row that was
updated under the name of another table may have more cells than its own has
columns, and the next column added is not `NULL` in it (`third_cell_shows`).
-/

namespace TablesOS

open Store

namespace Database

variable {ι : Type} {db : Database ι}

/-- `t'` is `t` with its rows, in order and under their ids, mapped as `f`
says: from name and cell to cell. -/
structure SameRows (t t' : TableState ι)
    (f : String → Option (Option Value) → Option (Option Value)) : Prop where
  name : t'.schema.name = t.schema.name
  issued : t'.issued = t.issued
  rows : List.Forall₂ (fun r r' => r'.1 = r.1 ∧
    ∀ name, t'.schema.mapping r'.2 name = f name (t.schema.mapping r.2 name)) t.rows t'.rows

theorem sameRows_edit {t : TableState ι} (h : t.Ok) {sch : Table} {g : Row → Row}
    {f : String → Option (Option Value) → Option (Option Value)}
    (hname : sch.name = t.schema.name)
    (hg : ∀ row : Row, row.length = t.schema.columns.length → ∀ name,
      sch.mapping (g row) name = f name (t.schema.mapping row name)) :
    SameRows t (t.edit sch g) f := by
  refine ⟨hname, rfl, ?_⟩
  rw [TableState.edit, List.forall₂_map_right_iff]
  refine List.forall₂_same.mpr fun r hr => ⟨rfl, fun name => ?_⟩
  exact hg r.2 (h.fitted.arity r hr) name

/-- An edit of a table is one for that table alone. -/
theorem replace_same (hn : (db.map (·.schema.name)).Nodup) {t : TableState ι} (ht : t ∈ db)
    (f : TableState ι → TableState ι) :
    db.replace t.schema.name f = db.replace t.schema.name fun _ => f t := by
  refine List.map_congr_left fun u hu => ?_
  by_cases hname : u.schema.name = t.schema.name
  · rw [if_pos hname, if_pos hname, List.inj_on_of_nodup_map hn hu ht hname]
  · rw [if_neg hname, if_neg hname]

variable {t : TableState ι} {table col : String}

theorem addColumn_same (h : db.Intact) {c : Column} {db' : Database ι}
    (hok : db.addColumn table c = .ok db') : ∃ t ∈ db, t.schema.name = table ∧
      ∃ t', db' = db.replace table (fun _ => t') ∧ c.name ∉ t.schema.names ∧
        SameRows t t' fun name x => if name = c.name then some none else x := by
  obtain ⟨t, ht, rfl, hnew, -, rfl⟩ := addColumn_ok hok
  have htab := h.tables t ht
  refine ⟨t, ht, rfl, t.edit { t.schema with columns := t.schema.columns ++ [c] } (· ++ [none]),
    replace_same h.names ht _, hnew, sameRows_edit htab rfl fun row hlen name => ?_⟩
  exact Table.mapping_push htab.columns hlen hnew

theorem dropColumn_same (h : db.Intact) {db' : Database ι}
    (hok : db.dropColumn table col = .ok db') : ∃ t ∈ db, t.schema.name = table ∧
      ∃ t', db' = db.replace table (fun _ => t') ∧
        SameRows t t' fun name x => if name = col then none else x := by
  obtain ⟨t, ht, rfl, i, hi, -, -, rfl⟩ := dropColumn_ok hok
  have htab := h.tables t ht
  refine ⟨t, ht, rfl, t.edit { t.schema with
    columns := t.schema.columns.eraseIdx i
    refCols := t.schema.refCols.filter (· ≠ col) } (·.eraseIdx i),
    replace_same h.names ht _, sameRows_edit htab rfl fun row hlen name => ?_⟩
  exact Table.mapping_erase htab.columns hlen hi

/-- The table with the column at `old` moved to `new`. -/
def movedTable (t : TableState ι) (old new : Nat) : TableState ι :=
  t.edit { t.schema with columns := moved old new t.schema.columns } (moved old new)

theorem moveColumn_same (h : db.Intact) {new : Nat} {db' : Database ι}
    (hok : db.moveColumn table col new = .ok db') : ∃ t ∈ db, t.schema.name = table ∧
      ∃ old, t.schema.columnIndex col = some old ∧ old < t.schema.columns.length ∧
        new < t.schema.columns.length ∧
        db' = db.replace table (fun _ => movedTable t old new) ∧
        SameRows t (movedTable t old new) fun _ x => x := by
  obtain ⟨t, ht, rfl, old, hold, hnew, rfl⟩ := moveColumn_ok hok
  have htab := h.tables t ht
  obtain ⟨c, hc, -⟩ := Table.columnIndex_lt hold
  have hlt := (List.getElem?_eq_some_iff.mp hc).1
  refine ⟨t, ht, rfl, old, hold, hlt, hnew, replace_same h.names ht _,
    sameRows_edit htab rfl fun row hlen name => ?_⟩
  exact Table.mapping_moved htab.columns hlen hlt hnew

/-- Moving back gives the same table. -/
theorem movedTable_back (h : t.Ok) {old new : Nat} (hold : old < t.schema.columns.length)
    (hnew : new < t.schema.columns.length) :
    movedTable (movedTable t old new) new old = t := by
  have hcols : moved new old (moved old new t.schema.columns) = t.schema.columns :=
    moved_moved hold hnew
  have hrows : (t.rows.map fun r => (r.1, moved old new r.2)).map
      (fun r => (r.1, moved new old r.2)) = t.rows := by
    rw [List.map_map]
    refine (List.map_congr_left fun r hr => ?_).trans (List.map_id _)
    have hlen := h.fitted.arity r hr
    exact congrArg (Prod.mk r.1) (moved_moved (by omega) (by omega))
  unfold movedTable TableState.edit
  simp only [hcols, hrows]

/-- The move back goes through, and gives the same database. -/
theorem moveColumn_back (h : db.Intact) {t : TableState ι} (ht : t ∈ db) {old new : Nat}
    (hcol : t.schema.columnIndex col = some old) (hnew : new < t.schema.columns.length) :
    (db.replace t.schema.name fun _ => movedTable t old new).moveColumn t.schema.name col old =
      .ok db := by
  have htab := h.tables t ht
  obtain ⟨c, hc, -⟩ := Table.columnIndex_lt hcol
  have hold := (List.getElem?_eq_some_iff.mp hc).1
  have hmem : movedTable t old new ∈ db.replace t.schema.name fun _ => movedTable t old new :=
    (mem_replace h.names ht).mpr (Or.inl rfl)
  have hnames : ((db.replace t.schema.name fun _ => movedTable t old new).map
      (·.schema.name)).Nodup := by
    have hsame : (db.replace t.schema.name fun _ => movedTable t old new).map (·.schema.name) =
        db.map (·.schema.name) := replace_names fun _ _ => rfl
    rw [hsame]
    exact h.names
  have hlook : (db.replace t.schema.name fun _ => movedTable t old new).lookup t.schema.name =
      .ok (movedTable t old new) := lookup_of_mem hnames hmem
  have hcolumns : (movedTable t old new).schema.names = moved old new t.schema.names :=
    map_moved _ _ _ _
  have hat : (movedTable t old new).schema.columnIndex col = some new := by
    have hnd : (movedTable t old new).schema.names.Nodup := by
      rw [hcolumns]
      exact (perm_moved (by simpa using hold) (by simpa using hnew)).nodup_iff.mpr htab.columns
    rw [Table.columnIndex_eq_some hnd, hcolumns,
      getElem?_moved (by simpa using hold) (by simpa using hnew)]
    exact (Table.columnIndex_eq_some htab.columns).mp hcol
  have hlen : (movedTable t old new).schema.columns.length = t.schema.columns.length :=
    length_moved hold hnew
  unfold moveColumn
  rw [hlook, Outcome.except_ok_bind, position_some hat, Outcome.except_ok_bind,
    refuse_neg (by omega)]
  refine congrArg Except.ok ?_
  have hback : (db.replace t.schema.name fun _ => movedTable t old new).replace t.schema.name
      (movedTable · new old) = db := by
    rw [replace, replace, List.map_map]
    refine (List.map_congr_left fun u hu => ?_).trans (List.map_id db)
    by_cases hname : u.schema.name = t.schema.name
    · have hut : u = t := List.inj_on_of_nodup_map h.names hu ht hname
      subst hut
      simp only [Function.comp_apply, if_true]
      rw [if_pos (show (movedTable u old new).schema.name = u.schema.name from rfl)]
      exact movedTable_back htab hold hnew
    · simp [hname]
  exact hback

end Database

namespace Store

open Pager

variable {led : Ledger RowId} {pg : Pager Disk} {db : Database RowId}

/-- An edit that the store answers is the edit of the model. -/
theorem Mirrored.edited (h : Mirrored led pg db) (op : Op RowId) (he : led.Covers (.call op))
    {r : Except StoreError (Database RowId)} (hstep : ∀ fresh, db.step fresh op = db.edited .done r)
    (hnote : ∀ a, led.note (.call op) a = led) {a : Reply RowId} (hrun : (run op pg).1 = .ok a) :
    ∃ db', r = .ok db' ∧ a = .done ∧ Mirrored led (run op pg).2 db' := by
  obtain ⟨f, -, ho, hnext, -⟩ := happen_mirrored h (.call op) he
  have ho' : (run op pg).1 = Outcome.ofExcept (db.happen f (.call op)).1 := ho
  have hnext' : Mirrored (led.after (.call op) (run op pg).1) (run op pg).2
    (db.happen f (.call op)).2 := hnext
  rw [hrun] at ho' hnext'
  cases f with
  | none => cases ho'
  | some f =>
      have hhappen : db.happen (some f) (.call op) = db.edited .done r := hstep f
      rw [hhappen] at ho' hnext'
      cases r with
      | error e => cases ho'
      | ok db' =>
          injection ho' with ha
          refine ⟨db', rfl, ha, ?_⟩
          rw [Ledger.after, hnote] at hnext'
          exact hnext'

/-! ## A row longer than its table -/

/-- An edit that finds its pages leaves what the model leaves. -/
theorem Edits.ample {V : Volume} {s : Staged Superblock Page} {L : List Stored} {α : Type}
    {q : PageQuery (Call α)} {m : α → Except StoreError (Database RowId)} (h : Edits V s L q m)
    (ha : Ample V s q) : ∃ body a s' L', q.eval (s.read V.base) s.ctl = .ok (.tx body) ∧
      body.eval V.base s = (.ok a, s') ∧ Leaves V s s' L' ∧ m a = .ok (dbOf L') := by
  obtain ⟨body, a, s', hq, hb⟩ := ha
  rcases h with ⟨e, hq', -⟩ | ⟨a', hq', -⟩ | ⟨body', hq', hend⟩
  · rw [hq] at hq'
    cases hq'
  · rw [hq] at hq'
    cases hq'
  · rw [hq] at hq'
    cases hq'
    rcases hend with ⟨e, he, -⟩ | ⟨-, ⟨s', he⟩ | ⟨a', s', he, L', hl, hm⟩⟩
    · rw [hb] at he
      cases he
    · rw [hb] at he
      cases he
    · rw [hb] at he
      cases he
      exact ⟨body, a, s', L', hq, hb, hl, hm⟩

/-- A column added to a table whose rows take a page each. -/
theorem Laid.addColumn {L : List Stored} (hL : Laid pg L)
    (hsmall : pg.sb.totalPages - Journal.firstDataPage < Journal.jcap) (hc : (dbOf L).Closed)
    {t : TableState RowId} (ht : t ∈ dbOf L) {col : Column} (hnull : col.nullable = true)
    (hnew : t.schema.column col.name = none)
    (hrows : ∀ r ∈ t.rows, nchunks (Codec.encodeRow (r.2 ++ [none])) ≤ 1)
    (hn : nchunks { t.schema with columns := t.schema.columns ++ [col] }.encode +
      (dbOf L).catalogPages + (dbOf L).pages ≤ pg.sb.totalPages - Journal.firstDataPage)
    {db' : Database RowId} (hdb : (dbOf L).addColumn t.schema.name col = .ok db') :
    ∃ pg' L', run (.addColumn t.schema.name col) pg = (.ok .done, pg') ∧ Laid pg' L' ∧
      dbOf L' = db' := by
  obtain ⟨avail, cat, hr⟩ := hL.readable
  have hroom := hr.room
  have htotal : (volumeOf pg hL.clean).total = pg.sb.totalPages := rfl
  obtain ⟨A, w, B, rfl, rfl, hidx⟩ := Seated.split hc.names ht
  have hw : w ∈ A ++ w :: B := by simp
  have hfit : ∀ k r, w.slots.getD k none = some r →
      nchunks (Codec.encodeRow (r.2 ++ [none])) ≤ r.1.length := by
    intro k r hslot
    have hlive : (rowIdAt w.indexPages k, r) ∈ w.live :=
      mem_live.mpr ⟨k, lt_of_slot hslot, hslot, rfl⟩
    refine (hrows (rowIdAt w.indexPages k, r.2) (List.mem_map_of_mem hlive)).trans ?_
    have hne := foot_ne_nil hr.holds (Readable.row_mem hw (slot_of_live hlive)) blob_ne_raw
    exact List.length_pos_of_ne_nil hne
  rw [Stored.state_schema] at hn hdb
  obtain ⟨body, a, s', L', hm, hb, hl, hmodel⟩ := (addColumn_edits hr hc w.schema.name col).ample
    (addColumn_ample hr hidx hnull hnew hfit (by omega))
  rw [hdb] at hmodel
  injection hmodel with hmodel
  have hm' : (method (.addColumn w.schema.name col)).eval
      ((Staged.mk pg.sb ∅).read (volumeOf pg hL.clean).base) pg.sb =
        .ok (.tx ((fun _ => .done) <$> body)) := (Query.eval_bind_ok _ _ hm).trans rfl
  have hb' : ((fun _ => .done) <$> body : PageProg (Reply RowId)).eval
      (volumeOf pg hL.clean).base ⟨pg.sb, ∅⟩ = (.ok .done, s') := (Prog.eval_bind_ok _ hb).trans rfl
  obtain ⟨pg', hrun, hL', -⟩ := run_leaves hL.clean hL.quiet hsmall hm' hb' hl
  exact ⟨pg', L', hrun, hL', hmodel.symm⟩

/-- Three texts in a row. -/
def triples : Table :=
  ⟨"pairs", pairs.columns ++ [⟨"third", .string, true, false, none⟩], [], []⟩

/-- The family, and no triple yet. -/
theorem triples_seated : ∃ ann bob pg, Seated wideDisk 2100
    [("people", ann), ("people", bob)] pg (family ann bob ++ [⟨triples, [], []⟩]) := by
  obtain ⟨ann, bob, pg, h⟩ := pairs_seated
  have h' : Seated wideDisk 2100 [("people", ann), ("people", bob)] _
      (family ann bob ++ [⟨triples, [], []⟩]) :=
    (@Seated.addColumn _ _ _ _ _ h ⟨pairs, [], []⟩ (by simp)
      ⟨"third", .string, true, false, none⟩ rfl rfl rfl (by
        rw [family_pages]
        show _ + blocks chainCap (catalogLen ["people", "pairs"]) + _ ≤ _
        decide) _ rfl).2
  exact ⟨ann, bob, _, h'⟩

/-- Ann with a third cell, which her table has no column for. -/
def longRow (ann bob : RowId) : TableState RowId :=
  twoPeople ann bob [some (.str "Ann"), none, some (.str "z")]

/-- `people` with one column more. -/
def noted : Table :=
  { people with columns := people.columns ++ [⟨"note", .string, true, false, none⟩] }

theorem longRow_laid : ∃ ann bob pg pg' L, ann ≠ bob ∧
    Reachable wideDisk [("people", ann), ("people", bob)] pg ∧
    run (.update "pairs" ann [some (.str "Ann"), none, some (.str "z")]) pg = (.ok .done, pg') ∧
    Laid pg' L ∧ dbOf L = [longRow ann bob, ⟨triples, [], []⟩] ∧ pg'.sb.totalPages = 2100 ∧
    (dbOf L).Closed := by
  obtain ⟨ann, bob, pg, h⟩ := triples_seated
  obtain ⟨hne, pg', L, hrun, hL⟩ := @stray_laid _ _ _ _ [some (.str "Ann"), none, some (.str "z")]
    h rfl rfl rfl (by
      rw [family_pages]
      decide)
  exact ⟨ann, bob, pg, pg', L, hne, h.reach, hrun, hL⟩

/-- Column edits keep content by name. Whatever column is added, dropped or
moved, every row stays under its id and in its place and the other tables stay
as they are; a move changes no cell of any name and can be undone, an added
column is `NULL` everywhere, a dropped one is gone, and the cells of the other
names stay. -/
theorem columns_keep {d : Disk} (hq : d.Quiet) (h : Reachable d led pg) (table : String) :
    ∃ db, Mirrored led pg db ∧
      (∀ col new a, (run (.moveColumn table col new) pg).1 = .ok a →
        ∃ t ∈ db, t.schema.name = table ∧ ∃ t' old, t.schema.columnIndex col = some old ∧
          Mirrored led (run (.moveColumn table col new) pg).2
            (db.replace table fun _ => t') ∧
          Database.SameRows t t' (fun _ x => x) ∧ t'.schema.columns.Perm t.schema.columns ∧
          t'.schema.fks = t.schema.fks ∧ t'.schema.refCols = t.schema.refCols ∧
          ((run (.moveColumn table col old) (run (.moveColumn table col new) pg).2).1 ≠
              .err .outOfSpace →
            (run (.moveColumn table col old) (run (.moveColumn table col new) pg).2).1 =
              .ok .done ∧
            Mirrored led
              (run (.moveColumn table col old) (run (.moveColumn table col new) pg).2).2 db)) ∧
      (∀ c a, (run (.addColumn table c) pg).1 = .ok a →
        ∃ t ∈ db, t.schema.name = table ∧ ∃ t', c.name ∉ t.schema.names ∧
          Mirrored led (run (.addColumn table c) pg).2 (db.replace table fun _ => t') ∧
          Database.SameRows t t' fun name x => if name = c.name then some none else x) ∧
      ∀ col a, (run (.dropColumn table col) pg).1 = .ok a →
        ∃ t ∈ db, t.schema.name = table ∧ ∃ t',
          Mirrored led (run (.dropColumn table col) pg).2 (db.replace table fun _ => t') ∧
          Database.SameRows t t' fun name x => if name = col then none else x := by
  obtain ⟨db, hdb⟩ := h.mirrored hq
  refine ⟨db, hdb, fun col new a hrun => ?_, fun c a hrun => ?_, fun col a hrun => ?_⟩
  · obtain ⟨db', hok, -, hnext⟩ := hdb.edited (.moveColumn table col new) trivial
      (fun _ => rfl) (fun _ => rfl) hrun
    obtain ⟨t, ht, rfl, old, hcol, hold, hnew, rfl, hsame⟩ :=
      Database.moveColumn_same hdb.intact hok
    refine ⟨t, ht, rfl, _, old, hcol, hnext, hsame, Database.perm_moved hold hnew, rfl, rfl,
      fun hroom => ?_⟩
    have hback := Database.moveColumn_back hdb.intact ht hcol hnew
    obtain ⟨a', hans⟩ := (@Mirrored.edit_iff _ _ _ hnext (.moveColumn t.schema.name col old) trivial
      _ _ (fun _ => rfl) (fun _ _ hok => hok) hroom ⟨0, 0⟩).mpr ⟨db, hback⟩
    obtain ⟨db', hok', rfl, hnext'⟩ := hnext.edited (.moveColumn t.schema.name col old) trivial
      (fun _ => rfl) (fun _ => rfl) hans
    rw [hback] at hok'
    cases hok'
    exact ⟨hans, hnext'⟩
  · obtain ⟨db', hok, -, hnext⟩ := hdb.edited (.addColumn table c) trivial
      (fun _ => rfl) (fun _ => rfl) hrun
    obtain ⟨t, ht, rfl, t', rfl, hnew, hsame⟩ := Database.addColumn_same hdb.intact hok
    exact ⟨t, ht, rfl, t', hnew, hnext, hsame⟩
  · obtain ⟨db', hok, -, hnext⟩ := hdb.edited (.dropColumn table col) trivial
      (fun _ => rfl) (fun _ => rfl) hrun
    obtain ⟨t, ht, rfl, t', rfl, hsame⟩ := Database.dropColumn_same hdb.intact hok
    exact ⟨t, ht, rfl, t', hnext, hsame⟩

theorem columns_keep_family : ∃ (ann bob : RowId) (led : Ledger RowId) (pg : Pager Disk)
    (db : Database RowId), Mirrored led pg db ∧
      (∃ t ∈ db, t.schema.name = "people" ∧ t.rows = [(ann, [some (.str "Ann"), none]),
        (bob, [some (.str "Bob"), some (.str "Ann")])]) ∧
      ∀ a, (run (.moveColumn "people" "parent" 0) pg).1 = .ok a →
        ∃ t ∈ db, t.schema.name = "people" ∧ ∃ t',
          Mirrored led (run (.moveColumn "people" "parent" 0) pg).2
            (db.replace "people" fun _ => t') ∧ Database.SameRows t t' fun _ x => x := by
  obtain ⟨ann, bob, pg, h⟩ := family_seated
  obtain ⟨db, hdb, hmove, -⟩ := columns_keep wideDisk_quiet h.reach "people"
  obtain hscan := hdb.of_scan (h.mirrored.scan (List.mem_singleton_self _))
  refine ⟨ann, bob, _, pg, db, hdb, hscan, fun a hrun => ?_⟩
  obtain ⟨t, ht, hname, t', old, -, hnext, hsame, -⟩ := hmove "parent" 0 a hrun
  exact ⟨t, ht, hname, t', hnext, hsame⟩

/-- Ann was changed as if she were a triple, and her third cell was out of sight; with a column
more it shows. -/
theorem third_cell_shows : ∃ ann bob pg pg' pg'',
    Reachable wideDisk [("people", ann), ("people", bob)] pg ∧
    run (.update "pairs" ann [some (.str "Ann"), none, some (.str "z")]) pg = (.ok .done, pg') ∧
    (run (.getRow "people" ann) pg').1 = .ok (.row [some (.str "Ann"), none]) ∧
    run (.addColumn "people" ⟨"note", .string, true, false, none⟩) pg' = (.ok .done, pg'') ∧
    (run (.getRow "people" ann) pg'').1 =
      .ok (.row [some (.str "Ann"), none, some (.str "z")]) := by
  obtain ⟨ann, bob, pg, pg', L, hne, hreach, hrun, hL, hdb, htotal, hc⟩ := longRow_laid
  have hann : longRow ann bob ∈ dbOf L := by simp [hdb]
  have hpages : (dbOf L).pages = Database.pages [⟨people,
      [((), [some (.str "Ann"), none, some (.str "z")]),
        ((), [some (.str "Bob"), some (.str "Ann")])], [(), ()]⟩, ⟨triples, [], []⟩] := by
    rw [hdb]
    rfl
  -- each row still takes one page
  have hrows : ∀ r ∈ (longRow ann bob).rows, nchunks (Codec.encodeRow (r.2 ++ [none])) ≤ 1 := by
    intro r hr
    rcases List.mem_cons.mp hr with rfl | hr
    · show nchunks (Codec.encodeRow [some (.str "Ann"), none, some (.str "z"), none]) ≤ 1
      decide
    · rw [List.mem_singleton.mp hr]
      show nchunks (Codec.encodeRow [some (.str "Bob"), some (.str "Ann"), none]) ≤ 1
      decide
  have hadded : (dbOf L).addColumn "people" ⟨"note", .string, true, false, none⟩ =
      .ok ((dbOf L).replace "people" fun t => t.edit noted (· ++ [none])) := by
    rw [hdb]
    rfl
  obtain ⟨pg'', L', hadd, hL', hdb'⟩ := hL.addColumn (htotal ▸ by decide) hc hann rfl rfl hrows
    (by
      rw [hpages, Database.catalogPages, hdb, htotal]
      show nchunks noted.encode + blocks chainCap (catalogLen ["people", "pairs"]) + _ ≤ _
      decide) hadded
  have hnext : dbOf L' = [(longRow ann bob).edit noted (· ++ [none]), ⟨triples, [], []⟩] := by
    rw [hdb', hdb]
    rfl
  have hshort := hL.getRow hc.names hann List.mem_cons_self
  have hlong := hL'.getRow (hnext ▸ by simp [TableState.edit, noted, people, triples])
    (hnext ▸ List.mem_cons_self) List.mem_cons_self
  exact ⟨ann, bob, pg, pg', pg'', hreach, hrun, hshort, hadd, hlong⟩

end Store

end TablesOS
