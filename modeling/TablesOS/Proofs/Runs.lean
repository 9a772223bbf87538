import TablesOS.Spec.History
import TablesOS.Proofs.Refinement

/-!
# Runs of the store

A step of the model that succeeds edits every table on its own (`next`), but
for the two operations that add or remove a table (`step_ok`). What a run does
to a table, to its ids and to the ledger is read off from there. `Mirrored`
says that a handle stores what the model has and that the ledger lists the ids
of the model; every event keeps it (`happen_mirrored`), and so does every
history (`history_mirrored`).
-/

namespace TablesOS

/-! ## What a successful step does to each table -/

/-- What an operation makes of the row `id` of the table, column by column. -/
def Table.carry {ι : Type} [DecidableEq ι] (t : Table) (id : ι) : Op ι → Row → Row
  | .update table id' cells, row => if t.name = table ∧ id = id' then cells else row
  | .addColumn table _, row => if t.name = table then row ++ [none] else row
  | .dropColumn table col, row =>
      if t.name = table then row.eraseIdx ((t.columnIndex col).getD t.columns.length) else row
  | .moveColumn table col new, row =>
      if t.name = table then
        Database.moved ((t.columnIndex col).getD t.columns.length) new row
      else row
  | _, row => row

/-- What an operation makes of the schema. -/
def Table.edit {ι : Type} (t : Table) : Op ι → Table
  | .addColumn table col => if t.name = table then { t with columns := t.columns ++ [col] } else t
  | .dropColumn table col =>
      if t.name = table then
        { t with
          columns := t.columns.eraseIdx ((t.columnIndex col).getD t.columns.length)
          refCols := t.refCols.filter (· ≠ col) }
      else t
  | .moveColumn table col new =>
      if t.name = table then
        { t with columns :=
          Database.moved ((t.columnIndex col).getD t.columns.length) new t.columns }
      else t
  | .renameColumn table old new =>
      if old = new then t else Store.renameIn table old new (t.name == table) t
  | .setUnique table col unique =>
      if t.name = table then Database.withColumn t col fun c => { c with unique } else t
  | .addFk table fromCol toTable toCol =>
      if t.name = table then
        { t with fks := t.fks ++ [⟨Database.freeFkName (t.fks.map (·.name)) fromCol, fromCol,
          toTable, toCol⟩] }
      else t
  | .dropFk table fkName =>
      if t.name = table then { t with fks := t.fks.filter (·.name ≠ fkName) } else t
  | .setReferenceColumns table cols => if t.name = table then { t with refCols := cols } else t
  | .setDisplayWidth table col width =>
      if t.name = table then Database.withColumn t col fun c => { c with displayWidth := width }
      else t
  | _ => t

namespace TableState

variable {ι : Type} [DecidableEq ι]

/-- What an operation makes of a table that stays. -/
def next (fresh : ι) (op : Op ι) (t : TableState ι) : TableState ι where
  schema := t.schema.edit op
  rows := match op with
    | .insert table cells =>
        if t.schema.name = table then t.rows ++ [(fresh, cells)] else t.rows
    | .delete table id => if t.schema.name = table then t.rows.filter (·.1 ≠ id) else t.rows
    | op => t.rows.map fun r => (r.1, t.schema.carry r.1 op r.2)
  issued := match op with
    | .insert table _ => if t.schema.name = table then t.issued ++ [fresh] else t.issued
    | _ => t.issued

/-- A table that an operation leaves alone. -/
theorem next_same {fresh : ι} {op : Op ι} {t : TableState ι} (hs : t.schema.edit op = t.schema)
    (hr : (t.next fresh op).rows = t.rows) (hi : (t.next fresh op).issued = t.issued) :
    t.next fresh op = t := by
  have hnext : t.next fresh op =
      ⟨t.schema.edit op, (t.next fresh op).rows, (t.next fresh op).issued⟩ := rfl
  rw [hnext, hs, hr, hi]

end TableState

namespace Database

variable {ι : Type} [DecidableEq ι] {db db' : Database ι}

/-- The database after a successful operation. -/
def after (fresh : ι) (op : Op ι) (db : Database ι) : Database ι :=
  match op with
  | .createTable name => db ++ [⟨Table.new name, [], []⟩]
  | .dropTable name => db.filter (·.schema.name ≠ name)
  | op => db.map (·.next fresh op)

theorem edited_ok {ι : Type} {db db' : Database ι} {reply a : Reply ι}
    {r : Except StoreError (Database ι)} (h : db.edited reply r = (.ok a, db')) :
    r = .ok db' ∧ a = reply := by
  cases r with
  | error e => cases h
  | ok db'' =>
      injection h with ha hdb
      injection ha with ha
      exact ⟨congrArg Except.ok hdb, ha.symm⟩

/-- One table edited, as an edit of every table. -/
theorem replace_eq_after {fresh : ι} {op : Op ι} {table : String}
    {f : TableState ι → TableState ι}
    (hedit : ∀ t ∈ db, t.schema.name = table → f t = t.next fresh op)
    (hother : ∀ t ∈ db, t.schema.name ≠ table → t.next fresh op = t) :
    db.replace table f = db.map (·.next fresh op) := by
  refine List.map_congr_left fun t ht => ?_
  by_cases hname : t.schema.name = table
  · rw [if_pos hname, hedit t ht hname]
  · rw [if_neg hname, hother t ht hname]

/-- What a successful operation leaves. -/
theorem step_ok (hn : (db.map (·.schema.name)).Nodup) {fresh : ι} {op : Op ι} {a : Reply ι}
    (h : db.step fresh op = (.ok a, db')) : db' = db.after fresh op := by
  have hone : ∀ {t u : TableState ι}, t ∈ db → u ∈ db → t.schema.name = u.schema.name →
      t = u := fun ht hu => List.inj_on_of_nodup_map hn ht hu
  have hread : ∀ op : Op ι, (∀ t : TableState ι, t.next fresh op = t) →
      db.map (·.next fresh op) = db := by
    intro op hsame
    exact (List.map_congr_left fun t _ => hsame t).trans (List.map_id db)
  cases op with
  | createTable name => exact (createTable_ok (edited_ok h).1).2.2
  | dropTable name =>
      obtain ⟨-, -, -, -, hdb⟩ := dropTable_ok (edited_ok h).1
      exact hdb
  | addColumn table col =>
      obtain ⟨t, ht, rfl, -, -, rfl⟩ := addColumn_ok (edited_ok h).1
      refine replace_eq_after (fun u _ hu => ?_) fun u _ hu => ?_ <;>
        simp [TableState.next, TableState.edit, Table.edit, Table.carry, hu]
  | dropColumn table col =>
      obtain ⟨t, ht, rfl, i, hi, -, -, rfl⟩ := dropColumn_ok (edited_ok h).1
      refine replace_eq_after (fun u hu hname => ?_) fun u _ hu => ?_
      · cases hone hu ht hname
        simp [TableState.next, TableState.edit, Table.edit, Table.carry, hi]
      · simp [TableState.next, Table.edit, Table.carry, hu]
  | moveColumn table col new =>
      obtain ⟨t, ht, rfl, i, hi, -, rfl⟩ := moveColumn_ok (edited_ok h).1
      refine replace_eq_after (fun u hu hname => ?_) fun u _ hu => ?_
      · cases hone hu ht hname
        simp [TableState.next, TableState.edit, Table.edit, Table.carry, hi]
      · simp [TableState.next, Table.edit, Table.carry, hu]
  | renameColumn table old new =>
      rcases renameColumn_ok (edited_ok h).1 with ⟨rfl, rfl⟩ | ⟨-, -, -, hne, -, -, rfl⟩
      · refine (hread _ fun t => ?_).symm
        simp [TableState.next, Table.edit, Table.carry]
      · refine List.map_congr_left fun t _ => ?_
        simp [TableState.next, Table.edit, Table.carry, hne]
  | setUnique table col unique =>
      obtain ⟨t, ht, rfl, -, -, rfl⟩ := setUnique_ok (edited_ok h).1
      refine replace_eq_after (fun u _ hu => ?_) fun u _ hu => ?_ <;>
        simp [TableState.next, Table.edit, Table.carry, hu]
  | addFk table fromCol toTable toCol =>
      obtain ⟨t, ht, rfl, fc, hfc, u, hu, rfl, tc, htc, -, -, -, rfl⟩ := addFk_ok (edited_ok h).1
      refine replace_eq_after (fun u hu hname => ?_) fun u _ hu => ?_
      · cases hone hu ht hname
        simp [TableState.next, Table.edit, Table.carry]
      · simp [TableState.next, Table.edit, Table.carry, hu]
  | dropFk table fkName =>
      obtain ⟨t, ht, rfl, rfl⟩ := dropFk_ok (edited_ok h).1
      refine replace_eq_after (fun u _ hu => ?_) fun u _ hu => ?_ <;>
        simp [TableState.next, Table.edit, Table.carry, hu]
  | setReferenceColumns table cols =>
      obtain ⟨t, ht, rfl, -, -, rfl⟩ := setReferenceColumns_ok (edited_ok h).1
      refine replace_eq_after (fun u _ hu => ?_) fun u _ hu => ?_ <;>
        simp [TableState.next, Table.edit, Table.carry, hu]
  | setDisplayWidth table col width =>
      obtain ⟨t, ht, rfl, rfl⟩ := setDisplayWidth_ok (edited_ok h).1
      refine replace_eq_after (fun u _ hu => ?_) fun u _ hu => ?_ <;>
        simp [TableState.next, Table.edit, Table.carry, hu]
  | insert table cells =>
      obtain ⟨t, -, -, rfl⟩ := insert_ok (edited_ok h).1
      refine replace_eq_after (fun u _ hu => ?_) fun u _ hu => ?_ <;>
        simp [TableState.next, Table.edit, hu]
  | update table id cells =>
      obtain ⟨t, -, -, old, -, -, rfl⟩ := update_ok (edited_ok h).1
      refine replace_eq_after (fun u _ hu => ?_) fun u _ hu => ?_
      · simp only [TableState.next, Table.edit, Table.carry, hu, true_and]
        congr 1
        refine List.map_congr_left fun r _ => ?_
        split
        · next hr => rw [hr]
        · rfl
      · simp [TableState.next, Table.edit, Table.carry, hu]
  | delete table id =>
      obtain ⟨t, -, row, -, -, rfl⟩ := delete_ok (edited_ok h).1
      refine replace_eq_after (fun u _ hu => ?_) fun u _ hu => ?_ <;>
        simp [TableState.next, Table.edit, hu]
  | listTables =>
      injection h with _ hdb
      exact hdb ▸ (hread _ fun t => by simp [TableState.next, Table.edit, Table.carry]).symm
  | getTable name =>
      injection h with _ hdb
      exact hdb ▸ (hread _ fun t => by simp [TableState.next, Table.edit, Table.carry]).symm
  | scan name =>
      injection h with _ hdb
      exact hdb ▸ (hread _ fun t => by simp [TableState.next, Table.edit, Table.carry]).symm
  | getRow name id =>
      injection h with _ hdb
      exact hdb ▸ (hread _ fun t => by simp [TableState.next, Table.edit, Table.carry]).symm
  | followFk table id fkName =>
      injection h with _ hdb
      exact hdb ▸ (hread _ fun t => by simp [TableState.next, Table.edit, Table.carry]).symm
  | referencingRows table id =>
      injection h with _ hdb
      exact hdb ▸ (hread _ fun t => by simp [TableState.next, Table.edit, Table.carry]).symm

/-! ## Ids -/

theorem mem_ids {ι : Type} {db : Database ι} {x : String × ι} :
    x ∈ db.ids ↔ ∃ t ∈ db, t.schema.name = x.1 ∧ x.2 ∈ t.issued := by
  obtain ⟨name, id⟩ := x
  simp only [ids, List.mem_flatMap, List.mem_map, Prod.mk.injEq]
  constructor
  · rintro ⟨t, ht, i, hi, hname, rfl⟩
    exact ⟨t, ht, hname, hi⟩
  · rintro ⟨t, ht, hname, hi⟩
    exact ⟨t, ht, id, hi, hname, rfl⟩

@[simp] theorem edit_name {ι : Type} (op : Op ι) (t : Table) : (t.edit op).name = t.name := by
  cases op <;> simp only [Table.edit] <;> (try split) <;> simp [Store.renameIn]

@[simp] theorem next_name (fresh : ι) (op : Op ι) (t : TableState ι) :
    (t.next fresh op).schema.name = t.schema.name := edit_name op t.schema

/-- The ids after a successful operation are those of the ledger. -/
theorem mem_note {fresh : ι} {op : Op ι} {a : Reply ι} {led : Ledger ι}
    (hled : ∀ x, x ∈ led ↔ x ∈ db.ids) (hn : (db.map (·.schema.name)).Nodup)
    (h : db.step fresh op = (.ok a, db')) (x : String × ι) :
    x ∈ led.note (.call op) a ↔ x ∈ db'.ids := by
  have hdb := step_ok hn h
  have hsame : (∀ t, (TableState.next fresh op t).issued = t.issued) →
      db' = db.map (·.next fresh op) → (x ∈ led ↔ x ∈ db'.ids) := by
    rintro hi rfl
    rw [hled, mem_ids, mem_ids]
    simp only [List.mem_map, exists_exists_and_eq_and, next_name, hi]
  cases op with
  | createTable name =>
      rw [hdb, after, mem_ids]
      refine (hled x).trans
        (mem_ids.trans ⟨fun ⟨t, ht, h⟩ => ⟨t, List.mem_append_left _ ht, h⟩, ?_⟩)
      rintro ⟨t, ht, hname, hid⟩
      rcases List.mem_append.mp ht with ht | ht
      · exact ⟨t, ht, hname, hid⟩
      · rw [List.mem_singleton.mp ht] at hid
        cases hid
  | dropTable name =>
      rw [hdb, after, mem_ids]
      simp only [Ledger.note, List.mem_filter, hled, mem_ids, decide_eq_true_eq]
      constructor
      · rintro ⟨⟨t, ht, hname, hid⟩, hne⟩
        exact ⟨t, ⟨ht, hname ▸ hne⟩, hname, hid⟩
      · rintro ⟨t, ⟨ht, hne⟩, hname, hid⟩
        exact ⟨⟨t, ht, hname, hid⟩, hname ▸ hne⟩
  | insert table cells =>
      obtain ⟨hins, ha⟩ := edited_ok h
      obtain ⟨t, ht, -, -⟩ := insert_ok hins
      obtain ⟨hmem, rfl⟩ := lookup_mem ht
      have hmap : db' = db.map (·.next fresh (.insert t.schema.name cells)) := hdb
      rw [ha, hmap, mem_ids]
      simp only [Ledger.note, List.mem_append, List.mem_singleton, hled, mem_ids, List.mem_map,
        exists_exists_and_eq_and, edit_name, TableState.next]
      constructor
      · rintro (⟨u, hu, hname, hid⟩ | rfl)
        · refine ⟨u, hu, hname, ?_⟩
          split
          · exact List.mem_append_left _ hid
          · exact hid
        · refine ⟨t, hmem, rfl, ?_⟩
          rw [if_pos rfl]
          exact List.mem_append_right _ (List.mem_singleton_self _)
      · rintro ⟨u, hu, hname, hid⟩
        split at hid
        · next htable =>
            rcases List.mem_append.mp hid with hid | hid
            · exact Or.inl ⟨u, hu, hname, hid⟩
            · exact Or.inr (Prod.ext (hname.symm.trans htable) (List.mem_singleton.mp hid))
        · exact Or.inl ⟨u, hu, hname, hid⟩
  | _ => exact hsame (fun _ => rfl) hdb

end Database

theorem Op.Uses.mono {ι : Type} {good good' : String → ι → Prop} {op : Op ι}
    (h : op.Uses good) (hg : ∀ table id, good table id → good' table id) : op.Uses good' := by
  cases op <;> first | trivial | exact hg _ _ h

namespace Store

open Pager Journal

/-! ## A handle beside the model -/

/-- The handle stores the tables of `db`, and the ledger lists their ids. -/
structure Mirrored (led : Ledger RowId) (pg : Pager Disk) (db : Database RowId) : Prop where
  stores : ∃ L, Stores pg L ∧ dbOf L = db
  ledger : ∀ x, x ∈ led ↔ x ∈ db.ids

namespace Mirrored

variable {led : Ledger RowId} {pg pg' : Pager Disk} {db : Database RowId}

theorem intact (h : Mirrored led pg db) : db.Intact := by
  obtain ⟨L, hL, rfl⟩ := h.stores
  exact hL.intact

theorem clean (h : Mirrored led pg db) : pg.Clean := by
  obtain ⟨L, hL, -⟩ := h.stores
  exact hL.clean

theorem quiet (h : Mirrored led pg db) : pg.dev.Quiet := by
  obtain ⟨L, hL, -⟩ := h.stores
  exact hL.quiet

theorem still (h : Mirrored led pg db) (hs : Still pg pg') (hc : pg'.Clean) :
    Mirrored led pg' db := by
  obtain ⟨L, hL, rfl⟩ := h.stores
  exact ⟨⟨L, hL.still hs hc, rfl⟩, h.ledger⟩

/-- The ids of the ledger are those that the tables have given out. -/
theorem uses (h : Mirrored led pg db) {op : Op RowId} (he : led.Covers (.call op)) :
    op.Uses fun table id => ∀ t ∈ db, t.schema.name = table → id ∈ t.issued := by
  refine Op.Uses.mono he fun table id hid t ht htable => ?_
  obtain ⟨u, hu, hname, hmem⟩ := Database.mem_ids.mp ((h.ledger _).mp hid)
  have hut : u = t := List.inj_on_of_nodup_map h.intact.names hu ht (hname.trans htable.symm)
  exact hut ▸ hmem

end Mirrored

/-- One event: the store answers what the model answers, or finds no room. -/
theorem happen_mirrored {led : Ledger RowId} {pg : Pager Disk} {db : Database RowId}
    (h : Mirrored led pg db) (e : StoreEvent RowId) (he : led.Covers e) :
    ∃ fresh, db.New e fresh ∧ (happen e pg).1 = Outcome.ofExcept (db.happen fresh e).1 ∧
      Mirrored (led.after e (happen e pg).1) (happen e pg).2 (db.happen fresh e).2 ∧
      ∀ err, (happen e pg).1 = .err err →
        Still pg (happen e pg).2 ∧ (db.happen fresh e).2 = db := by
  cases e with
  | remount =>
      obtain ⟨pg', hopen, hstill, hclean⟩ := open_clean h.clean h.quiet
      have hrun : happen .remount pg = (.ok .done, pg') := by
        rw [happen, hopen]
      rw [hrun]
      refine ⟨some ⟨0, 0⟩, ⟨fun hnone => ?_, fun _ _ _ _ he => ?_⟩, rfl, h.still hstill hclean,
        fun err herr => ?_⟩
      · cases hnone
      · cases he
      · cases herr
  | call op =>
      obtain ⟨L, hL, rfl⟩ := h.stores
      obtain ⟨o, pg', L', hrun, hL', hans, herr⟩ := run_refines hL op (h.uses he)
      have hhappen : happen (.call op) pg = (o, pg') := hrun
      rw [hhappen]
      rcases hans with ⟨hw, rfl, hdb⟩ | ⟨fresh, hfresh, hans⟩
      · refine ⟨none, ⟨fun _ => ⟨op, rfl, hw.1, hw.2⟩, fun id hid => ?_⟩, rfl,
          ⟨⟨L', hL', hdb⟩, h.ledger⟩, fun err hout => ?_⟩
        · cases hid
        · exact ⟨(herr err hout).1, rfl⟩
      · injection hans with ho hdb
        refine ⟨some fresh, ⟨fun hnone => ?_, ?_⟩, ho.symm, ⟨⟨L', hL', hdb.symm⟩, ?_⟩,
          fun err hout => ?_⟩
        · cases hnone
        · rintro id hid table cells hop t ht hname
          cases hid
          cases hop
          exact hfresh table cells rfl t ht hname
        · rw [← ho]
          show ∀ x, _ ↔ x ∈ ((dbOf L).step fresh op).2.ids
          rcases hstep : (dbOf L).step fresh op with ⟨r, db'⟩
          cases r with
          | error err =>
              rw [hstep] at ho hdb
              obtain ⟨-, hLL⟩ := herr err ho.symm
              rw [hLL] at hdb
              show ∀ x, x ∈ led ↔ x ∈ db'.ids
              rw [show db' = dbOf L from hdb]
              exact h.ledger
          | ok a => exact Database.mem_note h.ledger h.intact.names hstep
        · obtain ⟨hstill, hLL⟩ := herr err hout
          refine ⟨hstill, Eq.trans hdb ?_⟩
          rw [hLL]

/-- An operation leaves the handle where it was, or it is one that writes and has
committed once. -/
theorem Mirrored.commits {led : Ledger RowId} {pg : Pager Disk} {db : Database RowId}
    (h : Mirrored led pg db) {op : Op RowId} (he : led.Covers (.call op)) :
    Still pg (run op pg).2 ∨ op.writes = true ∧
      (run op pg).2.sb.generation = (pg.sb.generation + 1) % 2 ^ 64 := by
  have huses := h.uses he
  obtain ⟨L, hL, rfl⟩ := h.stores
  obtain ⟨o, pg', L', hrun, -, -, -, hcommit⟩ := run_commits hL op huses
  rw [hrun]
  exact hcommit.imp_right fun h => ⟨h.1, h.2.1⟩

/-- With the sum checked, a commit at the end of the counter panics. -/
theorem Mirrored.checked {led : Ledger RowId} {pg : Pager Disk} {db : Database RowId}
    (h : Mirrored led pg db) {op : Op RowId} (he : led.Covers (.call op))
    (hmoved : ¬ Still pg (run op pg).2) :
    (runChecked op pg).1 =
      if 2 ^ 64 ≤ pg.sb.generation + 1 then .panic else (run op pg).1 := by
  have huses := h.uses he
  obtain ⟨L, hL, rfl⟩ := h.stores
  obtain ⟨o, pg', L', hrun, -, -, -, hcommit⟩ := run_commits hL op huses
  rw [hrun] at hmoved ⊢
  exact (hcommit.resolve_left hmoved).2.2

/-- So a call that comes back has not taken the counter round. -/
theorem Mirrored.commitsOnce {led : Ledger RowId} {pg : Pager Disk} {db : Database RowId}
    (h : Mirrored led pg db) {op : Op RowId} (he : led.Covers (.call op))
    (hback : (runChecked op pg).1.returned) :
    Still pg (run op pg).2 ∨ (run op pg).2.sb.generation = pg.sb.generation + 1 := by
  by_cases hstill : Still pg (run op pg).2
  · exact .inl hstill
  · obtain ⟨-, hgen⟩ := (h.commits he).resolve_left hstill
    by_cases hend : 2 ^ 64 ≤ pg.sb.generation + 1
    · rw [h.checked he hstill, if_pos hend] at hback
      exact hback.elim
    · exact .inr (hgen.trans (Nat.mod_eq_of_lt (by omega)))

/-- A reading operation answers what the model answers. -/
theorem Mirrored.reads {led : Ledger RowId} {pg : Pager Disk} {db : Database RowId}
    (h : Mirrored led pg db) {op : Op RowId} (hr : op.writes = false)
    (he : led.Covers (.call op)) (fresh : RowId) :
    (run op pg).1 = Outcome.ofExcept (db.step fresh op).1 := by
  obtain ⟨f, hnew, ho, -, -⟩ := happen_mirrored h (.call op) he
  cases f with
  | none =>
      obtain ⟨op', hop, hw, -⟩ := hnew.room rfl
      cases hop
      rw [hr] at hw
      cases hw
  | some id =>
      have hsame : db.step id op = db.step fresh op := by
        cases op <;> first | rfl | cases hr
      rw [← hsame]
      exact ho

/-- A formatted device holds no table. -/
theorem stores_fresh {pg : Pager Disk} {T : Nat} (hc : pg.Clean) (hq : pg.dev.Quiet)
    (hsb : pg.sb = freshSb T) (hT : firstDataPage ≤ T) : Stores pg [] := by
  have htotal : (volumeOf pg hc).total = T := by
    show pg.sb.totalPages = T
    rw [hsb]
    rfl
  refine ⟨hc, hq, ⟨List.range' firstDataPage (T - firstDataPage), [], ⟨?_, ?_, fun _ => rfl, ?_⟩⟩,
    ⟨List.nodup_nil, fun t ht => ?_, fun t ht => ?_⟩⟩
  · rw [hsb]
    have hhwm : (freshSb T).hwm = firstDataPage := rfl
    have hsize : (freshSb T).totalPages = T := rfl
    refine ⟨htotal.symm, hhwm.ge, ?_, ⟨[], FreeList.nil, ?_⟩, fun o ho => ?_, ?_⟩
    · rw [htotal, hhwm]
      exact hT
    · simp only [hhwm, hsize, List.nil_append]
    · exact absurd ho (Multiset.notMem_zero o)
    · rw [htotal, catalogObjs, if_pos rfl, tableObjs_nil, add_zero, Objects.feet_zero, add_zero,
        dataPages]
  · rw [hsb]
    rfl
  · exact fun _ _ ho => absurd ho (Multiset.notMem_zero _)
  · cases ht
  · cases ht

theorem format_room {d d' : Disk} {pg : Pager Disk} (h : formatStore d = (.ok pg, d')) :
    firstDataPage + 1 < d.sectors / pageSectors := by
  by_contra hroom
  unfold formatStore Pager.format at h
  rw [Fallible.run_bind_ok (Fallible.run_gets _ d)] at h
  have hsec : BlockDevice.sectorCount d = d.sectors := rfl
  rw [hsec, if_pos (by omega), Fallible.run_throw] at h
  injection h with h _
  cases h

theorem format_mirrored {d d' : Disk} {pg : Pager Disk} (hq : d.Quiet)
    (h : formatStore d = (.ok pg, d')) : Mirrored [] pg [] := by
  have hroom := format_room h
  obtain ⟨pg', hrun, hclean, hq', -, hsb⟩ := format_clean hq hroom
  rw [h] at hrun
  injection hrun with hpg _
  injection hpg with hpg
  subst hpg
  exact ⟨⟨[], stores_fresh hclean hq' hsb (by omega), rfl⟩, fun x => Iff.rfl⟩

/-- Every handle that comes from formatting the device stores the tables of
some database. -/
theorem Reachable.mirrored {d : Disk} (hq : d.Quiet) {led : Ledger RowId} {pg : Pager Disk}
    (h : Reachable d led pg) : ∃ db, Mirrored led pg db := by
  induction h with
  | format h => exact ⟨[], format_mirrored hq h⟩
  | event h e he ih =>
      obtain ⟨db, hdb⟩ := ih
      obtain ⟨fresh, -, -, hnext, -⟩ := happen_mirrored hdb e he
      exact ⟨_, hnext⟩

/-- Every history. -/
theorem history_mirrored (es : List (StoreEvent RowId)) :
    ∀ {led : Ledger RowId} {pg : Pager Disk} {db : Database RowId}, Mirrored led pg db →
      HandedOut es led pg → ∃ ids : List (Option RowId), ids.length = es.length ∧
        Database.AllNew (es.zip ids) db ∧
        (history es pg).1 = (Database.history (es.zip ids) db).1.map Outcome.ofExcept ∧
        Mirrored (ledger es led pg) (history es pg).2 (Database.history (es.zip ids) db).2 := by
  induction es with
  | nil => exact fun h _ => ⟨[], rfl, trivial, rfl, h⟩
  | cons e es ih =>
      intro led pg db h hes
      obtain ⟨fresh, hnew, ho, hnext, -⟩ := happen_mirrored h e hes.1
      obtain ⟨ids, hlen, hall, hos, hlast⟩ := ih hnext hes.2
      refine ⟨fresh :: ids, by simp [hlen], ⟨hnew, hall⟩, ?_, hlast⟩
      rw [history_cons, List.zip_cons_cons, Database.history_cons, ho, hos, List.map_cons]

/-- The store refines the database. On a device that works, whatever comes
after formatting it, every answer is the answer of the model; only what finds
no room is left to the store. Row ids are the same on both sides, and the model
asks of them that a table never gives one out twice. -/
theorem store_refines {d d' : Disk} {pg : Pager Disk} (hq : d.Quiet)
    (h : formatStore d = (.ok pg, d')) (es : List (StoreEvent RowId)) (hes : HandedOut es [] pg) :
    ∃ ids : List (Option RowId), ids.length = es.length ∧ Database.AllNew (es.zip ids) [] ∧
      (history es pg).1 = (Database.history (es.zip ids) []).1.map Outcome.ofExcept := by
  obtain ⟨ids, hlen, hnew, hos, -⟩ := history_mirrored es (format_mirrored hq h) hes
  exact ⟨ids, hlen, hnew, hos⟩

theorem blank_sectors : 2052 * pageSectors < 2 ^ 64 := by decide

/-- An empty disk with room for two data pages. -/
def blankDisk : Disk :=
  Disk.attach (2052 * pageSectors) blank_sectors (fun _ => Buf.zero sectorSize) Disk.noFaults

theorem blankDisk_format : ∃ pg, formatStore blankDisk = (.ok pg, pg.dev) := by
  have hroom : firstDataPage + 1 < blankDisk.sectors / pageSectors := by decide
  obtain ⟨pg, hformat, -⟩ := format_clean (fun _ => rfl) hroom
  exact ⟨pg, hformat⟩

theorem store_refines_blank : ∃ pg, formatStore blankDisk = (.ok pg, pg.dev) ∧
    ∃ ids : List (Option RowId), ids.length = 4 ∧
      (history [.call (.createTable "t"), .call (.insert "t" []), .remount,
        .call (.scan "t")] pg).1 =
      (Database.history ([.call (.createTable "t"), .call (.insert "t" []), .remount,
        .call (.scan "t")].zip ids) []).1.map Outcome.ofExcept := by
  obtain ⟨pg, hformat⟩ := blankDisk_format
  have hes : HandedOut [.call (.createTable "t"), .call (.insert "t" []), .remount,
      .call (.scan "t")] [] pg := ⟨trivial, trivial, trivial, trivial, trivial⟩
  obtain ⟨ids, hlen, -, hos⟩ := store_refines (fun _ => rfl) hformat _ hes
  exact ⟨pg, hformat, ids, hlen, hos⟩

end Store

end TablesOS
