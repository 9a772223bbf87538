import TablesOS.Proofs.Leads
import TablesOS.Proofs.Constraints

/-!
# What the screens read

The reads behind a key, one lemma for each: the names on the table list are
those of tables; an entry of the navigation list names a table and a column of
it, since a foreign key does at both ends; an editor is for the row it was opened
on.
-/

namespace TablesOS

open Store Pager

namespace Views

open Asking Ui

variable {led : Ledger RowId} {db : Database RowId}

/-- The database has that column of that table. -/
def HasColumn (db : Database RowId) (table col : String) : Prop :=
  ∃ t ∈ db, t.schema.name = table ∧ col ∈ t.schema.names

theorem peeks_indexed {α : Type} (o : Option α) :
    Peeks led db (indexed o) fun a => o = some a := by
  intro pg hpg a pg' hrun
  cases o with
  | none => cases hrun
  | some x =>
      cases hrun
      exact ⟨Still.refl pg, hpg.clean, rfl⟩

theorem peeks_getTable (table : String) :
    Peeks led db (getTable table) (· = (tableOf db table).map (·.schema)) :=
  (reads_getTable table).peeks

/-- A read whose answer does not matter. -/
theorem peeks_getRow {table : String} {id : RowId} (he : (table, id) ∈ led) :
    Peeks led db (getRow table id) fun _ => True := by
  refine (@reads_ask led db (.getRow table id) rfl he).peeks.bind fun r _ => ?_
  split <;> exact peeks_pure trivial

theorem peeks_followFk {table : String} {id : RowId} (fkName : String) (he : (table, id) ∈ led) :
    Peeks led db (followFk table id fkName) fun _ => True := by
  refine (@reads_ask led db (.followFk table id fkName) rfl he).peeks.bind fun r _ => ?_
  split <;> exact peeks_pure trivial

theorem peeks_referencingRows {table : String} {id : RowId} (he : (table, id) ∈ led) :
    Peeks led db (referencingRows table id) fun _ => True := by
  refine (@reads_ask led db (.referencingRows table id) rfl he).peeks.bind fun r _ => ?_
  split <;> exact peeks_pure trivial

/-! ## The navigation list -/

/-- Both ends of a foreign key are columns. -/
theorem hasColumn_of_key (hi : db.Intact) {t : TableState RowId} (ht : t ∈ db) {fk : ForeignKey}
    (hfk : fk ∈ t.schema.fks) :
    HasColumn db t.schema.name fk.fromCol ∧ HasColumn db fk.toTable fk.toCol := by
  obtain ⟨c, hc, hname, u, hu, hto, d, hd, hdname, -⟩ := (hi.keys t ht fk hfk).closed
  exact ⟨⟨t, ht, rfl, hname ▸ List.mem_map_of_mem hc⟩,
    ⟨u, hu, hto, hdname ▸ List.mem_map_of_mem hd⟩⟩

/-- The browsers behind the entries filter by columns that are there. -/
def Leading (db : Database RowId) (n : NavTarget) : Prop := HasColumn db n.2.1 n.2.2.1

theorem peeks_outgoing {table : String} {id : RowId} (he : (table, id) ∈ led)
    {t : Table} {row : Row} {fk : ForeignKey} (hto : HasColumn db fk.toTable fk.toCol) :
    Peeks led db (outgoing table id t row fk) (∀ n ∈ ·, Leading db n) := by
  unfold outgoing
  split
  · exact peeks_pure fun n hn => absurd hn List.not_mem_nil
  · have hlabel : Peeks led db (outgoingLabel table id fk) fun _ => True := by
      refine (peeks_followFk fk.name he).bind fun r _ => ?_
      split
      · exact (peeks_getTable _).bind fun _ _ => peeks_pure trivial
      · exact peeks_pure trivial
    refine hlabel.bind fun label _ => peeks_pure fun n hn => ?_
    rw [List.mem_singleton.mp hn]
    exact hto

theorem peeks_outgoings (hi : db.Intact) {table : String} {id : RowId} (he : (table, id) ∈ led) :
    Peeks led db (outgoings table id) (∀ n ∈ ·, Leading db n) := by
  refine (peeks_getTable table).bind fun t ht => ?_
  cases t with
  | none => exact peeks_pure fun n hn => absurd hn List.not_mem_nil
  | some t =>
      obtain ⟨u, hu, rfl⟩ := Option.map_eq_some_iff.mp ht.symm
      refine (peeks_getRow he).bind fun row _ => ?_
      cases row with
      | none => exact peeks_pure fun n hn => absurd hn List.not_mem_nil
      | some row =>
          refine (peeks_mapM fun fk hfk => peeks_outgoing he
            (hasColumn_of_key hi (tableOf_mem hu).1 hfk).2).bind fun out hout => ?_
          refine peeks_pure fun n hn => ?_
          obtain ⟨ns, hns, hmem⟩ := List.mem_flatten.mp hn
          exact hout ns hns n hmem

theorem peeks_incoming (hi : db.Intact) {table : String} {id : RowId} (he : (table, id) ∈ led)
    (ref : String × String × RowId × Row) :
    Peeks led db (incoming table id ref) (∀ n ∈ ·, Leading db n) := by
  refine (peeks_getTable ref.1).bind fun ot hot => (peeks_getTable table).bind fun t _ => ?_
  split
  · next ot _ =>
      obtain ⟨u, hu, rfl⟩ := Option.map_eq_some_iff.mp hot.symm
      obtain ⟨humem, hname⟩ := tableOf_mem hu
      split
      · exact peeks_pure fun n hn => absurd hn List.not_mem_nil
      · next fk hfk =>
          have hcol := (hasColumn_of_key hi humem (List.mem_of_find?_eq_some hfk)).1
          rw [hname] at hcol
          refine (peeks_getRow he).bind fun srow _ => ?_
          split
          · exact peeks_pure fun n hn => absurd hn List.not_mem_nil
          · refine (peeks_getTable table).bind fun t _ => peeks_pure fun n hn => ?_
            split at hn
            · exact absurd hn List.not_mem_nil
            · rw [List.mem_singleton.mp hn]
              exact hcol
  · exact peeks_pure fun n hn => absurd hn List.not_mem_nil

theorem peeks_navTargets (hi : db.Intact) {table : String} {id : RowId} (he : (table, id) ∈ led) :
    Peeks led db (navTargets table id) (∀ n ∈ ·, Leading db n) := by
  refine (peeks_outgoings hi he).bind fun out hout => ?_
  refine (peeks_referencingRows he).bind fun refs _ => ?_
  refine (peeks_mapM fun ref _ => peeks_incoming hi he ref).bind fun inc hinc => ?_
  refine peeks_pure fun n hn => ?_
  rcases List.mem_append.mp hn with hn | hn
  · exact hout n hn
  · obtain ⟨ns, hns, hmem⟩ := List.mem_flatten.mp hn
    exact hinc ns hns n hmem

/-- A browser that can be opened: not sorted, and filtered by a column of its
table at most. -/
structure Openable (db : Database RowId) (b : Browser) : Prop where
  sort : b.sort = none
  table : ∃ t ∈ db, t.schema.name = b.table
  filter : ∀ c val, b.filter = some (c, val) → HasColumn db b.table c

/-- The row view stays on its row, and opens such browsers. -/
theorem peeks_dispatch (hi : db.Intact) {v : RowView} (he : (v.table, v.id) ∈ led) (k : Ps2.Key) :
    Peeks led db (v.dispatch k) fun r => r.1.table = v.table ∧ r.1.id = v.id ∧
      ∀ b, r.2 = .push b → Openable db b := by
  refine (peeks_navTargets hi he).bind fun navs hnavs => peeks_pure ?_
  split
  · exact ⟨rfl, rfl, fun b hb => by cases hb⟩
  · exact ⟨rfl, rfl, fun b hb => by cases hb⟩
  · exact ⟨rfl, rfl, fun b hb => by cases hb⟩
  · split
    · next label tbl col val hn =>
        refine ⟨rfl, rfl, fun b hb => ?_⟩
        cases hb
        obtain ⟨t, ht, hname, hcol⟩ := hnavs _ (List.mem_of_getElem? hn)
        refine ⟨rfl, ⟨t, ht, hname⟩, fun c val' hf => ?_⟩
        cases hf
        exact ⟨t, ht, hname, hcol⟩
    · exact ⟨rfl, rfl, fun b hb => by cases hb⟩
  · exact ⟨rfl, rfl, fun b hb => by cases hb⟩

/-! ## The editor -/

theorem peeks_openEditor {table : String} {id : Option RowId}
    (he : ∀ i, id = some i → (table, i) ∈ led) :
    Peeks led db (openEditor table id) fun o =>
      ∀ ed, o = some ed → ed.table = table ∧ ed.id = id := by
  refine (peeks_getTable table).bind fun t _ => ?_
  cases t with
  | none => exact peeks_pure fun ed hed => by cases hed
  | some t =>
      have hrow : Peeks led db (id.elim (pure none) (getRow table)) fun _ => True := by
        cases id with
        | none => exact peeks_pure trivial
        | some i => exact peeks_getRow (he i rfl)
      refine hrow.bind fun row _ => peeks_pure fun ed hed => ?_
      cases hed
      exact ⟨rfl, rfl⟩

theorem peeks_saved (ed : Editor) (r : Except StoreError (Reply RowId)) :
    Peeks led db (saved ed r) fun o =>
      ∀ ed', o = some ed' → ed'.table = ed.table ∧ ed'.id = ed.id := by
  cases r with
  | ok a => exact peeks_pure fun ed' hed => by cases hed
  | error e =>
      refine (peeks_getTable ed.table).bind fun t _ => peeks_pure fun ed' hed => ?_
      cases hed
      exact ⟨rfl, rfl⟩

theorem peeks_nextUniqueValue (table : String) (col : ℕ) (ty : Ty) :
    Peeks led db (nextUniqueValue table col ty) fun _ => True := by
  unfold nextUniqueValue
  split
  · exact peeks_pure trivial
  · refine (reads_scan table).peeks.bind fun rows _ => ?_
    split <;> exact peeks_pure trivial

theorem peeks_openBuilder (ed : Editor) (fi : ℕ) :
    Peeks led db (openBuilder ed fi) fun _ => True := by
  refine (peeks_indexed _).bind fun c _ => (peeks_getTable _).bind fun t _ => ?_
  split
  · exact peeks_pure trivial
  · refine (peeks_indexed _).bind fun f _ => ?_
    have hoffered : Peeks led db (offered ed fi c (seeded fi c f)) fun _ => True := by
      unfold offered
      split
      · exact (peeks_nextUniqueValue _ _ _).bind fun _ _ => peeks_pure trivial
      · exact peeks_pure trivial
    exact hoffered.bind fun b _ => peeks_pure trivial

/-! ## The table list -/

/-- The names on the table list are those of tables. -/
theorem leads_tableNames {w : World} {desk : Desk} {Q : List String → World → Desk → Prop}
    (h : ∀ names, (∀ n ∈ names, ∃ t ∈ w.db, t.schema.name = n) → Q names w desk) :
    Leads w desk tableNames Q := by
  refine (leads_onStore (@reads_ask _ _ .listTables rfl trivial).peeks
    (Q := fun r w' desk' => r = (w.db.step ⟨0, 0⟩ .listTables).1 ∧ w' = w ∧ desk' = desk)
    fun r hr => ⟨hr, rfl, rfl⟩).bind ?_
  rintro r w' desk' ⟨rfl, rfl, rfl⟩
  refine leads_pure (h _ fun n hn => ?_)
  obtain ⟨info, hinfo, rfl⟩ := List.mem_map.mp hn
  obtain ⟨t, ht, rfl⟩ := List.mem_map.mp hinfo
  exact ⟨t, ht, rfl⟩

end Views

end TablesOS
