import TablesOS.Proofs.Representation

/-!
# Reading answers what the model answers

Each query of the store, evaluated in a readable state whose schemas are
closed, comes to the answer of the model on the tables that the pages hold. In
particular it comes back: no lookup it unwraps can fail.
-/

namespace TablesOS

open Prog Codec

/-! ## Columns by name -/

namespace Table

theorem columnIndex_lt {t : Table} {name : String} {i : Nat} (h : t.columnIndex name = some i) :
    ∃ c, t.columns[i]? = some c ∧ c.name = name := by
  obtain ⟨hlt, hname, -⟩ := List.findIdx?_eq_some_iff_getElem.mp h
  exact ⟨t.columns[i], List.getElem?_eq_getElem hlt, by simpa using hname⟩

theorem columnIndex_of_mem {t : Table} {c : Column} (hc : c ∈ t.columns) :
    ∃ i, t.columnIndex c.name = some i := by
  rw [← Option.isSome_iff_exists, columnIndex, List.findIdx?_isSome, List.any_eq_true]
  exact ⟨c, hc, by simp⟩

theorem column_eq {t : Table} {name : String} : t.column name =
    (t.columnIndex name).bind (t.columns[·]?) := by
  unfold column columnIndex
  induction t.columns with
  | nil => rfl
  | cons c cs ih =>
      rw [List.find?_cons, List.findIdx?_cons]
      cases c.name == name with
      | true => rfl
      | false =>
          rw [ih]
          cases cs.findIdx? fun c => c.name == name <;> rfl

theorem cell_eq {t : Table} {name : String} {i : Nat} (h : t.columnIndex name = some i)
    (row : Row) : t.cell row name = Store.cellAt row i := by
  rw [cell, h]
  rfl

end Table

/-! ## Tables by name -/

namespace Database

variable {ι : Type} {db : Database ι}

theorem refuseFirst_eq {α : Type} (xs : List α) (e : α → Option StoreError) :
    Outcome.ofExcept (refuseFirst xs e) = (xs.findSome? e).elim (.ok ()) .err := by
  unfold refuseFirst
  cases xs.findSome? e <;> rfl

theorem refuseFirst_ok {α : Type} {xs : List α} {e : α → Option StoreError} :
    refuseFirst xs e = .ok () ↔ ∀ x ∈ xs, e x = none := by
  unfold refuseFirst
  cases h : xs.findSome? e with
  | none => simpa using List.findSome?_eq_none_iff.mp h
  | some err =>
      obtain ⟨x, hx, hex⟩ := List.exists_of_findSome?_eq_some h
      simp only [reduceCtorEq, false_iff, not_forall]
      exact ⟨x, hx, by simp [hex]⟩

theorem refuse_eq (c : Prop) {_ : Decidable c} (e : StoreError) :
    Outcome.ofExcept (refuse c e) = if c then .err e else .ok () := by
  unfold refuse
  split <;> rfl

theorem refuse_pos {α : Type} {c : Prop} {_ : Decidable c} (h : c) {e : StoreError}
    {f : Unit → Except StoreError α} : (refuse c e >>= f) = .error e := by
  rw [refuse, if_pos h]
  rfl

theorem refuse_neg {α : Type} {c : Prop} {_ : Decidable c} (h : ¬ c) {e : StoreError}
    {f : Unit → Except StoreError α} : (refuse c e >>= f) = f () := by
  rw [refuse, if_neg h]
  rfl

theorem position_some {t : Table} {col shown : String} {i : Nat}
    (h : t.columnIndex col = some i) : position t col shown = .ok i := by
  rw [position, h]

theorem position_none {t : Table} {col shown : String} (h : t.columnIndex col = none) :
    position t col shown = .error (.notFound ("column '" ++ shown ++ "'")) := by
  rw [position, h]

/-- Under distinct names a table is found under its own. -/
theorem lookup_of_mem (h : (db.map (·.schema.name)).Nodup) {t : TableState ι} (ht : t ∈ db) :
    db.lookup t.schema.name = .ok t := by
  have hfind : db.find? (fun u => u.schema.name == t.schema.name) = some t := by
    obtain ⟨A, B, rfl⟩ := List.append_of_mem ht
    rw [List.find?_append, List.find?_cons_of_pos (by simp)]
    rw [List.map_append, List.map_cons, List.nodup_append] at h
    have hA : A.find? (fun u => u.schema.name == t.schema.name) = none := by
      rw [List.find?_eq_none]
      intro u hu heq
      exact h.2.2 _ (List.mem_map_of_mem hu) _ List.mem_cons_self (by simpa using heq)
    rw [hA]
    rfl
  rw [lookup, hfind]

theorem lookup_mem {name : String} {t : TableState ι} (h : db.lookup name = .ok t) :
    t ∈ db ∧ t.schema.name = name := by
  unfold lookup at h
  cases hf : db.find? (fun u => u.schema.name == name) with
  | none =>
      rw [hf] at h
      cases h
  | some u =>
      rw [hf] at h
      cases h
      exact ⟨List.mem_of_find?_eq_some hf, by simpa using List.find?_some hf⟩

end Database

namespace Store

open Pager

/-- Where a name leads: to the table of the catalog that the model finds, or
nowhere for both. -/
theorem located (L : List Stored) (name : String) :
    (∃ A t B, L = A ++ t :: B ∧ t.schema.name = name ∧
      catIndex (L.map Stored.entry) name = .ok A.length ∧
      (dbOf L).lookup name = .ok t.state) ∨
    (catIndex (L.map Stored.entry) name = .err (.notFound ("table '" ++ name ++ "'")) ∧
      (dbOf L).lookup name = .error (.notFound ("table '" ++ name ++ "'")) ∧
      ∀ t ∈ L, t.schema.name ≠ name) := by
  induction L with
  | nil => exact Or.inr ⟨rfl, rfl, by simp⟩
  | cons t L ih =>
      by_cases ht : t.schema.name = name
      · refine Or.inl ⟨[], t, L, rfl, ht, ?_, ?_⟩
        · unfold catIndex orElse
          rw [List.map_cons, List.findIdx?_cons, if_pos (by simpa using ht)]
          rfl
        · unfold Database.lookup dbOf
          rw [List.map_cons, List.find?_cons_of_pos (by simpa using ht)]
      · have hidx : catIndex ((t :: L).map Stored.entry) name = Outcome.okOr
            (.notFound ("table '" ++ name ++ "'"))
            (((L.map Stored.entry).findIdx? (·.name == name)).map (· + 1)) := by
          unfold catIndex orElse
          rw [List.map_cons, List.findIdx?_cons, if_neg (by simpa using ht)]
        have hlook : (dbOf (t :: L)).lookup name = (dbOf L).lookup name := by
          unfold Database.lookup dbOf
          rw [List.map_cons, List.find?_cons_of_neg (by simpa using ht)]
        rw [hidx, hlook]
        unfold catIndex orElse at ih
        rcases ih with ⟨A, u, B, rfl, hu, hi, hl⟩ | ⟨hi, hl, hne⟩
        · refine Or.inl ⟨t :: A, u, B, rfl, hu, ?_, hl⟩
          cases hfind : ((A ++ u :: B).map Stored.entry).findIdx? (·.name == name) with
          | none =>
              rw [hfind] at hi
              cases hi
          | some i =>
              rw [hfind] at hi
              injection hi with hi
              rw [hi]
              rfl
        · refine Or.inr ⟨?_, hl, fun u hu => ?_⟩
          · cases hfind : (L.map Stored.entry).findIdx? (·.name == name) with
            | none => rfl
            | some i =>
                rw [hfind] at hi
                cases hi
          · rcases List.mem_cons.mp hu with rfl | hu
            · exact ht
            · exact hne u hu

theorem at_entry (A : List Stored) (t : Stored) (B : List Stored) :
    at! ((A ++ t :: B).map Stored.entry) A.length = .ok t.entry := by
  unfold at!
  rw [List.getElem?_map, List.getElem?_append_right (Nat.le_refl _), Nat.sub_self]
  rfl

/-! ## Lookups in a query -/

section Lookups

variable {α β : Type} (e : StoreError) (a : α) (f : α → PageQuery β)

@[simp] theorem orElse_some_bind : ((liftM (orElse e (some a)) : PageQuery α) >>= f) = f a := rfl

@[simp] theorem orElse_none_bind :
    ((liftM (orElse e none) : PageQuery α) >>= f) = Query.fail e := rfl

@[simp] theorem unwrap_some_bind : ((liftM (unwrap (some a)) : PageQuery α) >>= f) = f a := rfl

@[simp] theorem ok_bind : ((liftM (.ok a : Outcome StoreError α) : PageQuery α) >>= f) = f a := rfl

end Lookups

/-! ## Row ids -/

theorem rowIdAt_inj {ps : List Nat} (hnd : ps.Nodup) {j k : Nat}
    (hj : j < ps.length * idxCap) (hk : k < ps.length * idxCap)
    (h : rowIdAt ps j = rowIdAt ps k) : j = k := by
  have hcap : 0 < idxCap := by decide
  have hj' : j / idxCap < ps.length := (Nat.div_lt_iff_lt_mul hcap).mpr hj
  have hk' : k / idxCap < ps.length := (Nat.div_lt_iff_lt_mul hcap).mpr hk
  unfold rowIdAt at h
  injection h with hpage hslot
  rw [List.getD_eq_getElem _ _ hj', List.getD_eq_getElem _ _ hk'] at hpage
  have hdiv := (List.Nodup.getElem_inj_iff hnd).mp hpage
  rw [← Nat.div_add_mod j idxCap, ← Nat.div_add_mod k idxCap, hdiv, hslot]

section Queries

variable {V : Volume} {s : Staged Superblock Page} {avail cat : List Nat} {L : List Stored}
  {t : Stored}

theorem slots_le (h : Readable V s avail cat L) (ht : t ∈ L) :
    t.slots.length ≤ t.indexPages.length * idxCap := by
  have hlinked : Linked indexLayout (V.view s) t.indexPages t.heads :=
    h.holds.owned.ok _ (Readable.index_mem ht)
  have hle := hlinked.length_le
  rw [Stored.heads, List.length_map] at hle
  exact hle

theorem rowIdAt_slot_inj (h : Readable V s avail cat L) (ht : t ∈ L) {j k : Nat}
    (hj : j < t.slots.length) (hk : k < t.slots.length)
    (heq : rowIdAt t.indexPages j = rowIdAt t.indexPages k) : j = k := by
  have hnd : t.indexPages.Nodup := h.holds.foot_nodup (Readable.index_mem ht)
  have hle := slots_le h ht
  exact rowIdAt_inj hnd (by omega) (by omega) heq

theorem mem_live {x : RowId × List Nat × Row} : x ∈ t.live ↔
    ∃ k, k < t.slots.length ∧ t.slots.getD k none = some x.2 ∧ rowIdAt t.indexPages k = x.1 := by
  unfold Stored.live
  rw [List.mem_filterMap]
  constructor
  · rintro ⟨k, hk, hx⟩
    obtain ⟨r, hr, rfl⟩ := Option.map_eq_some_iff.mp hx
    exact ⟨k, List.mem_range.mp hk, hr, rfl⟩
  · rintro ⟨k, hk, hr, hid⟩
    refine ⟨k, List.mem_range.mpr hk, ?_⟩
    rw [hr, Option.map_some, hid]

theorem getD_mem_slots {k : Nat} (hk : k < t.slots.length) :
    t.slots.getD k none ∈ t.slots := by
  rw [List.getD_eq_getElem _ _ hk]
  exact List.getElem_mem hk

theorem slot_of_live {x : RowId × List Nat × Row} (hx : x ∈ t.live) : some x.2 ∈ t.slots := by
  obtain ⟨k, hk, hr, -⟩ := mem_live.mp hx
  rw [← hr]
  exact getD_mem_slots hk

theorem mem_rows {r : RowId × Row} (hr : r ∈ t.state.rows) :
    ∃ x ∈ t.live, r = (x.1, x.2.2) := by
  obtain ⟨x, hx, rfl⟩ := List.mem_map.mp hr
  exact ⟨x, hx, rfl⟩

/-- The row of a slot is the row of its id. -/
theorem rowOf_slot (h : Readable V s avail cat L) (ht : t ∈ L) {k : Nat}
    (hk : k < t.slots.length) : Database.rowOf t.state (rowIdAt t.indexPages k) =
      (t.slots.getD k none).elim (.error (.notFound "row (deleted)")) fun r => .ok r.2 := by
  unfold Database.rowOf
  cases hr : t.slots.getD k none with
  | none =>
      have hfind : t.state.rows.find? (·.1 == rowIdAt t.indexPages k) = none := by
        rw [List.find?_eq_none]
        intro r hmem heq
        obtain ⟨x, hx, rfl⟩ := mem_rows hmem
        obtain ⟨j, hj, hjr, hid⟩ := mem_live.mp hx
        rw [beq_iff_eq, ← hid] at heq
        rw [rowIdAt_slot_inj h ht hj hk heq, hr] at hjr
        cases hjr
      rw [hfind]
      rfl
  | some r =>
      have hmem : (rowIdAt t.indexPages k, r.2) ∈ t.state.rows :=
        List.mem_map.mpr ⟨(rowIdAt t.indexPages k, r), mem_live.mpr ⟨k, hk, hr, rfl⟩, rfl⟩
      have hsome : (t.state.rows.find? (·.1 == rowIdAt t.indexPages k)).isSome := by
        rw [List.find?_isSome]
        exact ⟨_, hmem, by simp⟩
      obtain ⟨r', hr'⟩ := Option.isSome_iff_exists.mp hsome
      obtain ⟨x, hx, rfl⟩ := mem_rows (List.mem_of_find?_eq_some hr')
      obtain ⟨j, hj, hjr, hid⟩ := mem_live.mp hx
      have heq := List.find?_some hr'
      rw [beq_iff_eq, ← hid] at heq
      rw [rowIdAt_slot_inj h ht hj hk heq, hr] at hjr
      injection hjr with hjr
      rw [hr', hjr]
      rfl

/-! ## Rows -/

theorem fit_eq {n : Nat} {cells : Row} (h : cells.length = n) : fit n cells = cells := by
  unfold fit
  rw [List.take_of_length_le (by omega), h, Nat.sub_self, List.replicate_zero, List.append_nil]

/-- The arity of the rows, as the model has it. -/
def Arity (L : List Stored) : Prop :=
  ∀ t ∈ L, ∀ r ∈ t.state.rows, r.2.length = t.schema.columns.length

theorem decodeRowFitted_run (h : Readable V s avail cat L) (ha : Arity L) (ht : t ∈ L)
    {x : RowId × List Nat × Row} (hx : x ∈ t.live) :
    (decodeRowFitted (x.2.1.headD 0) t.schema.columns.length).eval (s.read V.base) s.ctl =
      .ok x.2.2 := by
  have harity := ha t ht (x.1, x.2.2) (List.mem_map.mpr ⟨x, hx, rfl⟩)
  rw [decodeRowFitted, Query.eval_bind_ok _ _ (h.readRow_run ht (slot_of_live hx)),
    fit_eq harity]
  rfl

/-- All rows of a table, fitted to its schema. -/
theorem fittedRows_run (h : Readable V s avail cat L) (ha : Arity L) (ht : t ∈ L) :
    (fittedRows t.entry t.schema).eval (s.read V.base) s.ctl = .ok t.state.rows := by
  rw [fittedRows, Query.eval_bind_ok _ _ (collect_run h ht), Query.eval_mapM,
    List.mapM_map]
  refine Outcome.mapM_ok fun x hx => ?_
  rw [Function.comp_apply, Query.eval_bind_ok _ _ (decodeRowFitted_run h ha ht hx)]
  rfl

theorem allValuesIn_run (h : Readable V s avail cat L) (ht : t ∈ L) (col : Nat) :
    (allValuesIn t.entry col).eval (s.read V.base) s.ctl =
      .ok (t.state.rows.map fun r => cellAt r.2 col) := by
  rw [allValuesIn, Query.eval_bind_ok _ _ (collect_run h ht), Query.eval_mapM,
    List.mapM_map]
  rw [Stored.state, List.map_map]
  refine Outcome.mapM_ok fun x hx => ?_
  rw [Function.comp_apply, Query.eval_bind_ok _ _ (h.readRow_run ht (slot_of_live hx))]
  rfl

/-! ## Opening a table by name -/

/-- The first steps of nearly every operation: the catalog, the entry of the
table, its schema. -/
theorem opened {β : Type} {A B : List Stored} {name : String}
    (h : Readable V s avail cat (A ++ t :: B))
    (hidx : catIndex ((A ++ t :: B).map Stored.entry) name = .ok A.length)
    (K : List CatEntry → Nat → CatEntry → Table → PageQuery β) :
    (do
      let cat ← loadCatalog
      let i ← catIndex cat name
      let e ← at! cat i
      let t ← schemaOf e
      K cat i e t : PageQuery β).eval (s.read V.base) s.ctl =
    (K ((A ++ t :: B).map Stored.entry) A.length t.entry t.schema).eval (s.read V.base) s.ctl := by
  have ht : t ∈ A ++ t :: B := by simp
  rw [Query.eval_bind_ok _ _ h.loadCatalog_run,
    Query.eval_bind_ok _ _ ((Query.eval_lift _ _ _).trans hidx),
    Query.eval_bind_ok _ _ ((Query.eval_lift _ _ _).trans (at_entry A t B)),
    Query.eval_bind_ok _ _ (h.schemaOf_run ht)]

theorem not_opened {β : Type} {name : String} {e : StoreError}
    (h : Readable V s avail cat L) (hidx : catIndex (L.map Stored.entry) name = .err e)
    (K : List CatEntry → Nat → PageQuery β) :
    (do
      let cat ← loadCatalog
      let i ← catIndex cat name
      K cat i : PageQuery β).eval (s.read V.base) s.ctl = .err e := by
  rw [Query.eval_bind_ok _ _ h.loadCatalog_run, Query.eval_bind, Query.eval_lift, hidx]
  rfl

/-! ## The read operations -/

theorem length_rows (t : Stored) : t.state.rows.length = t.live.length := by
  rw [Stored.state, List.length_map]

theorem listTables_run (h : Readable V s avail cat L) :
    listTables.eval (s.read V.base) s.ctl = .ok (dbOf L).listTables := by
  rw [listTables, Query.eval_bind_ok _ _ h.loadCatalog_run, Query.eval_mapM, List.mapM_map,
    Database.listTables, dbOf, List.map_map]
  refine Outcome.mapM_ok fun t ht => ?_
  rw [Function.comp_apply, Query.eval_bind_ok _ _ (h.schemaOf_run ht), Function.comp_apply,
    length_rows]
  rfl

theorem getTable_run (h : Readable V s avail cat L) (name : String) :
    (getTable name).eval (s.read V.base) s.ctl =
      Outcome.ofExcept ((·.schema) <$> (dbOf L).lookup name) := by
  rcases located L name with ⟨A, t, B, rfl, -, hidx, hlook⟩ | ⟨hidx, hlook, -⟩
  · have hopen := opened h hidx fun _ _ _ t => pure t
    simp only [bind_pure] at hopen
    rw [getTable, hlook]
    exact hopen
  · rw [getTable, not_opened h hidx, hlook]
    rfl

theorem scan_run (h : Readable V s avail cat L) (ha : Arity L) (name : String) :
    (scan name).eval (s.read V.base) s.ctl =
      Outcome.ofExcept ((·.rows) <$> (dbOf L).lookup name) := by
  rcases located L name with ⟨A, t, B, rfl, -, hidx, hlook⟩ | ⟨hidx, hlook, -⟩
  · rw [scan, opened h hidx, hlook]
    exact fittedRows_run h ha (by simp)
  · rw [scan, not_opened h hidx, hlook]
    rfl

/-! ## Rows by id -/

theorem mem_issued {id : RowId} : id ∈ t.state.issued ↔
    ∃ k, k < t.slots.length ∧ rowIdAt t.indexPages k = id := by
  simp [Stored.state]

theorem heads_getD {k : Nat} (hk : k < t.slots.length) :
    t.heads.getD k 0 = Stored.headOf (t.slots.getD k none) := by
  rw [Stored.heads, List.getD_eq_getElem _ _ (by simpa using hk), List.getElem_map,
    List.getD_eq_getElem _ _ hk]

/-- A row id that the table gave out: the row is there, or it is gone, for the
store as for the model. -/
theorem rowAt (h : Readable V s avail cat L) (ha : Arity L) (ht : t ∈ L) {id : RowId}
    (hid : id ∈ t.state.issued) :
    (∃ k r, k < t.slots.length ∧ rowIdAt t.indexPages k = id ∧
      t.slots.getD k none = some r ∧
      (rowHeadAt id).eval (s.read V.base) s.ctl = .ok (r.1.headD 0) ∧
      (decodeRowFitted (r.1.headD 0) t.schema.columns.length).eval (s.read V.base) s.ctl =
        .ok r.2 ∧
      Database.rowOf t.state id = .ok r.2) ∨
    ((rowHeadAt id).eval (s.read V.base) s.ctl = .err (.notFound "row (deleted)") ∧
      Database.rowOf t.state id = .error (.notFound "row (deleted)")) := by
  obtain ⟨k, hk, rfl⟩ := mem_issued.mp hid
  have hhead := rowHeadAt_run h.holds (Readable.index_mem ht)
    (show k < t.heads.length by rw [Stored.heads, List.length_map]; exact hk)
  rw [heads_getD hk] at hhead
  have hrow := rowOf_slot h ht hk
  have hzero := headOf_ne_zero h ht (getD_mem_slots hk)
  cases hr : t.slots.getD k none with
  | none =>
      rw [hr] at hhead hrow hzero
      rw [if_pos (hzero.mpr rfl)] at hhead
      exact Or.inr ⟨hhead, hrow⟩
  | some r =>
      rw [hr] at hhead hrow hzero
      rw [if_neg (hzero.not.mpr (by simp))] at hhead
      refine Or.inl ⟨k, r, hk, rfl, hr, hhead, ?_, hrow⟩
      have hlive : (rowIdAt t.indexPages k, r) ∈ t.live := mem_live.mpr ⟨k, hk, hr, rfl⟩
      exact decodeRowFitted_run h ha ht hlive

theorem getRow_run (h : Readable V s avail cat L) (ha : Arity L) {name : String} {id : RowId}
    (hid : ∀ t ∈ L, t.schema.name = name → id ∈ t.state.issued) :
    (getRow name id).eval (s.read V.base) s.ctl =
      Outcome.ofExcept (do Database.rowOf (← (dbOf L).lookup name) id) := by
  rcases located L name with ⟨A, t, B, rfl, hname, hidx, hlook⟩ | ⟨hidx, hlook, -⟩
  · have ht : t ∈ A ++ t :: B := by simp
    rw [getRow, opened h hidx, hlook]
    rcases rowAt h ha ht (hid t ht hname) with ⟨k, r, -, -, -, hhead, hrow, hm⟩ | ⟨hhead, hm⟩
    · rw [Query.eval_bind_ok _ _ hhead, hrow]
      exact (congrArg Outcome.ofExcept hm).symm
    · rw [Query.eval_bind, hhead]
      exact (congrArg Outcome.ofExcept hm).symm
  · rw [getRow, not_opened h hidx, hlook]
    rfl

/-! ## References -/

/-- The column of a foreign key and the one it points to. -/
theorem fkColumns (hc : (dbOf L).Closed) (ht : t ∈ L) {fk : ForeignKey}
    (hfk : fk ∈ t.schema.fks) :
    (∃ i, t.schema.columnIndex fk.fromCol = some i) ∧
      ∃ u ∈ L, u.schema.name = fk.toTable ∧ ∃ i, u.schema.columnIndex fk.toCol = some i := by
  obtain ⟨c, hcm, hcn, u, hu, hun, d, hd, hdn, -⟩ :=
    hc.fks t.state (List.mem_map_of_mem ht) fk hfk
  obtain ⟨u', hu', rfl⟩ := List.mem_map.mp hu
  refine ⟨hcn ▸ Table.columnIndex_of_mem hcm, u', hu', hun, ?_⟩
  exact hdn ▸ Table.columnIndex_of_mem hd

/-- Two tables of one name are one table. -/
theorem eq_of_name (hc : (dbOf L).Closed) {u : Stored} (ht : t ∈ L) (hu : u ∈ L)
    (h : u.schema.name = t.schema.name) : u = t := by
  have hn : (L.map (·.schema.name)).Nodup := by
    have hn := hc.names
    rw [dbOf, List.map_map] at hn
    exact hn
  exact List.inj_on_of_nodup_map hn hu ht h

/-- A table of the list is found under its name, by the store and by the
model. -/
theorem catIndex_at (hn : ((dbOf L).map (·.schema.name)).Nodup) {i : Nat}
    (hi : L[i]? = some t) :
    catIndex (L.map Stored.entry) t.schema.name = .ok i := by
  obtain ⟨hlt, rfl⟩ := List.getElem?_eq_some_iff.mp hi
  have hfind : (L.map Stored.entry).findIdx? (·.name == L[i].schema.name) = some i := by
    rw [List.findIdx?_eq_some_iff_getElem]
    refine ⟨by simpa using hlt, by simp, fun j hj => ?_⟩
    have hne := List.pairwise_iff_getElem.mp hn j i (by simp [dbOf]; omega)
      (by simpa [dbOf] using hlt) hj
    simpa [dbOf] using hne
  unfold catIndex orElse
  rw [hfind]
  rfl

theorem at_at {i : Nat} (hi : L[i]? = some t) : at! (L.map Stored.entry) i = .ok t.entry := by
  unfold at!
  rw [List.getElem?_map, hi]
  rfl

theorem lookup_at (hc : (dbOf L).Closed) (ht : t ∈ L) :
    (dbOf L).lookup t.schema.name = .ok t.state :=
  Database.lookup_of_mem hc.names (List.mem_map_of_mem ht)

theorem followFk_run (h : Readable V s avail cat L) (hc : (dbOf L).Closed) (ha : Arity L)
    {table : String} {id : RowId} (fkName : String)
    (hid : ∀ t ∈ L, t.schema.name = table → id ∈ t.state.issued) :
    (followFk table id fkName).eval (s.read V.base) s.ctl =
      Outcome.ofExcept ((dbOf L).followFk table id fkName) := by
  unfold Database.followFk
  rcases located L table with ⟨A, t, B, rfl, hname, hidx, hlook⟩ | ⟨hidx, hlook, -⟩
  · have ht : t ∈ A ++ t :: B := by simp
    rw [followFk, opened h hidx, hlook]
    cases hfind : t.schema.fks.find? (·.name == fkName) with
    | none =>
        simp only [Stored.state_schema, hfind, Outcome.except_ok_bind, orElse_none_bind,
          Outcome.except_error_bind]
        rfl
    | some fk =>
        obtain ⟨⟨fci, hfci⟩, u, hu, hun, tci, htci⟩ :=
          fkColumns hc ht (List.mem_of_find?_eq_some hfind)
        have hcell : ∀ row, t.schema.cell row fk.fromCol = cellAt row fci :=
          fun row => Table.cell_eq hfci row
        obtain ⟨j, hj⟩ := List.getElem?_of_mem hu
        have hcat := catIndex_at hc.names hj
        have hlook' := lookup_at hc hu
        have htcell : ∀ row, u.schema.cell row fk.toCol = cellAt row tci :=
          fun row => Table.cell_eq htci row
        simp only [Stored.state_schema, hfind, Outcome.except_ok_bind, orElse_some_bind, hfci,
          unwrap_some_bind]
        rcases rowAt h ha ht (hid t ht hname) with ⟨k, r, -, -, -, hhead, hrow, hm⟩ | ⟨hhead, hm⟩
        · rw [Query.eval_bind_ok _ _ hhead, Query.eval_bind_ok _ _ hrow, hm,
            Outcome.except_ok_bind, hcell]
          cases hkey : cellAt r.2 fci with
          | none => rfl
          | some key =>
              rw [hun] at hcat hlook'
              simp only [hcat, at_at hj, ok_bind]
              rw [Query.eval_bind_ok _ _ (h.schemaOf_run hu), htci, unwrap_some_bind,
                Query.eval_bind_ok _ _ (fittedRows_run h ha hu), hlook', Outcome.except_ok_bind]
              simp only [Stored.state_schema, htcell]
              rfl
        · rw [Query.eval_bind, hhead, hm]
          rfl
  · rw [followFk, not_opened h hidx, hlook]
    rfl

/-- The columns of a foreign key that points to `t`. -/
theorem fkColumns_into (hc : (dbOf L).Closed) (ht : t ∈ L) {o : Stored} (ho : o ∈ L)
    {fk : ForeignKey} (hfk : fk ∈ o.schema.fks) (hto : fk.toTable = t.schema.name) :
    (∃ i, o.schema.columnIndex fk.fromCol = some i) ∧
      ∃ i, t.schema.columnIndex fk.toCol = some i := by
  obtain ⟨hfrom, u, hu, hun, hcol⟩ := fkColumns hc ho hfk
  obtain rfl := eq_of_name hc ht hu (hun.trans hto)
  exact ⟨hfrom, hcol⟩

theorem referencingThrough_run (h : Readable V s avail cat L) (hc : (dbOf L).Closed)
    (ha : Arity L) (ht : t ∈ L) (row : Row) {o : Stored} (ho : o ∈ L) {fk : ForeignKey}
    (hfk : fk ∈ o.schema.fks) :
    (referencingThrough t.schema row t.schema.name o.entry o.schema fk).eval
      (s.read V.base) s.ctl = .ok (Database.referencingBy t.state row o.state fk) := by
  unfold referencingThrough Database.referencingBy
  by_cases hto : fk.toTable = t.schema.name
  · obtain ⟨⟨fci, hfci⟩, tci, htci⟩ := fkColumns_into hc ht ho hfk hto
    have hcell : ∀ row, o.schema.cell row fk.fromCol = cellAt row fci :=
      fun row => Table.cell_eq hfci row
    simp only [Stored.state_schema, hto, not_true_eq_false, if_false, ne_eq, htci, hfci,
      unwrap_some_bind, Table.cell_eq htci row]
    cases cellAt row tci with
    | none => rfl
    | some key =>
        simp only [hcell]
        rw [Query.eval_bind_ok _ _ (fittedRows_run h ha ho)]
        rfl
  · rw [if_pos hto, if_pos (by rw [Stored.state_schema]; exact hto)]
    rfl

theorem referencingFrom_run (h : Readable V s avail cat L) (hc : (dbOf L).Closed)
    (ha : Arity L) (ht : t ∈ L) (row : Row) {o : Stored} (ho : o ∈ L) :
    (do
      let ot ← schemaOf o.entry
      let refs ← ot.fks.mapM fun fk =>
        referencingThrough t.schema row t.schema.name o.entry ot fk
      pure refs.flatten : PageQuery _).eval (s.read V.base) s.ctl =
    .ok (o.schema.fks.flatMap (Database.referencingBy t.state row o.state)) := by
  rw [Query.eval_bind_ok _ _ (h.schemaOf_run ho), Query.eval_bind, Query.eval_mapM,
    Outcome.mapM_ok fun fk hfk => referencingThrough_run h hc ha ht row ho hfk,
    List.flatMap_def]
  rfl

theorem referencingRows_run (h : Readable V s avail cat L) (hc : (dbOf L).Closed)
    (ha : Arity L) {table : String} {id : RowId}
    (hid : ∀ t ∈ L, t.schema.name = table → id ∈ t.state.issued) :
    (referencingRows table id).eval (s.read V.base) s.ctl =
      Outcome.ofExcept ((dbOf L).referencingRows table id) := by
  unfold Database.referencingRows
  rcases located L table with ⟨A, t, B, hL, rfl, hidx, hlook⟩ | ⟨hidx, hlook, -⟩
  · have ht : t ∈ L := by simp [hL]
    subst hL
    rw [referencingRows, opened h hidx, hlook, Outcome.except_ok_bind]
    rcases rowAt h ha ht (hid t ht rfl) with ⟨k, r, -, -, -, hhead, hrow, hm⟩ | ⟨hhead, hm⟩
    · rw [Query.eval_bind_ok _ _ hhead, Query.eval_bind_ok _ _ hrow, hm, Outcome.except_ok_bind,
        Query.eval_bind, Query.eval_mapM, List.mapM_map]
      have hall := Outcome.mapM_ok fun o ho => referencingFrom_run h hc ha ht r.2 ho
      refine (congrArg (· >>= _) hall).trans ?_
      rw [List.flatMap_def, dbOf, List.map_map]
      rfl
    · rw [Query.eval_bind, hhead, hm]
      rfl
  · rw [referencingRows, not_opened h hidx, hlook]
    rfl

end Queries

end Store

end TablesOS
