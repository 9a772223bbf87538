import TablesOS.Proofs.Queries

/-!
# The checks of the operations

Before an operation writes it asks: are the cells of the right types, does the
key they hold exist, would some other row lose the row it refers to. Each of
these scans, in a readable state whose schemas are closed, fails exactly where
the model does and with the same error.
-/

namespace TablesOS

open Prog Codec

namespace Store

open Pager

variable {V : Volume} {s : Staged Superblock Page} {avail cat : List Nat} {L : List Stored}
  {t : Stored}

/-! ## Cells -/

theorem checkCell_eq (c : Column) (cell : Option Value) :
    checkCell c cell = (Database.cellError c cell).elim (.ok ()) .err := by
  unfold checkCell Database.cellError
  cases cell with
  | none =>
      simp only []
      split <;> rfl
  | some v =>
      simp only [ne_eq]
      by_cases hv : v.typeOf = c.ty
      · rw [if_neg (not_not.mpr hv), if_pos hv]
        rfl
      · rw [if_pos hv, if_neg hv]
        rfl

/-- A loop over the live rows of a table, each read in turn. -/
theorem forM_live (h : Readable V s avail cat L) (ht : t ∈ L) {e : StoreError}
    {f : RowId × Nat → PageQuery PUnit} {p : RowId × Row → Prop} [DecidablePred p]
    (hf : ∀ x ∈ t.live, (readRow (x.2.1.headD 0)).eval (s.read V.base) s.ctl = .ok x.2.2 →
      (f (x.1, x.2.1.headD 0)).eval (s.read V.base) s.ctl =
        if p (x.1, x.2.2) then .err e else .ok ⟨⟩) :
    (forM (t.live.map fun r => (r.1, r.2.1.headD 0)) f).eval (s.read V.base) s.ctl =
      if ∃ r ∈ t.state.rows, p r then .err e else .ok ⟨⟩ := by
  rw [Query.eval_forM, List.forM_map, Outcome.forM_any (p := fun x => p (x.1, x.2.2)) fun x hx =>
    hf x hx (h.readRow_run ht (slot_of_live hx))]
  simp only [Stored.state, List.mem_map, exists_exists_and_eq_and]

theorem checkUnique_run (h : Readable V s avail cat L) (ht : t ∈ L) (exclude : Option RowId)
    (ci : Nat) (c : Column) (v : Value) :
    (checkUnique (t.live.map fun r => (r.1, r.2.1.headD 0)) exclude ci c v).eval
      (s.read V.base) s.ctl =
      if ∃ r ∈ t.state.rows, some r.1 ≠ exclude ∧ cellAt r.2 ci = some v then
        .err (.uniqueViolation c.name) else .ok () := by
  unfold checkUnique
  refine forM_live h ht fun x _ hread => ?_
  by_cases hx : some x.1 = exclude
  · simp only [hx, if_true]
    rw [if_neg (by simp)]
    rfl
  · simp only [hx, if_false]
    rw [Query.eval_bind_ok _ _ hread]
    by_cases hv : cellAt x.2.2 ci = some v
    · rw [if_pos hv, if_pos ⟨hx, hv⟩]
      rfl
    · rw [if_neg hv, if_neg fun hn => hv hn.2]
      rfl

/-- The search of the foreign-key check finds a value that some row has. -/
theorem existsValue_run (h : Readable V s avail cat L) (ht : t ∈ L) (sameTable : Bool)
    (exclude : Option RowId) (cells : Row) (tcol : Nat) (v : Value) :
    (existsValue sameTable exclude cells tcol v
        (t.live.map fun r => (r.1, r.2.1.headD 0))).eval (s.read V.base) s.ctl =
      .ok (decide (∃ r ∈ t.state.rows,
        cellAt (if sameTable ∧ some r.1 = exclude then cells else r.2) tcol = some v)) := by
  have hloop : ∀ xs : List (RowId × List Nat × Row), (∀ x ∈ xs, x ∈ t.live) →
      (existsValue sameTable exclude cells tcol v
          (xs.map fun r => (r.1, r.2.1.headD 0))).eval (s.read V.base) s.ctl =
        .ok (decide (∃ x ∈ xs,
          cellAt (if sameTable ∧ some x.1 = exclude then cells else x.2.2) tcol = some v)) := by
    intro xs
    induction xs with
    | nil =>
        intro _
        simp [existsValue]
    | cons x xs ih =>
        intro hmem
        have hread := h.readRow_run ht (slot_of_live (hmem x List.mem_cons_self))
        have hrest := ih fun y hy => hmem y (List.mem_cons_of_mem _ hy)
        have hstep : ∀ w, (if w = some v then pure true
            else existsValue sameTable exclude cells tcol v
              (xs.map fun r => (r.1, r.2.1.headD 0)) : PageQuery Bool).eval
                (s.read V.base) s.ctl =
            .ok (decide (w = some v ∨ ∃ x ∈ xs,
              cellAt (if sameTable ∧ some x.1 = exclude then cells else x.2.2) tcol =
                some v)) := by
          intro w
          by_cases hw : w = some v
          · simp [hw]
          · rw [if_neg hw, hrest]
            simp [hw]
        simp only [List.exists_mem_cons_iff]
        rw [List.map_cons, existsValue]
        by_cases hx : sameTable = true ∧ some x.1 = exclude
        · rw [if_pos (by simpa using hx), if_pos hx]
          exact hstep _
        · rw [if_neg (by simpa using hx), if_neg hx, Query.eval_bind_ok _ _ hread]
          exact hstep _
  rw [hloop t.live fun x hx => hx]
  simp only [Stored.state, List.mem_map, exists_exists_and_eq_and]

/-! ## Validation -/

theorem at_cell {t : Table} {cells : Row} {name : String} {i : Nat}
    (hlen : cells.length = t.columns.length) (h : t.columnIndex name = some i) :
    at! cells i = .ok (cellAt cells i) := by
  obtain ⟨c, hc, -⟩ := Table.columnIndex_lt h
  have hlt : i < cells.length := hlen ▸ (List.getElem?_eq_some_iff.mp hc).1
  unfold at! cellAt
  rw [List.getElem?_eq_getElem hlt, List.getD_eq_getElem _ _ hlt]
  rfl

/-- Two positions of one name are one position. -/
theorem index_eq_iff (hc : (dbOf L).Closed) {i j : Nat} {u : Stored} (hi : L[i]? = some t)
    (hj : L[j]? = some u) : j = i ↔ u.schema.name = t.schema.name := by
  constructor
  · rintro rfl
    rw [hi] at hj
    injection hj with hj
    rw [hj]
  · intro hname
    have h1 := catIndex_at hc.names hj
    rw [hname, catIndex_at hc.names hi] at h1
    injection h1 with h1
    exact h1.symm

theorem checkFk_run (h : Readable V s avail cat L) (hc : (dbOf L).Closed) {i : Nat}
    (hi : L[i]? = some t) {cells : Row} (hlen : cells.length = t.schema.columns.length)
    (exclude : Option RowId) {fk : ForeignKey} (hfk : fk ∈ t.schema.fks) :
    (checkFk (L.map Stored.entry) i t.schema cells exclude fk).eval (s.read V.base) s.ctl =
      ((dbOf L).fkError t.state exclude cells fk).elim (.ok ()) .err := by
  have ht : t ∈ L := List.mem_of_getElem? hi
  obtain ⟨⟨fci, hfci⟩, u, hu, hun, tci, htci⟩ := fkColumns hc ht hfk
  obtain ⟨j, hj⟩ := List.getElem?_of_mem hu
  have hcat := catIndex_at hc.names hj
  have hlook := lookup_at hc hu
  rw [hun] at hcat hlook
  have htcell : ∀ row, u.schema.cell row fk.toCol = cellAt row tci :=
    fun row => Table.cell_eq htci row
  unfold checkFk Database.fkError
  simp only [hfci, orElse_some_bind, at_cell hlen hfci, ok_bind, Stored.state_schema,
    Table.cell_eq hfci cells]
  cases cellAt cells fci with
  | none => rfl
  | some v =>
      simp only [hcat, at_at hj, ok_bind]
      rw [Query.eval_bind_ok _ _ (h.schemaOf_run hu), htci, orElse_some_bind,
        Query.eval_bind_ok _ _ (collect_run h hu),
        Query.eval_bind_ok _ _ (existsValue_run h hu _ _ _ _ _)]
      have hadm : (∃ r ∈ u.state.rows,
          cellAt (if (j == i) ∧ some r.1 = exclude then cells else r.2) tci = some v) ↔
          some v ∈ (dbOf L).admitted t.state exclude cells fk := by
        unfold Database.admitted
        simp only [Stored.state_schema, beq_iff_eq, index_eq_iff hc hi hj]
        rw [← hun]
        by_cases hname : u.schema.name = t.schema.name
        · obtain rfl := eq_of_name hc ht hu hname
          simp [htcell]
        · have hlook' := lookup_at hc hu
          simp [hname, hlook', TableState.values, htcell]
      simp only [hadm, decide_eq_true_eq]
      split <;> rfl

/-- A loop of queries, each of which has the error that the model has. -/
theorem forM_refuse {α : Type} {xs : List α} {f : α → PageQuery PUnit}
    {e : α → Option StoreError} (h : ∀ x ∈ xs, (f x).eval (s.read V.base) s.ctl =
      (e x).elim (.ok ⟨⟩) .err) :
    (forM xs f).eval (s.read V.base) s.ctl = Outcome.ofExcept (Database.refuseFirst xs e) := by
  rw [Query.eval_forM, Outcome.forM_findSome h, Database.refuseFirst_eq]

theorem uniqueCheck_run (h : Readable V s avail cat L) {i : Nat} (hi : L[i]? = some t)
    {cells : Row} (hlen : cells.length = t.schema.columns.length) (exclude : Option RowId)
    {c : Column × Nat} (hcol : c ∈ t.schema.columns.zipIdx) :
    (if !c.1.unique then pure () else do
        match ← at! cells c.2 with
        | none => pure ()
        | some v => do
            let e ← at! (L.map Stored.entry) i
            let rows ← indexCollect e.dataHead
            checkUnique rows exclude c.2 c.1 v : PageQuery Unit).eval (s.read V.base) s.ctl =
      (Database.uniqueError t.state.rows exclude cells c).elim (.ok ()) .err := by
  have ht : t ∈ L := List.mem_of_getElem? hi
  have hlt : c.2 < cells.length := by
    rw [hlen]
    exact List.snd_lt_of_mem_zipIdx hcol
  have hat : at! cells c.2 = .ok (cellAt cells c.2) := by
    unfold at! cellAt
    rw [List.getElem?_eq_getElem hlt, List.getD_eq_getElem _ _ hlt]
    rfl
  unfold Database.uniqueError
  cases hu : c.1.unique with
  | false => rfl
  | true =>
      simp only [Bool.not_true, Bool.false_eq_true, if_false, hat, ok_bind, true_and]
      cases hv : cellAt cells c.2 with
      | none => simp
      | some v =>
          simp only [at_at hi, ok_bind]
          rw [Query.eval_bind_ok _ _ (collect_run h ht), checkUnique_run h ht]
          simp only [ne_eq, reduceCtorEq, not_false_eq_true, true_and]
          split <;> rfl

/-- `validate` refuses what the model refuses. -/
theorem validate_run (h : Readable V s avail cat L) (hc : (dbOf L).Closed) {i : Nat}
    (hi : L[i]? = some t) (cells : Row) (exclude : Option RowId) :
    (validate (L.map Stored.entry) i t.schema cells exclude).eval (s.read V.base) s.ctl =
      Outcome.ofExcept ((dbOf L).validate t.state cells exclude) := by
  rw [validate, Database.validate, Outcome.ofExcept_bind, Database.refuse_eq]
  by_cases hlen : cells.length = t.schema.columns.length
  · have hlen' : ¬ cells.length ≠ t.state.schema.columns.length := not_not.mpr hlen
    rw [if_neg (not_not.mpr hlen), if_neg hlen', Outcome.ok_bind, Outcome.ofExcept_bind,
      Query.eval_bind]
    refine Outcome.bind_eq (forM_refuse fun c _ => checkCell_eq c.1 c.2) fun _ => ?_
    rw [Outcome.ofExcept_bind, Query.eval_bind]
    refine Outcome.bind_eq (forM_refuse fun c hcol => uniqueCheck_run h hi hlen exclude hcol)
      fun _ => ?_
    exact forM_refuse fun fk hfk => checkFk_run h hc hi hlen exclude hfk
  · have hlen' : cells.length ≠ t.state.schema.columns.length := hlen
    rw [if_pos hlen, if_pos hlen']
    rfl

/-! ## Loops over the tables -/

/-- A loop over the catalog, by position. -/
theorem forM_tables {f : CatEntry × Nat → PageQuery PUnit}
    {e : TableState RowId → Option StoreError}
    (h : ∀ j o, L[j]? = some o → (f (o.entry, j)).eval (s.read V.base) s.ctl =
      (e o.state).elim (.ok ⟨⟩) .err) :
    (forM (L.map Stored.entry).zipIdx f).eval (s.read V.base) s.ctl =
      Outcome.ofExcept (Database.refuseFirst (dbOf L) e) := by
  have hdb : dbOf L = L.zipIdx.map fun x => x.1.state := by
    rw [dbOf, ← Function.comp_def, ← List.map_map, List.zipIdx_map_fst]
  have hloop : (forM L.zipIdx fun x => f (x.1.entry, x.2)).eval (s.read V.base) s.ctl =
      (L.zipIdx.findSome? fun x => e x.1.state).elim (.ok ⟨⟩) .err := by
    rw [Query.eval_forM]
    exact Outcome.forM_findSome fun x hx => h x.2 x.1 (List.mk_mem_zipIdx_iff_getElem?.mp hx)
  rw [Database.refuseFirst_eq, hdb, List.findSome?_map, List.zipIdx_map, List.forM_map]
  exact hloop

/-- A loop over the catalog. -/
theorem forM_entries {f : CatEntry → PageQuery PUnit} {e : TableState RowId → Option StoreError}
    (h : ∀ o ∈ L, (f o.entry).eval (s.read V.base) s.ctl =
      (e o.state).elim (.ok ⟨⟩) .err) :
    (forM (L.map Stored.entry) f).eval (s.read V.base) s.ctl =
      Outcome.ofExcept (Database.refuseFirst (dbOf L) e) := by
  rw [Database.refuseFirst_eq, dbOf, List.findSome?_map, List.forM_map, Query.eval_forM]
  exact Outcome.forM_findSome fun o ho => h o ho

theorem checkRows_run (h : Readable V s avail cat L) (ht : t ∈ L) (skip : Bool) (id : RowId)
    (fk : ForeignKey) (fci : Nat) (key : Value) :
    (checkRows skip id fk fci key (t.live.map fun r => (r.1, r.2.1.headD 0))).eval
      (s.read V.base) s.ctl =
      if ∃ r ∈ t.state.rows, ¬ (skip ∧ r.1 = id) ∧ cellAt r.2 fci = some key then
        .err (.foreignKeyViolation fk.name) else .ok () := by
  unfold checkRows
  refine forM_live h ht fun x _ hread => ?_
  by_cases hx : skip = true ∧ x.1 = id
  · simp only []
    rw [if_pos (by simpa using hx), if_neg fun hn => hn.1 hx]
    rfl
  · simp only []
    rw [if_neg (by simpa using hx), Query.eval_bind_ok _ _ hread]
    by_cases hv : cellAt x.2.2 fci = some key
    · rw [if_pos hv, if_pos ⟨hx, hv⟩]
      rfl
    · rw [if_neg hv, if_neg fun hn => hv hn.2]
      rfl

/-! ## Rows that would be left without a reference -/

section Restrict

variable {i : Nat} {id : RowId} {row : Row} {kept : Nat → Value → Bool}
  {kept' : String → Value → Bool}

theorem restrictKey_run (h : Readable V s avail cat L) (hc : (dbOf L).Closed)
    (hi : L[i]? = some t)
    (hk : ∀ col ci key, t.schema.columnIndex col = some ci → kept ci key = kept' col key)
    {j : Nat} {o : Stored} (hj : L[j]? = some o) {fk : ForeignKey} (hfk : fk ∈ o.schema.fks) :
    (if fk.toTable ≠ t.schema.name then pure () else do
        let tci ← unwrap (t.schema.columnIndex fk.toCol)
        match cellAt row tci with
        | none => pure ()
        | some key =>
            if kept tci key then pure () else do
              let fci ← unwrap (o.schema.columnIndex fk.fromCol)
              let rows ← indexCollect o.entry.dataHead
              checkRows (j == i) id fk fci key rows : PageQuery Unit).eval (s.read V.base) s.ctl =
      (Database.restrictError t.state id row kept' o.state fk).elim (.ok ()) .err := by
  have ht : t ∈ L := List.mem_of_getElem? hi
  have ho : o ∈ L := List.mem_of_getElem? hj
  unfold Database.restrictError
  by_cases hto : fk.toTable = t.schema.name
  · obtain ⟨⟨fci, hfci⟩, tci, htci⟩ := fkColumns_into hc ht ho hfk hto
    have hcell : ∀ row, o.schema.cell row fk.fromCol = cellAt row fci :=
      fun row => Table.cell_eq hfci row
    simp only [hto, ne_eq, not_true_eq_false, if_false, Stored.state_schema, htci, hfci,
      unwrap_some_bind, Table.cell_eq htci row]
    cases cellAt row tci with
    | none => rfl
    | some key =>
        simp only [hk _ _ key htci]
        cases kept' fk.toCol key with
        | true => rfl
        | false =>
            rw [if_neg (by simp), Query.eval_bind_ok _ _ (collect_run h ho),
              checkRows_run h ho]
            simp only [beq_iff_eq, index_eq_iff hc hi hj, true_and, hcell]
            split <;> rfl
  · rw [if_pos hto, if_pos (by rw [Stored.state_schema]; exact hto)]
    rfl

/-- The restrict loop refuses what the model refuses. -/
theorem restrict_run (h : Readable V s avail cat L) (hc : (dbOf L).Closed)
    (hi : L[i]? = some t)
    (hk : ∀ col ci key, t.schema.columnIndex col = some ci → kept ci key = kept' col key) :
    (restrict (L.map Stored.entry) i t.schema id row t.schema.name kept).eval
      (s.read V.base) s.ctl =
      Outcome.ofExcept ((dbOf L).restrict t.state id row kept') := by
  unfold restrict Database.restrict
  refine forM_tables fun j o hj => ?_
  have ho : o ∈ L := List.mem_of_getElem? hj
  simp only []
  rw [Query.eval_bind_ok _ _ (h.schemaOf_run ho), Query.eval_forM]
  exact Outcome.forM_findSome fun fk hfk => restrictKey_run h hc hi hk hj hfk

end Restrict

/-! ## Schema checks -/

theorem findSome?_filter {α β : Type} (p : α → Bool) (f : α → Option β) (xs : List α) :
    (xs.filter p).findSome? f = xs.findSome? fun x => if p x then f x else none := by
  induction xs with
  | nil => rfl
  | cons x xs ih =>
      rw [List.filter_cons, List.findSome?_cons]
      cases p x with
      | true => rw [if_pos rfl, List.findSome?_cons, ih]; rfl
      | false => exact ih

theorem checkNotReferenced_run (h : Readable V s avail cat L) (hc : (dbOf L).Closed) {i : Nat}
    (hi : L[i]? = some t) :
    (checkNotReferenced t.schema.name i (L.map Stored.entry)).eval (s.read V.base) s.ctl =
      Outcome.ofExcept (Database.refuseFirst ((dbOf L).filter (·.schema.name ≠ t.schema.name))
        fun o => if o.schema.fks.any (·.toTable == t.schema.name) then
          some (.schemaRejected ("table '" ++ t.schema.name ++
            "' is referenced by a foreign key in '" ++ o.schema.name ++ "'"))
        else none) := by
  rw [Database.refuseFirst_eq, findSome?_filter, ← Database.refuseFirst_eq, checkNotReferenced]
  refine forM_tables fun j o hj => ?_
  have ho : o ∈ L := List.mem_of_getElem? hj
  by_cases hname : o.schema.name = t.schema.name
  · have hdec : ¬ decide (o.state.schema.name ≠ t.schema.name) = true := by simp [hname]
    rw [if_neg hdec]
    simp only [(index_eq_iff hc hi hj).mpr hname, if_true]
    rfl
  · have hdec : decide (o.state.schema.name ≠ t.schema.name) = true := by simp [hname]
    rw [if_pos hdec]
    simp only []
    rw [if_neg ((index_eq_iff hc hi hj).not.mpr hname),
      Query.eval_bind_ok _ _ (h.schemaOf_run ho)]
    show _ = Option.elim (if o.schema.fks.any (·.toTable == t.schema.name) then _ else none) _ _
    cases o.schema.fks.any (·.toTable == t.schema.name) <;> rfl

theorem checkNotTarget_run (h : Readable V s avail cat L) (table col : String)
    {why : CatEntry → String} {why' : String → String}
    (hwhy : ∀ o ∈ L, why o.entry = why' o.schema.name) :
    (checkNotTarget (L.map Stored.entry) table col why).eval (s.read V.base) s.ctl =
      Outcome.ofExcept ((dbOf L).notTarget table col why') := by
  refine forM_entries fun o ho => ?_
  rw [Query.eval_bind_ok _ _ (h.schemaOf_run ho), hwhy o ho, Stored.state_schema]
  split <;> rfl

theorem hasDuplicate_eq (seen : List Value) (hseen : seen.Nodup) (vals : List (Option Value)) :
    hasDuplicate seen vals = !decide (seen ++ vals.reduceOption).Nodup := by
  induction vals generalizing seen with
  | nil => simp [hasDuplicate, hseen]
  | cons v vals ih =>
      cases v with
      | none => exact ih seen hseen
      | some v =>
          rw [hasDuplicate, List.reduceOption_cons_of_some]
          by_cases hv : v ∈ seen
          · have hdup : ¬ (seen ++ v :: vals.reduceOption).Nodup := by
              rw [List.nodup_append]
              exact fun hn => hn.2.2 v hv v List.mem_cons_self rfl
            rw [decide_eq_false hdup]
            simp [hv]
          · have hn : (seen ++ [v]).Nodup := by
              rw [List.nodup_append]
              refine ⟨hseen, List.nodup_singleton v, fun a ha b hb heq => ?_⟩
              rw [List.mem_singleton.mp hb] at heq
              exact hv (heq ▸ ha)
            rw [ih _ hn, ← List.append_cons]
            simp [hv]

theorem checkExisting_eq (toTable toCol : String) (targets vals : List (Option Value)) :
    checkExisting toTable toCol targets vals =
      Outcome.ofExcept (Database.refuseFirst vals.reduceOption fun v =>
        if some v ∈ targets then none
        else some (.schemaRejected ("existing value " ++ v.display ++ " has no match in " ++
          toTable ++ "." ++ toCol))) := by
  rw [Database.refuseFirst_eq]
  induction vals with
  | nil => rfl
  | cons v vals ih =>
      cases v with
      | none => exact ih
      | some v =>
          rw [checkExisting, List.reduceOption_cons_of_some, List.findSome?_cons]
          by_cases hv : some v ∈ targets
          · rw [if_pos (by simpa using hv), if_pos hv]
            exact ih
          · rw [if_neg (by simpa using hv), if_neg hv]
            rfl

/-! ## Names for foreign keys -/

theorem toString_inj {m n : Nat} (h : toString m = toString n) : m = n := by
  have hd : Nat.toDigits 10 m = Nat.toDigits 10 n := by
    rw [← Nat.toList_repr, ← Nat.toList_repr]
    exact congrArg String.toList h
  rw [← Nat.ofDigitChars_ten_toDigits (n := m), hd, Nat.ofDigitChars_ten_toDigits]

/-- The candidates of `add_fk`, in order. -/
def fkNames (fromCol : String) (n k : Nat) : List String :=
  (List.range' n k).map fun n => fromCol ++ "_fk" ++ toString n

theorem freshFkName_eq (existing : List String) (fromCol : String) :
    ∀ (fuel n : Nat) (base : String), freshFkName existing fromCol (fuel + 1) n base =
      ((base :: fkNames fromCol n fuel).find? (· ∉ existing)).elim .diverge .ok := by
  intro fuel
  induction fuel with
  | zero =>
      intro n base
      by_cases hb : base ∈ existing <;> simp [freshFkName, fkNames, hb]
  | succ fuel ih =>
      intro n base
      rw [freshFkName, List.find?_cons]
      by_cases hb : base ∈ existing
      · rw [if_pos (by simpa using hb), ih]
        simp [hb, fkNames, List.range'_succ]
      · simp [hb]

theorem nodup_fkNames (fromCol : String) (n k : Nat) :
    ((fromCol ++ "_fk") :: fkNames fromCol n k).Nodup := by
  rw [List.nodup_cons, fkNames]
  constructor
  · rw [List.mem_map]
    rintro ⟨m, -, heq⟩
    have hlen := congrArg String.length heq
    have hpos : 0 < (toString m).length := by
      show 0 < (Nat.repr m).length
      rw [← String.length_toList, Nat.toList_repr]
      exact Nat.length_toDigits_pos
    rw [String.length_append] at hlen
    omega
  · refine List.Nodup.map (fun a b heq => toString_inj ?_) List.nodup_range'
    exact String.append_right_inj _ |>.mp heq

/-- One of the candidates is free. -/
theorem freeFkName_found (existing : List String) (fromCol : String) :
    ((fromCol ++ "_fk") :: fkNames fromCol 2 existing.length).find? (· ∉ existing) =
      some (Database.freeFkName existing fromCol) := by
  have hsome : (((fromCol ++ "_fk") :: fkNames fromCol 2 existing.length).find?
      (· ∉ existing)).isSome := by
    rw [List.find?_isSome]
    by_contra hall
    have hsub : ((fromCol ++ "_fk") :: fkNames fromCol 2 existing.length) ⊆ existing := by
      intro x hx
      by_contra hnot
      exact hall ⟨x, hx, by simpa using hnot⟩
    have hle := ((nodup_fkNames fromCol 2 existing.length).subperm hsub).length_le
    rw [List.length_cons, fkNames, List.length_map, List.length_range'] at hle
    omega
  obtain ⟨name, hname⟩ := Option.isSome_iff_exists.mp hsome
  rw [Database.freeFkName]
  unfold fkNames at hname ⊢
  rw [hname]
  rfl

theorem freeFkName_not_mem (existing : List String) (fromCol : String) :
    Database.freeFkName existing fromCol ∉ existing := by
  simpa using List.find?_some (freeFkName_found existing fromCol)

/-- A free name is found, and it is the model's. -/
theorem freshFkName_run (existing : List String) (fromCol : String) :
    freshFkName existing fromCol (existing.length + 1) 2 (fromCol ++ "_fk") =
      .ok (Database.freeFkName existing fromCol) := by
  rw [freshFkName_eq, freeFkName_found]
  rfl

end Store

end TablesOS
