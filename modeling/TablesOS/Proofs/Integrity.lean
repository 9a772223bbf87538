import TablesOS.Proofs.Columns
import TablesOS.Proofs.Checks

/-!
# No operation breaks the database

`Intact` gathers what every reachable database satisfies: distinct names,
references that lead somewhere, a cell for every column, and the constraints of
the schemas. It is stated table by table, so that an edit of one table has to
be looked at from two sides only: as the table that refers, and as the one
referred to.
-/

namespace TablesOS

open Store

namespace TableState

variable {ι : Type}

/-- No value stands twice in the column. -/
def Distinct (t : TableState ι) (col : String) : Prop :=
  t.rows.Pairwise fun r r' => t.schema.cell r.2 col ≠ none →
    t.schema.cell r.2 col ≠ t.schema.cell r'.2 col

/-- What a table owes to its own schema. -/
structure Ok (t : TableState ι) : Prop where
  columns : t.schema.names.Nodup
  fkNames : (t.schema.fks.map (·.name)).Nodup
  refCols : t.schema.refCols.Nodup ∧ ∀ r ∈ t.schema.refCols, r ∈ t.schema.names
  fitted : Database.Fitted t
  types : ∀ r ∈ t.rows, ∀ c ∈ t.schema.columns, ∀ v,
    t.schema.cell r.2 c.name = some v → v.typeOf = c.ty
  notNull : ∀ r ∈ t.rows, ∀ c ∈ t.schema.columns, c.nullable = false →
    t.schema.cell r.2 c.name ≠ none
  unique : ∀ c ∈ t.schema.columns, c.unique = true → t.Distinct c.name

theorem distinct_iff {t : TableState ι} {col : String} :
    t.Distinct col ↔ (t.values col).reduceOption.Nodup := by
  rw [Distinct, List.reduceOption, values, List.filterMap_map, List.Nodup, List.pairwise_filterMap]
  refine ⟨fun h => h.imp fun {r r'} hne v hv v' hv' heq => ?_,
    fun h => h.imp fun {r r'} hne hr => ?_⟩
  · simp only [Function.comp_apply, id] at hv hv'
    exact hne (by simp [hv]) (by rw [hv, hv', heq])
  · obtain ⟨v, hv⟩ := Option.ne_none_iff_exists'.mp hr
    exact fun heq => hne v hv v (heq.symm.trans hv) rfl

theorem mem_values {t : TableState ι} {col : String} {x : Option Value} :
    x ∈ t.values col ↔ ∃ r ∈ t.rows, t.schema.cell r.2 col = x := by
  rw [values, List.mem_map]

end TableState

namespace Database

variable {ι : Type} {db db' : Database ι} {t t' : TableState ι} {fk fk' : ForeignKey}

/-- What a foreign key owes: its two columns are there, and every value it
takes is one of the other column. -/
structure Refers (db : Database ι) (t : TableState ι) (fk : ForeignKey) : Prop where
  closed : db.FkClosed t.schema fk
  values : ∀ v, some v ∈ t.values fk.fromCol →
    ∃ u ∈ db, u.schema.name = fk.toTable ∧ some v ∈ u.values fk.toCol

/-- The database between two operations. -/
structure Intact (db : Database ι) : Prop where
  names : (db.map (·.schema.name)).Nodup
  tables : ∀ t ∈ db, t.Ok
  keys : ∀ t ∈ db, ∀ fk ∈ t.schema.fks, db.Refers t fk

namespace Intact

variable (h : db.Intact)

include h

theorem closed : db.Closed :=
  ⟨h.names, fun t ht => (h.tables t ht).columns, fun t ht => (h.tables t ht).fkNames,
    fun t ht fk hfk => (h.keys t ht fk hfk).closed, fun t ht =>
      ⟨(h.tables t ht).refCols.1, fun r hr =>
        List.mem_map.mp ((h.tables t ht).refCols.2 r hr)⟩⟩

theorem consistent : db.Consistent :=
  ⟨fun t ht => (h.tables t ht).types, fun t ht => (h.tables t ht).notNull,
    fun t ht => (h.tables t ht).unique, fun t ht fk hfk r hr v hv =>
      (h.keys t ht fk hfk).values v (TableState.mem_values.mpr ⟨r, hr, hv⟩)⟩

end Intact

/-! ## The two sides of a key -/

theorem Refers.fromCol_mem (h : db.Refers t fk) : fk.fromCol ∈ t.schema.names := by
  obtain ⟨c, hc, hname, -⟩ := h.closed
  exact hname ▸ List.mem_map_of_mem hc

theorem Refers.toCol_mem (h : db.Refers t fk) (hn : (db.map (·.schema.name)).Nodup)
    {u : TableState ι} (hu : u ∈ db) (hun : u.schema.name = fk.toTable) :
    fk.toCol ∈ u.schema.names := by
  obtain ⟨-, -, -, w, hw, hwn, d, hd, hdn, -⟩ := h.closed
  rw [List.inj_on_of_nodup_map hn hu hw (hun.trans hwn.symm)]
  exact hdn ▸ List.mem_map_of_mem hd

/-- The table that refers, edited. -/
theorem Refers.source (h : db.Refers t fk) (htable : fk'.toTable = fk.toTable)
    (hto : fk'.toCol = fk.toCol)
    (hcol : ∀ c ∈ t.schema.columns, c.name = fk.fromCol →
      ∃ c' ∈ t'.schema.columns, c'.name = fk'.fromCol ∧ c'.ty = c.ty)
    (hvalues : ∀ v, some v ∈ t'.values fk'.fromCol → some v ∈ t.values fk.fromCol) :
    db.Refers t' fk' := by
  obtain ⟨c, hc, hname, u, hu, hun, d, hd, hdn, hdu, hty⟩ := h.closed
  obtain ⟨c', hc', hname', hty'⟩ := hcol c hc hname
  refine ⟨⟨c', hc', hname', u, hu, hun.trans htable.symm, d, hd, hdn.trans hto.symm, hdu,
    hty.trans hty'.symm⟩, fun v hv => ?_⟩
  rw [htable, hto]
  exact h.values v (hvalues v hv)

/-- The table referred to, edited. -/
theorem Refers.target (h : db.Refers t fk) (hfrom : fk'.fromCol = fk.fromCol)
    (htable : fk'.toTable = fk.toTable)
    (hu : ∀ u ∈ db, u.schema.name = fk.toTable → ∃ u' ∈ db', u'.schema.name = u.schema.name ∧
      (∀ d ∈ u.schema.columns, d.name = fk.toCol → d.unique = true →
        ∃ d' ∈ u'.schema.columns, d'.name = fk'.toCol ∧ d'.unique = true ∧ d'.ty = d.ty) ∧
      ∀ v, some v ∈ u.values fk.toCol → some v ∈ u'.values fk'.toCol) :
    db'.Refers t fk' := by
  obtain ⟨c, hc, hname, u, hmem, hun, d, hd, hdn, hdu, hty⟩ := h.closed
  obtain ⟨u', hu', hun', htarget, -⟩ := hu u hmem hun
  obtain ⟨d', hd', hdn', hdu', hty'⟩ := htarget d hd hdn hdu
  refine ⟨⟨c, hc, hname.trans hfrom.symm, u', hu', (hun'.trans hun).trans htable.symm, d', hd',
    hdn', hdu', hty'.trans hty⟩, fun v hv => ?_⟩
  rw [hfrom] at hv
  obtain ⟨w, hw, hwn, hwv⟩ := h.values v hv
  obtain ⟨w', hw', hwn', -, hvals⟩ := hu w hw hwn
  exact ⟨w', hw', (hwn'.trans hwn).trans htable.symm, hvals v hwv⟩

/-! ## One table edited -/

theorem replace_names {name : String} {f : TableState ι → TableState ι}
    (hf : ∀ u, u.schema.name = name → (f u).schema.name = name) :
    (db.replace name f).map (·.schema.name) = db.map (·.schema.name) := by
  rw [replace, List.map_map]
  refine List.map_congr_left fun u _ => ?_
  simp only [Function.comp_apply]
  split
  · next hu => rw [hf u hu, hu]
  · rfl

theorem mem_replace (hn : (db.map (·.schema.name)).Nodup) (ht : t ∈ db)
    {f : TableState ι → TableState ι} {u : TableState ι} :
    u ∈ db.replace t.schema.name f ↔ u = f t ∨ u ∈ db ∧ u.schema.name ≠ t.schema.name := by
  rw [replace, List.mem_map]
  constructor
  · rintro ⟨w, hw, rfl⟩
    by_cases hname : w.schema.name = t.schema.name
    · have hwt : w = t := List.inj_on_of_nodup_map hn hw ht hname
      rw [if_pos hname, hwt]
      exact Or.inl rfl
    · rw [if_neg hname]
      exact Or.inr ⟨hw, hname⟩
  · rintro (rfl | ⟨hu, hname⟩)
    · exact ⟨t, ht, if_pos rfl⟩
    · exact ⟨u, hu, if_neg hname⟩

/-- What an edit of one table has to keep, as long as other tables may refer to
it: the targets and their values. -/
def Serves (t t' : TableState ι) (fk : ForeignKey) : Prop :=
  (∀ d ∈ t.schema.columns, d.name = fk.toCol → d.unique = true →
    ∃ d' ∈ t'.schema.columns, d'.name = fk.toCol ∧ d'.unique = true ∧ d'.ty = d.ty) ∧
  ∀ v, some v ∈ t.values fk.toCol → some v ∈ t'.values fk.toCol

theorem Serves.refl (t : TableState ι) (fk : ForeignKey) : Serves t t fk :=
  ⟨fun d hd hn hu => ⟨d, hd, hn, hu, rfl⟩, fun _ hv => hv⟩

/-- A key whose target table is edited. -/
theorem Refers.replace {s : TableState ι} (h : db.Refers s fk)
    (hn : (db.map (·.schema.name)).Nodup) (ht : t ∈ db) {f : TableState ι → TableState ι}
    (hname : (f t).schema.name = t.schema.name)
    (hs : fk.toTable = t.schema.name → Serves t (f t) fk) :
    (db.replace t.schema.name f).Refers s fk := by
  refine h.target rfl rfl fun u hu hun => ?_
  by_cases hut : u.schema.name = t.schema.name
  · have heq : u = t := List.inj_on_of_nodup_map hn hu ht hut
    subst heq
    exact ⟨f u, (mem_replace hn ht).mpr (Or.inl rfl), hname, hs hun.symm⟩
  · exact ⟨u, (mem_replace hn ht).mpr (Or.inr ⟨hu, hut⟩), rfl, Serves.refl u fk⟩

/-- One table edited: its own constraints, the keys into it, and its own
keys. -/
theorem Intact.replace (h : db.Intact) (ht : t ∈ db) {f : TableState ι → TableState ι}
    (hname : ∀ u : TableState ι, (f u).schema.name = u.schema.name) (hok : (f t).Ok)
    (hserves : ∀ s ∈ db, ∀ fk ∈ s.schema.fks, fk.toTable = t.schema.name → Serves t (f t) fk)
    (hkeys : ∀ fk ∈ (f t).schema.fks, (db.replace t.schema.name f).Refers (f t) fk) :
    (db.replace t.schema.name f).Intact := by
  refine ⟨?_, fun u hu => ?_, fun u hu fk hfk => ?_⟩
  · rw [replace_names fun u hu => (hname u).trans hu]
    exact h.names
  · rcases (mem_replace h.names ht).mp hu with rfl | ⟨hu, -⟩
    · exact hok
    · exact h.tables u hu
  · rcases (mem_replace h.names ht).mp hu with rfl | ⟨hu, -⟩
    · exact hkeys fk hfk
    · exact (h.keys u hu fk hfk).replace h.names ht (hname t) (hserves u hu fk hfk)

/-! ## What a successful edit has passed -/

theorem bind_ok {ε α β : Type} {x : Except ε α} {f : α → Except ε β} {b : β} :
    (x >>= f) = .ok b ↔ ∃ a, x = .ok a ∧ f a = .ok b := by
  cases x with
  | error e => exact ⟨nofun, fun ⟨_, h, _⟩ => nomatch h⟩
  | ok a => exact ⟨fun h => ⟨a, rfl, h⟩, fun ⟨_, h, h'⟩ => by cases h; exact h'⟩

theorem refuse_ok {c : Prop} {_ : Decidable c} {e : StoreError} {u : Unit} :
    refuse c e = .ok u ↔ ¬ c := by
  unfold refuse
  split <;> simp [*]

theorem refuseFirst_iff {α : Type} {xs : List α} {e : α → Option StoreError} {u : Unit} :
    refuseFirst xs e = .ok u ↔ ∀ x ∈ xs, e x = none :=
  refuseFirst_ok

theorem pure_ok {ε α : Type} {a b : α} : (pure a : Except ε α) = .ok b ↔ a = b :=
  Except.ok.injEq a b ▸ Iff.rfl

theorem position_ok {s : Table} {col shown : String} {i : Nat} :
    position s col shown = .ok i ↔ s.columnIndex col = some i := by
  unfold position
  cases s.columnIndex col <;> simp

theorem columnOf_ok {s : Table} {col shown : String} {c : Column} :
    columnOf s col shown = .ok c ↔ s.column col = some c := by
  unfold columnOf
  cases s.column col <;> simp

theorem notTarget_ok {table col : String} {why : String → String} {u : Unit} :
    db.notTarget table col why = .ok u ↔
      ∀ s ∈ db, ∀ fk ∈ s.schema.fks, fk.toTable = table → fk.toCol ≠ col := by
  rw [notTarget, show u = () from rfl, refuseFirst_ok]
  refine forall₂_congr fun s _ => ?_
  have htargets : targets s.schema table col = true ↔
      ∃ fk ∈ s.schema.fks, fk.toTable = table ∧ fk.toCol = col := by
    simp [targets]
  constructor
  · intro h fk hfk htable hcol
    rw [if_pos (htargets.mpr ⟨fk, hfk, htable, hcol⟩)] at h
    cases h
  · intro h
    refine if_neg fun hn => ?_
    obtain ⟨fk, hfk, htable, hcol⟩ := htargets.mp hn
    exact h fk hfk htable hcol

theorem column_mem {s : Table} {col : String} {c : Column} (h : s.column col = some c) :
    c ∈ s.columns ∧ c.name = col :=
  ⟨List.mem_of_find?_eq_some h, by simpa using List.find?_some h⟩

theorem column_isSome {s : Table} {col : String} :
    (s.column col).isSome = true ↔ col ∈ s.names := by
  simp [Table.column, Table.names]

theorem column_isNone {s : Table} {col : String} :
    (s.column col).isNone = true ↔ col ∉ s.names := by
  simp [Table.column, Table.names]

/-! ## Columns added, dropped, moved -/

theorem Fitted.edit (h : Fitted t) {sch : Table} {f : Row → Row}
    (harity : ∀ r ∈ t.rows, (f r.2).length = sch.columns.length) : Fitted (t.edit sch f) := by
  refine ⟨h.issued, ?_, fun r hr => ?_⟩
  · have hids : (t.edit sch f).rows.map (·.1) = t.rows.map (·.1) := by
      rw [TableState.edit, List.map_map]
      rfl
    rw [hids]
    exact h.rows
  · obtain ⟨r', hr', rfl⟩ := List.mem_map.mp hr
    exact harity r' hr'

/-- The columns of the new schema are old ones, with what stood in them, or
hold `NULL` only. -/
def Carries (t : TableState ι) (sch : Table) (f : Row → Row) : Prop :=
  ∀ c' ∈ sch.columns, (∃ c ∈ t.schema.columns, c.ty = c'.ty ∧ c.nullable = c'.nullable ∧
      (c'.unique = true → t.Distinct c.name) ∧
      ∀ r ∈ t.rows, sch.cell (f r.2) c'.name = t.schema.cell r.2 c.name) ∨
    ∀ r ∈ t.rows, sch.cell (f r.2) c'.name = none ∧ c'.nullable = true

theorem ok_edit (h : t.Ok) {sch : Table} {f : Row → Row} (hnames : sch.names.Nodup)
    (hfks : (sch.fks.map (·.name)).Nodup)
    (hrefs : sch.refCols.Nodup ∧ ∀ r ∈ sch.refCols, r ∈ sch.names)
    (harity : ∀ r ∈ t.rows, (f r.2).length = sch.columns.length) (hc : Carries t sch f) :
    (t.edit sch f).Ok := by
  refine ⟨hnames, hfks, hrefs, h.fitted.edit harity, fun r' hr' c' hc' v hv => ?_,
    fun r' hr' c' hc' hnull hv => ?_, fun c' hc' hun => ?_⟩
  · obtain ⟨r, hr, rfl⟩ := List.mem_map.mp hr'
    rcases hc c' hc' with ⟨c, hmem, hty, -, -, hcell⟩ | hnone
    · rw [← hty]
      exact h.types r hr c hmem v ((hcell r hr).symm.trans hv)
    · rw [TableState.edit, (hnone r hr).1] at hv
      cases hv
  · obtain ⟨r, hr, rfl⟩ := List.mem_map.mp hr'
    rcases hc c' hc' with ⟨c, hmem, -, hnl, -, hcell⟩ | hnone
    · exact h.notNull r hr c hmem (hnl.trans hnull) ((hcell r hr).symm.trans hv)
    · rw [(hnone r hr).2] at hnull
      cases hnull
  · rw [TableState.Distinct, TableState.edit, List.pairwise_map]
    rcases hc c' hc' with ⟨c, hmem, -, -, hu, hcell⟩ | hnone
    · refine (hu hun).imp_of_mem fun {r r'} hr hr' hne => ?_
      simp only [hcell r hr, hcell r' hr']
      exact hne
    · refine List.pairwise_of_forall_mem_list fun r hr r' _ hne => ?_
      exact absurd (hnone r hr).1 hne

theorem values_edit {sch : Table} {f : Row → Row} {n n' : String}
    (hcell : ∀ r ∈ t.rows, sch.cell (f r.2) n' = t.schema.cell r.2 n) :
    (t.edit sch f).values n' = t.values n := by
  rw [TableState.values, TableState.values, TableState.edit, List.map_map]
  exact List.map_congr_left hcell

/-- The column `n` of `t` is a column of `sch`, with what stood in it. -/
def Carried (t : TableState ι) (sch : Table) (f : Row → Row) (n : String) : Prop :=
  (∀ c ∈ t.schema.columns, c.name = n → ∃ c' ∈ sch.columns, c'.name = n ∧ c'.ty = c.ty ∧
    (c.unique = true → c'.unique = true)) ∧
  ∀ r ∈ t.rows, sch.cell (f r.2) n = t.schema.cell r.2 n

/-- The same of a column that need not stay `UNIQUE`. -/
def Held (t : TableState ι) (sch : Table) (f : Row → Row) (n : String) : Prop :=
  (∀ c ∈ t.schema.columns, c.name = n → ∃ c' ∈ sch.columns, c'.name = n ∧ c'.ty = c.ty) ∧
  ∀ r ∈ t.rows, sch.cell (f r.2) n = t.schema.cell r.2 n

theorem Carried.held {sch : Table} {f : Row → Row} {n : String} (h : Carried t sch f n) :
    Held t sch f n := by
  refine ⟨fun c hc hn => ?_, h.2⟩
  obtain ⟨c', hc', hn', hty, -⟩ := h.1 c hc hn
  exact ⟨c', hc', hn', hty⟩

/-- An edit of columns and rows that keeps every column some key names. -/
theorem Intact.edit (h : db.Intact) (ht : t ∈ db) {F : TableState ι → TableState ι} {sch : Table}
    {f : Row → Row} (hF : F t = t.edit sch f)
    (hname : ∀ u : TableState ι, (F u).schema.name = u.schema.name)
    (hok : (t.edit sch f).Ok) (hfks : ∀ fk ∈ sch.fks, fk ∈ t.schema.fks)
    (hfrom : ∀ fk ∈ sch.fks, Held t sch f fk.fromCol)
    (hto : ∀ s ∈ db, ∀ fk ∈ s.schema.fks, fk.toTable = t.schema.name →
      Carried t sch f fk.toCol) : (db.replace t.schema.name F).Intact := by
  have hserves : ∀ s ∈ db, ∀ fk ∈ s.schema.fks, fk.toTable = t.schema.name →
      Serves t (F t) fk := by
    intro s hs fk hfk htable
    obtain ⟨hcol, hcell⟩ := hto s hs fk hfk htable
    rw [hF]
    refine ⟨fun d hd hdn hdu => ?_, fun v hv => by rwa [values_edit hcell]⟩
    obtain ⟨d', hd', hdn', hty, hun⟩ := hcol d hd hdn
    exact ⟨d', hd', hdn', hun hdu, hty⟩
  refine h.replace ht hname (hF ▸ hok) hserves fun fk hfk => ?_
  have hmem : fk ∈ sch.fks := by
    rw [hF] at hfk
    exact hfk
  have hold := hfks fk hmem
  obtain ⟨hcol, hcell⟩ := hfrom fk hmem
  refine ((h.keys t ht fk hold).replace h.names ht (hname t) (hserves t ht fk hold)).source rfl rfl
    (fun c hc hcn => ?_) fun v hv => ?_
  · obtain ⟨c', hc', hcn', hty⟩ := hcol c hc hcn
    rw [hF]
    exact ⟨c', hc', hcn', hty⟩
  · rw [hF, values_edit hcell] at hv
    exact hv

theorem addColumn_ok {table : String} {col : Column} (h : db.addColumn table col = .ok db') :
    ∃ t ∈ db, t.schema.name = table ∧ col.name ∉ t.schema.names ∧
      (col.nullable = false → t.rows = []) ∧ db' = db.replace table fun t =>
        t.edit { t.schema with columns := t.schema.columns ++ [col] } (· ++ [none]) := by
  simp only [addColumn, bind_ok, refuse_ok, pure_ok] at h
  obtain ⟨t, hlook, u, hnull, u', hdup, rfl⟩ := h
  obtain ⟨ht, hname⟩ := lookup_mem hlook
  rw [column_isSome] at hdup
  exact ⟨t, ht, hname, hdup, fun hn => not_not.mp fun hr => hnull ⟨hn, hr⟩, rfl⟩

theorem cell_push (h : t.Ok) {col : Column} (hnew : col.name ∉ t.schema.names)
    {r : ι × Row} (hr : r ∈ t.rows) (n : String) :
    Table.cell { t.schema with columns := t.schema.columns ++ [col] } (r.2 ++ [none]) n =
      t.schema.cell r.2 n := by
  rw [Table.cell_eq_mapping, Table.cell_eq_mapping,
    Table.mapping_push h.columns (h.fitted.arity r hr) hnew]
  split
  · next hn =>
      rw [hn, Table.mapping_eq_none.mpr hnew]
      rfl
  · rfl

theorem addColumn_intact (h : db.Intact) {table : String} {col : Column}
    (hok : db.addColumn table col = .ok db') : db'.Intact := by
  obtain ⟨t, ht, rfl, hnew, hnull, rfl⟩ := addColumn_ok hok
  have htab := h.tables t ht
  have hcell := fun r hr => cell_push htab hnew (r := r) hr
  have hcarried : ∀ n, Carried t { t.schema with columns := t.schema.columns ++ [col] }
      (· ++ [none]) n := fun n =>
    ⟨fun c hc hn => ⟨c, List.mem_append_left _ hc, hn, rfl, id⟩, fun r hr => hcell r hr n⟩
  have hnames : Table.names { t.schema with columns := t.schema.columns ++ [col] } =
      t.schema.names ++ [col.name] := List.map_append
  refine h.edit ht rfl (fun _ => rfl) (ok_edit htab ?_ htab.fkNames
    ⟨htab.refCols.1, fun r hr => ?_⟩ (fun r hr => ?_) fun c' hc' => ?_) (fun _ hfk => hfk)
    (fun _ _ => (hcarried _).held) fun _ _ _ _ _ => hcarried _
  · rw [hnames, List.nodup_append]
    refine ⟨htab.columns, List.nodup_singleton _, fun a ha b hb heq => hnew ?_⟩
    rw [← List.mem_singleton.mp hb, ← heq]
    exact ha
  · rw [hnames]
    exact List.mem_append_left _ (htab.refCols.2 r hr)
  · rw [List.length_append, List.length_append, htab.fitted.arity r hr]
    rfl
  · rcases List.mem_append.mp hc' with hc | hc
    · exact Or.inl ⟨c', hc, rfl, rfl, htab.unique c' hc, fun r hr => hcell r hr _⟩
    · rw [List.mem_singleton.mp hc]
      have hnone : ∀ r ∈ t.rows, t.schema.cell r.2 col.name = none := fun r _ => by
        rw [Table.cell_eq_mapping, Table.mapping_eq_none.mpr hnew]
        rfl
      refine Or.inr fun r hr => ⟨(hcell r hr _).trans (hnone r hr), ?_⟩
      by_contra hn
      rw [hnull (by simpa using hn)] at hr
      cases hr

theorem dropColumn_ok {table col : String} (h : db.dropColumn table col = .ok db') :
    ∃ t ∈ db, t.schema.name = table ∧ ∃ i, t.schema.columnIndex col = some i ∧
      (∀ fk ∈ t.schema.fks, fk.fromCol ≠ col) ∧
      (∀ s ∈ db, ∀ fk ∈ s.schema.fks, fk.toTable = table → fk.toCol ≠ col) ∧
      db' = db.replace table fun t => t.edit { t.schema with
        columns := t.schema.columns.eraseIdx i
        refCols := t.schema.refCols.filter (· ≠ col) } (·.eraseIdx i) := by
  simp only [dropColumn, bind_ok, refuse_ok, pure_ok, position_ok, notTarget_ok] at h
  obtain ⟨t, hlook, i, hi, u, hfrom, u', hto, rfl⟩ := h
  obtain ⟨ht, hname⟩ := lookup_mem hlook
  exact ⟨t, ht, hname, i, hi, by simpa using hfrom, hto, rfl⟩

theorem cell_erase (h : t.Ok) {col : String} {i : Nat} (hi : t.schema.columnIndex col = some i)
    {r : ι × Row} (hr : r ∈ t.rows) {n : String} (hn : n ≠ col) :
    Table.cell { t.schema with
      columns := t.schema.columns.eraseIdx i
      refCols := t.schema.refCols.filter (· ≠ col) } (r.2.eraseIdx i) n =
      t.schema.cell r.2 n := by
  rw [Table.cell_eq_mapping, Table.cell_eq_mapping,
    Table.mapping_erase h.columns (h.fitted.arity r hr) hi, if_neg hn]

theorem mem_names_erase (h : t.Ok) {col : String} {i : Nat}
    (hi : t.schema.columnIndex col = some i) {n : String} :
    n ∈ t.schema.names.eraseIdx i ↔ n ∈ t.schema.names ∧ n ≠ col := by
  have hat := (Table.columnIndex_eq_some h.columns).mp hi
  rw [List.mem_eraseIdx_iff_getElem?]
  constructor
  · rintro ⟨j, hj, hget⟩
    refine ⟨List.mem_of_getElem? hget, fun hn => hj ?_⟩
    rw [hn] at hget
    exact (List.getElem?_inj (List.getElem?_eq_some_iff.mp hget).1 h.columns).mp
      (hget.trans hat.symm)
  · rintro ⟨hmem, hn⟩
    obtain ⟨j, hget⟩ := List.mem_iff_getElem?.mp hmem
    refine ⟨j, fun hj => hn ?_, hget⟩
    rw [hj, hat] at hget
    exact (Option.some_inj.mp hget).symm

theorem mem_columns_erase {col : String} {i : Nat}
    (hi : t.schema.columnIndex col = some i) {c : Column} (hc : c ∈ t.schema.columns)
    (hn : c.name ≠ col) : c ∈ t.schema.columns.eraseIdx i := by
  obtain ⟨j, hget⟩ := List.mem_iff_getElem?.mp hc
  rw [List.mem_eraseIdx_iff_getElem?]
  refine ⟨j, fun hj => hn ?_, hget⟩
  obtain ⟨d, hd, hdn⟩ := Table.columnIndex_lt hi
  rw [hj, hd] at hget
  rw [← Option.some_inj.mp hget, hdn]

theorem dropColumn_intact (h : db.Intact) {table col : String}
    (hok : db.dropColumn table col = .ok db') : db'.Intact := by
  obtain ⟨t, ht, rfl, i, hi, hfrom, hto, rfl⟩ := dropColumn_ok hok
  have htab := h.tables t ht
  have hlt : i < t.schema.columns.length := by
    obtain ⟨c, hc, -⟩ := Table.columnIndex_lt hi
    exact (List.getElem?_eq_some_iff.mp hc).1
  have hcarried : ∀ n, n ≠ col → Carried t { t.schema with
      columns := t.schema.columns.eraseIdx i
      refCols := t.schema.refCols.filter (· ≠ col) } (·.eraseIdx i) n := fun n hn =>
    ⟨fun c hc hcn => ⟨c, mem_columns_erase hi hc (hcn ▸ hn), hcn, rfl, id⟩,
      fun r hr => cell_erase htab hi hr hn⟩
  have hnames : Table.names { t.schema with
      columns := t.schema.columns.eraseIdx i
      refCols := t.schema.refCols.filter (· ≠ col) } = t.schema.names.eraseIdx i :=
    (List.eraseIdx_map _ _ _).symm
  refine h.edit ht rfl (fun _ => rfl) (ok_edit htab ?_ htab.fkNames
    ⟨htab.refCols.1.filter _, fun r hr => ?_⟩ (fun r hr => ?_) fun c' hc' => ?_)
    (fun _ hfk => hfk) (fun fk hfk => (hcarried _ (hfrom fk hfk)).held)
    fun s hs fk hfk htable => hcarried _ (hto s hs fk hfk htable)
  · rw [hnames]
    exact htab.columns.eraseIdx i
  · obtain ⟨hmem, hn⟩ := List.mem_filter.mp hr
    rw [hnames, mem_names_erase htab hi]
    exact ⟨htab.refCols.2 r hmem, by simpa using hn⟩
  · have hlen := htab.fitted.arity r hr
    rw [List.length_eraseIdx_of_lt hlt, List.length_eraseIdx_of_lt (by omega), hlen]
  · have hn : c'.name ≠ col := by
      have hmem : c'.name ∈ t.schema.names.eraseIdx i := by
        rw [← hnames]
        exact List.mem_map_of_mem hc'
      exact ((mem_names_erase htab hi).mp hmem).2
    have hc := List.mem_of_mem_eraseIdx hc'
    exact Or.inl ⟨c', hc, rfl, rfl, htab.unique c' hc, fun r hr => cell_erase htab hi hr hn⟩

theorem moveColumn_ok {table col : String} {new : Nat}
    (h : db.moveColumn table col new = .ok db') :
    ∃ t ∈ db, t.schema.name = table ∧ ∃ old, t.schema.columnIndex col = some old ∧
      new < t.schema.columns.length ∧ db' = db.replace table fun t =>
        t.edit { t.schema with columns := moved old new t.schema.columns } (moved old new) := by
  simp only [moveColumn, bind_ok, refuse_ok, pure_ok, position_ok] at h
  obtain ⟨t, hlook, old, hold, u, hnew, rfl⟩ := h
  obtain ⟨ht, hname⟩ := lookup_mem hlook
  exact ⟨t, ht, hname, old, hold, by omega, rfl⟩

theorem moveColumn_intact (h : db.Intact) {table col : String} {new : Nat}
    (hok : db.moveColumn table col new = .ok db') : db'.Intact := by
  obtain ⟨t, ht, rfl, old, hi, hnew, rfl⟩ := moveColumn_ok hok
  have htab := h.tables t ht
  have hold : old < t.schema.columns.length := by
    obtain ⟨c, hc, -⟩ := Table.columnIndex_lt hi
    exact (List.getElem?_eq_some_iff.mp hc).1
  have hperm := perm_moved hold hnew
  have hcell : ∀ r ∈ t.rows, ∀ n, Table.cell { t.schema with
      columns := moved old new t.schema.columns } (moved old new r.2) n =
      t.schema.cell r.2 n := fun r hr n => by
    rw [Table.cell_eq_mapping, Table.cell_eq_mapping,
      Table.mapping_moved htab.columns (htab.fitted.arity r hr) hold hnew]
  have hcarried : ∀ n, Carried t { t.schema with columns := moved old new t.schema.columns }
      (moved old new) n := fun n =>
    ⟨fun c hc hn => ⟨c, hperm.mem_iff.mpr hc, hn, rfl, id⟩, fun r hr => hcell r hr n⟩
  have hnames : (Table.names { t.schema with
      columns := moved old new t.schema.columns }).Perm t.schema.names := hperm.map _
  refine h.edit ht rfl (fun _ => rfl) (ok_edit htab (hnames.nodup_iff.mpr htab.columns)
    htab.fkNames ⟨htab.refCols.1, fun r hr => hnames.mem_iff.mpr (htab.refCols.2 r hr)⟩
    (fun r hr => ?_) fun c' hc' => ?_) (fun _ hfk => hfk)
    (fun _ _ => (hcarried _).held) fun _ _ _ _ _ => hcarried _
  · have hlen := htab.fitted.arity r hr
    rw [length_moved hold hnew, length_moved (by omega) (by omega), hlen]
  · have hc := hperm.mem_iff.mp hc'
    exact Or.inl ⟨c', hc, rfl, rfl, htab.unique c' hc, fun r hr => hcell r hr _⟩

/-! ## Attributes of a column -/

/-- The column of that name changed, seen column by column. -/
theorem modify_eq_map {cs : List Column} (hnd : (cs.map (·.name)).Nodup) (col : String)
    (f : Column → Column) : cs.modify (cs.findIdx (·.name == col)) f =
      cs.map fun c => if c.name = col then f c else c := by
  induction cs with
  | nil => rfl
  | cons c cs ih =>
      rw [List.map_cons, List.nodup_cons] at hnd
      rw [List.findIdx_cons, List.map_cons]
      by_cases hc : c.name = col
      · have hrest : (cs.map fun d => if d.name = col then f d else d) = cs := by
          refine (List.map_congr_left fun d hd => if_neg fun hn => hnd.1 ?_).trans (List.map_id cs)
          rw [hc, ← hn]
          exact List.mem_map_of_mem hd
        simp [hc, hrest]
      · have hbeq : (c.name == col) = false := by simpa using hc
        rw [hbeq, if_neg hc, cond_false, List.modify_succ_cons, ih hnd.2]

/-- Cells are found by the names alone. -/
theorem cell_of_names {s s' : Table} (h : s'.names = s.names) (row : Row) (n : String) :
    s'.cell row n = s.cell row n := by
  have hidx : s'.columnIndex n = s.columnIndex n := by
    have hmap : ∀ u : Table, u.columnIndex n = u.names.findIdx? (· == n) := fun u => by
      rw [Table.names, List.findIdx?_map]
      rfl
    rw [hmap, hmap, h]
  rw [Table.cell, Table.cell, hidx]

theorem edit_same (u : TableState ι) (sch : Table) : u.edit sch id = { u with schema := sch } := by
  simp only [TableState.edit, id, Prod.mk.eta, List.map_id']

/-- The schema of `setColumn`. -/
abbrev withColumn (s : Table) (col : String) (f : Column → Column) : Table :=
  { s with columns := s.columns.modify (s.columns.findIdx (·.name == col)) f }

section Column

variable {col : String} {f : Column → Column}
  (hf : ∀ c, (f c).name = c.name ∧ (f c).ty = c.ty ∧ (f c).nullable = c.nullable)

include hf

theorem names_withColumn (h : t.schema.names.Nodup) :
    (withColumn t.schema col f).names = t.schema.names := by
  rw [withColumn, Table.names, modify_eq_map h, List.map_map]
  refine List.map_congr_left fun c _ => ?_
  simp only [Function.comp_apply]
  split
  · exact (hf c).1
  · rfl

/-- Attributes of one column changed. A key into the column must find it
`UNIQUE`, and if it is, no value may stand in it twice. -/
theorem setColumn_intact (h : db.Intact) (ht : t ∈ db)
    (hto : (∃ s ∈ db, ∃ fk ∈ s.schema.fks, fk.toTable = t.schema.name ∧ fk.toCol = col) →
      ∀ c, c.unique = true → (f c).unique = true)
    (hunique : ∀ c ∈ t.schema.columns, c.name = col → (f c).unique = true →
      t.Distinct col) : (db.setColumn t.schema.name col f).Intact := by
  have htab := h.tables t ht
  have hnames := @names_withColumn _ _ col _ hf htab.columns
  have hcell := cell_of_names hnames
  have hmem : ∀ c', c' ∈ (withColumn t.schema col f).columns ↔
      ∃ c ∈ t.schema.columns, (if c.name = col then f c else c) = c' := fun c' => by
    rw [withColumn, modify_eq_map htab.columns, List.mem_map]
  have hheld : ∀ n, Held t (withColumn t.schema col f) id n := by
    refine fun n => ⟨fun c hc hn => ⟨_, (hmem _).mpr ⟨c, hc, rfl⟩, ?_⟩, fun r _ => hcell _ _⟩
    split
    · exact ⟨(hf c).1.trans hn, (hf c).2.1⟩
    · exact ⟨hn, rfl⟩
  have hF : (fun t : TableState ι => { t with schema := withColumn t.schema col f }) t =
      t.edit (withColumn t.schema col f) id := (edit_same _ _).symm
  refine h.edit ht hF (fun _ => rfl) ?_ (fun _ hfk => hfk) (fun _ _ => hheld _)
    fun s hs fk hfk htable => ⟨fun c hc hn => ?_, (hheld _).2⟩
  · refine ok_edit htab (hnames ▸ htab.columns) htab.fkNames
      ⟨htab.refCols.1, fun r hr => hnames ▸ htab.refCols.2 r hr⟩ (fun r hr => ?_) fun c' hc' => ?_
    · rw [withColumn, List.length_modify]
      exact htab.fitted.arity r hr
    · obtain ⟨c, hc, rfl⟩ := (hmem c').mp hc'
      left
      by_cases hcol : c.name = col
      · rw [if_pos hcol]
        refine ⟨c, hc, (hf c).2.1.symm, (hf c).2.2.symm, fun hu => ?_, fun r _ => ?_⟩
        · rw [hcol]
          exact hunique c hc hcol hu
        · rw [(hf c).1]
          exact hcell _ _
      · rw [if_neg hcol]
        exact ⟨c, hc, rfl, rfl, htab.unique c hc, fun r _ => hcell _ _⟩
  · refine ⟨_, (hmem _).mpr ⟨c, hc, rfl⟩, ?_⟩
    split
    · next hcol =>
        exact ⟨(hf c).1.trans hn, (hf c).2.1, hto ⟨s, hs, fk, hfk, htable, hn.symm.trans hcol⟩ c⟩
    · exact ⟨hn, rfl, id⟩

end Column

theorem setUnique_ok {table col : String} {unique : Bool}
    (h : db.setUnique table col unique = .ok db') : ∃ t ∈ db, t.schema.name = table ∧
      (unique = true → t.Distinct col) ∧
      (unique = false → ∀ s ∈ db, ∀ fk ∈ s.schema.fks, fk.toTable = table → fk.toCol ≠ col) ∧
      db' = db.setColumn table col fun c => { c with unique } := by
  simp only [setUnique, bind_ok, position_ok] at h
  obtain ⟨t, hlook, i, -, h⟩ := h
  obtain ⟨ht, hname⟩ := lookup_mem hlook
  refine ⟨t, ht, hname, ?_⟩
  cases unique with
  | true =>
      simp only [if_true, bind_ok, refuse_ok, pure_ok] at h
      obtain ⟨u, hdup, rfl⟩ := h
      exact ⟨fun _ => TableState.distinct_iff.mpr (not_not.mp hdup), nofun, rfl⟩
  | false =>
      simp only [Bool.false_eq_true, if_false, bind_ok, notTarget_ok, pure_ok] at h
      obtain ⟨u, hto, rfl⟩ := h
      exact ⟨nofun, fun _ => hto, rfl⟩

theorem setUnique_intact (h : db.Intact) {table col : String} {unique : Bool}
    (hok : db.setUnique table col unique = .ok db') : db'.Intact := by
  obtain ⟨t, ht, rfl, hdist, hto, rfl⟩ := setUnique_ok hok
  refine setColumn_intact (fun c => ⟨rfl, rfl, rfl⟩) h ht ?_ fun c _ _ hu => hdist hu
  rintro ⟨s, hs, fk, hfk, htable, hcol⟩ c _
  by_contra hu
  exact hto (by simpa using hu) s hs fk hfk htable hcol

theorem setDisplayWidth_ok {table col : String} {width : Option UInt16}
    (h : db.setDisplayWidth table col width = .ok db') : ∃ t ∈ db, t.schema.name = table ∧
      db' = db.setColumn table col fun c => { c with displayWidth := width } := by
  simp only [setDisplayWidth, bind_ok, position_ok, pure_ok] at h
  obtain ⟨t, hlook, i, -, rfl⟩ := h
  obtain ⟨ht, hname⟩ := lookup_mem hlook
  exact ⟨t, ht, hname, rfl⟩

theorem setDisplayWidth_intact (h : db.Intact) {table col : String} {width : Option UInt16}
    (hok : db.setDisplayWidth table col width = .ok db') : db'.Intact := by
  obtain ⟨t, ht, rfl, rfl⟩ := setDisplayWidth_ok hok
  refine setColumn_intact (fun c => ⟨rfl, rfl, rfl⟩) h ht (fun _ _ hu => hu) ?_
  exact fun c hc hcol hu => hcol ▸ (h.tables t ht).unique c hc hu

/-! ## Keys and reference columns -/

/-- The schema edited in its keys and reference columns alone. -/
theorem relabel_intact (h : db.Intact) (ht : t ∈ db) {F : Table → Table}
    (hname : ∀ s, (F s).name = s.name) (hcols : (F t.schema).columns = t.schema.columns)
    (hfks : ((F t.schema).fks.map (·.name)).Nodup)
    (hrefs : (F t.schema).refCols.Nodup ∧ ∀ r ∈ (F t.schema).refCols, r ∈ t.schema.names)
    (hkeys : ∀ fk ∈ (F t.schema).fks, db.Refers t fk) :
    (db.replace t.schema.name fun t => { t with schema := F t.schema }).Intact := by
  have htab := h.tables t ht
  have hnames : (F t.schema).names = t.schema.names := congrArg (List.map (·.name)) hcols
  have hcell := cell_of_names hnames
  have hvalues : ∀ n, TableState.values { t with schema := F t.schema } n = t.values n := fun n =>
    List.map_congr_left fun r _ => hcell _ _
  have hserves : ∀ fk, Serves t { t with schema := F t.schema } fk := by
    refine fun fk => ⟨fun d hd hdn hdu => ⟨d, ?_, hdn, hdu, rfl⟩, fun v hv => ?_⟩
    · rw [hcols]
      exact hd
    · rw [hvalues]
      exact hv
  have hok : TableState.Ok { t with schema := F t.schema } := by
    have hF : t.edit (F t.schema) id = { t with schema := F t.schema } := edit_same _ _
    rw [← hF]
    refine ok_edit htab (hnames ▸ htab.columns) hfks ⟨hrefs.1, fun r hr => hnames ▸ hrefs.2 r hr⟩
      (fun r hr => hcols ▸ htab.fitted.arity r hr) fun c hc => ?_
    rw [hcols] at hc
    exact Or.inl ⟨c, hc, rfl, rfl, htab.unique c hc, fun r _ => hcell _ _⟩
  refine h.replace ht (fun u => hname u.schema) hok (fun _ _ fk _ _ => hserves fk) fun fk hfk => ?_
  refine ((hkeys fk hfk).replace h.names ht (hname t.schema) fun _ => hserves fk).source rfl rfl
    (fun c hc hcn => ⟨c, ?_, hcn, rfl⟩) fun v hv => ?_
  · rw [hcols]
    exact hc
  · rw [hvalues] at hv
    exact hv

theorem addFk_ok {table fromCol toTable toCol : String}
    (h : db.addFk table fromCol toTable toCol = .ok db') :
    ∃ t ∈ db, t.schema.name = table ∧ ∃ fc, t.schema.column fromCol = some fc ∧
      ∃ u ∈ db, u.schema.name = toTable ∧ ∃ tc, u.schema.column toCol = some tc ∧
        tc.unique = true ∧ fc.ty = tc.ty ∧
        (∀ v, some v ∈ t.values fromCol → some v ∈ u.values toCol) ∧
        db' = db.replace table fun s => { s with schema := { s.schema with
          fks := s.schema.fks ++ [⟨freeFkName (t.schema.fks.map (·.name)) fromCol, fromCol,
            toTable, toCol⟩] } } := by
  simp only [addFk, bind_ok, refuse_ok, pure_ok, columnOf_ok] at h
  obtain ⟨t, hlook, fc, hfc, u, hlook', tc, htc, _, hun, _, hty, _, hvals, rfl⟩ := h
  obtain ⟨ht, hname⟩ := lookup_mem hlook
  obtain ⟨hu, huname⟩ := lookup_mem hlook'
  refine ⟨t, ht, hname, fc, hfc, u, hu, huname, tc, htc, by simpa using hun, not_not.mp hty,
    fun v hv => ?_, rfl⟩
  by_contra hnot
  have hnone := refuseFirst_ok.mp hvals v (List.reduceOption_mem_iff.mpr hv)
  rw [if_neg hnot] at hnone
  cases hnone

theorem addFk_intact (h : db.Intact) {table fromCol toTable toCol : String}
    (hok : db.addFk table fromCol toTable toCol = .ok db') : db'.Intact := by
  obtain ⟨t, ht, rfl, fc, hfc, u, hu, rfl, tc, htc, hun, hty, hvals, rfl⟩ := addFk_ok hok
  have htab := h.tables t ht
  obtain ⟨hfmem, hfname⟩ := column_mem hfc
  obtain ⟨htmem, htname⟩ := column_mem htc
  refine relabel_intact h ht (F := fun s => { s with fks := s.fks ++ [⟨freeFkName
    (t.schema.fks.map (·.name)) fromCol, fromCol, u.schema.name, toCol⟩] }) (fun _ => rfl) rfl ?_
    htab.refCols fun fk hfk => ?_
  · show ((t.schema.fks ++ [_]).map ForeignKey.name).Nodup
    rw [List.map_append, List.nodup_append]
    refine ⟨htab.fkNames, List.nodup_singleton _, fun a ha b hb heq => ?_⟩
    rw [heq, List.mem_singleton.mp hb] at ha
    exact freeFkName_not_mem _ _ ha
  · rcases List.mem_append.mp hfk with hfk | hfk
    · exact h.keys t ht fk hfk
    · rw [List.mem_singleton.mp hfk]
      exact ⟨⟨fc, hfmem, hfname, u, hu, rfl, tc, htmem, htname, hun, hty.symm⟩,
        fun v hv => ⟨u, hu, rfl, hvals v hv⟩⟩

theorem dropFk_ok {table fkName : String} (h : db.dropFk table fkName = .ok db') :
    ∃ t ∈ db, t.schema.name = table ∧ db' = db.replace table fun t => { t with
      schema := { t.schema with fks := t.schema.fks.filter (·.name ≠ fkName) } } := by
  simp only [dropFk, bind_ok, refuse_ok, pure_ok] at h
  obtain ⟨t, hlook, _, -, rfl⟩ := h
  obtain ⟨ht, hname⟩ := lookup_mem hlook
  exact ⟨t, ht, hname, rfl⟩

theorem dropFk_intact (h : db.Intact) {table fkName : String}
    (hok : db.dropFk table fkName = .ok db') : db'.Intact := by
  obtain ⟨t, ht, rfl, rfl⟩ := dropFk_ok hok
  have htab := h.tables t ht
  refine relabel_intact h ht (F := fun s => { s with fks := s.fks.filter (·.name ≠ fkName) })
    (fun _ => rfl) rfl ?_ htab.refCols fun fk hfk => ?_
  · exact (List.filter_sublist.map _).nodup htab.fkNames
  · exact h.keys t ht fk (List.mem_of_mem_filter hfk)

theorem setReferenceColumns_ok {table : String} {cols : List String}
    (h : db.setReferenceColumns table cols = .ok db') :
    ∃ t ∈ db, t.schema.name = table ∧ cols.Nodup ∧ (∀ c ∈ cols, c ∈ t.schema.names) ∧
      db' = db.replace table fun t => { t with schema := { t.schema with refCols := cols } } := by
  simp only [setReferenceColumns, bind_ok, pure_ok] at h
  obtain ⟨t, hlook, u, hcheck, rfl⟩ := h
  obtain ⟨ht, hname⟩ := lookup_mem hlook
  have hcol : ∀ k, ∀ hk : k < cols.length, cols[k] ∈ t.schema.names ∧ cols[k] ∉ cols.take k := by
    intro k hk
    have hnone := refuseFirst_ok.mp hcheck k (List.mem_range.mpr hk)
    rw [refColError, List.getElem?_eq_getElem hk] at hnone
    simp only [] at hnone
    split at hnone
    · cases hnone
    · next hcol =>
        split at hnone
        · cases hnone
        · next hdup =>
            have hmem := not_not.mp (mt column_isNone.mpr hcol)
            exact ⟨hmem, hdup⟩
  refine ⟨t, ht, hname, ?_, fun c hc => ?_, rfl⟩
  · refine List.pairwise_iff_getElem.mpr fun i j hi hj hij heq => (hcol j hj).2 ?_
    rw [← heq]
    exact List.mem_take_iff_getElem.mpr ⟨i, by omega, rfl⟩
  · obtain ⟨k, hk, rfl⟩ := List.getElem_of_mem hc
    exact (hcol k hk).1

theorem setReferenceColumns_intact (h : db.Intact) {table : String} {cols : List String}
    (hok : db.setReferenceColumns table cols = .ok db') : db'.Intact := by
  obtain ⟨t, ht, rfl, hnd, hmem, rfl⟩ := setReferenceColumns_ok hok
  have htab := h.tables t ht
  exact relabel_intact h ht (F := fun s => { s with refCols := cols }) (fun _ => rfl) rfl
    htab.fkNames ⟨hnd, hmem⟩ fun fk hfk => h.keys t ht fk hfk

/-! ## A column renamed -/

theorem renameColumn_ok {table old new : String} (h : db.renameColumn table old new = .ok db') :
    old = new ∧ db' = db ∨ ∃ t ∈ db, t.schema.name = table ∧ old ≠ new ∧
      old ∈ t.schema.names ∧ new ∉ t.schema.names ∧ db' = db.map fun o =>
        { o with schema := renameIn table old new (o.schema.name == table) o.schema } := by
  simp only [renameColumn, bind_ok, refuse_ok] at h
  obtain ⟨_, -, h⟩ := h
  by_cases heq : old = new
  · rw [if_pos heq, pure_ok] at h
    exact Or.inl ⟨heq, h.symm⟩
  · rw [if_neg heq] at h
    simp only [bind_ok, refuse_ok, pure_ok] at h
    obtain ⟨t, hlook, _, hold, _, hnew, rfl⟩ := h
    obtain ⟨ht, hname⟩ := lookup_mem hlook
    refine Or.inr ⟨t, ht, hname, heq, not_not.mp (mt column_isNone.mpr hold), ?_, rfl⟩
    exact fun hmem => hnew (column_isSome.mpr hmem)

section Rename

variable {table old new : String}

/-- What a name becomes in table `o`. -/
def renamedTo (table old new : String) (o : TableState ι) (n : String) : String :=
  if o.schema.name = table ∧ n = old then new else n

/-- The table after the edit. -/
abbrev renamedTable (table old new : String) (o : TableState ι) : TableState ι :=
  { o with schema := renameIn table old new (o.schema.name == table) o.schema }

theorem renamedTo_of_ne {o : TableState ι} (h : o.schema.name ≠ table) (n : String) :
    renamedTo table old new o n = n :=
  if_neg fun hn => h hn.1

theorem columns_renamed (o : TableState ι) : (renamedTable table old new o).schema.columns =
    o.schema.columns.map fun c => { c with name := renamedTo table old new o c.name } := by
  show (if (o.schema.name == table) = true then _ else _) = _
  by_cases hname : o.schema.name = table
  · rw [if_pos (by simpa using hname)]
    refine List.map_congr_left fun c _ => ?_
    simp only [renamedTo, hname, true_and]
    split <;> rfl
  · rw [if_neg (by simpa using hname)]
    refine ((List.map_congr_left fun c _ => ?_).trans (List.map_id _)).symm
    rw [renamedTo_of_ne hname]
    rfl

theorem fks_renamed (o : TableState ι) : (renamedTable table old new o).schema.fks =
    o.schema.fks.map fun fk => { fk with
      fromCol := renamedTo table old new o fk.fromCol
      toCol := if fk.toTable = table ∧ fk.toCol = old then new else fk.toCol } := by
  refine List.map_congr_left fun ⟨name, fromCol, toTable, toCol⟩ _ => ?_
  by_cases hfrom : o.schema.name = table ∧ fromCol = old <;>
    by_cases hto : toTable = table ∧ toCol = old <;>
      simp [renamedTo, hfrom, hto]

theorem refCols_renamed (o : TableState ι) : (renamedTable table old new o).schema.refCols =
    o.schema.refCols.map (renamedTo table old new o) := by
  show (if (o.schema.name == table) = true then _ else _) = _
  by_cases hname : o.schema.name = table
  · rw [if_pos (by simpa using hname)]
    exact List.map_congr_left fun c _ => by simp [renamedTo, hname]
  · rw [if_neg (by simpa using hname)]
    exact ((List.map_congr_left fun c _ => renamedTo_of_ne hname c).trans (List.map_id _)).symm

theorem names_renamed (o : TableState ι) : (renamedTable table old new o).schema.names =
    o.schema.names.map (renamedTo table old new o) := by
  rw [Table.names, columns_renamed, List.map_map, List.map_map]
  rfl

/-- Cells stand under the new name. -/
theorem cell_renamed {o : TableState ι} (h : o.Ok)
    (hnew : o.schema.name = table → new ∉ o.schema.names) {r : ι × Row} (hr : r ∈ o.rows)
    {n : String} (hn : n ∈ o.schema.names) :
    (renamedTable table old new o).schema.cell r.2 (renamedTo table old new o n) =
      o.schema.cell r.2 n := by
  by_cases hname : o.schema.name = table
  · have hne : n ≠ new := fun heq => hnew hname (heq ▸ hn)
    have hren : renamedTo table old new o n = if n = old then new else n := by
      simp [renamedTo, hname]
    have howns : (o.schema.name == table) = true := by simpa using hname
    rw [hren, Table.cell_eq_mapping, Table.cell_eq_mapping,
      ← Table.mapping_rename h.columns (h.fitted.arity r hr) (hnew hname) hne]
    simp only [renameIn, howns, if_true]
    rfl
  · rw [renamedTo_of_ne hname]
    refine cell_of_names ?_ _ _
    rw [names_renamed]
    exact (List.map_congr_left fun m _ => renamedTo_of_ne hname m).trans (List.map_id _)

theorem values_renamed {o : TableState ι} (h : o.Ok)
    (hnew : o.schema.name = table → new ∉ o.schema.names) {n : String}
    (hn : n ∈ o.schema.names) :
    (renamedTable table old new o).values (renamedTo table old new o n) = o.values n :=
  List.map_congr_left fun _ hr => cell_renamed h hnew hr hn

theorem renamedTo_inj {o : TableState ι} (hnew : o.schema.name = table → new ∉ o.schema.names)
    {m n : String} (hm : m ∈ o.schema.names) (hn : n ∈ o.schema.names)
    (heq : renamedTo table old new o m = renamedTo table old new o n) : m = n := by
  by_cases hname : o.schema.name = table
  · have hmn : m ≠ new := fun h => hnew hname (h ▸ hm)
    have hnn : n ≠ new := fun h => hnew hname (h ▸ hn)
    simp only [renamedTo, hname, true_and] at heq
    split at heq <;> split at heq <;> simp_all
  · rwa [renamedTo_of_ne hname, renamedTo_of_ne hname] at heq

theorem ok_renamed {o : TableState ι} (h : o.Ok)
    (hnew : o.schema.name = table → new ∉ o.schema.names) :
    (renamedTable table old new o).Ok := by
  have hinj : ∀ m ∈ o.schema.names, ∀ n ∈ o.schema.names,
      renamedTo table old new o m = renamedTo table old new o n → m = n :=
    fun m hm n hn => renamedTo_inj hnew hm hn
  have hedit : o.edit (renamedTable table old new o).schema id = renamedTable table old new o :=
    edit_same _ _
  rw [← hedit]
  refine ok_edit h ?_ ?_ ⟨?_, fun r hr => ?_⟩ (fun r hr => ?_) fun c' hc' => ?_
  · rw [names_renamed]
    exact List.Nodup.map_on hinj h.columns
  · rw [fks_renamed, List.map_map]
    exact h.fkNames
  · rw [refCols_renamed]
    exact List.Nodup.map_on (fun m hm n hn =>
      hinj m (h.refCols.2 m hm) n (h.refCols.2 n hn)) h.refCols.1
  · rw [refCols_renamed] at hr
    obtain ⟨m, hm, rfl⟩ := List.mem_map.mp hr
    rw [names_renamed]
    exact List.mem_map_of_mem (h.refCols.2 m hm)
  · rw [columns_renamed, List.length_map]
    exact h.fitted.arity r hr
  · rw [columns_renamed] at hc'
    obtain ⟨c, hc, rfl⟩ := List.mem_map.mp hc'
    exact Or.inl ⟨c, hc, rfl, rfl, h.unique c hc, fun r hr =>
      cell_renamed h hnew hr (List.mem_map_of_mem hc)⟩

theorem renameColumn_intact (h : db.Intact) (hok : db.renameColumn table old new = .ok db') :
    db'.Intact := by
  rcases renameColumn_ok hok with ⟨-, rfl⟩ | ⟨t, ht, hname, hne, hold, hnew, rfl⟩
  · exact h
  have hfree : ∀ o ∈ db, o.schema.name = table → new ∉ o.schema.names := by
    intro o ho hon
    rw [List.inj_on_of_nodup_map h.names ho ht (hon.trans hname.symm)]
    exact hnew
  have hcolumn : ∀ (o : TableState ι) (c : Column), c ∈ o.schema.columns →
      { c with name := renamedTo table old new o c.name } ∈
        (renamedTable table old new o).schema.columns := fun o c hc => by
    rw [columns_renamed]
    exact List.mem_map.mpr ⟨c, hc, rfl⟩
  refine ⟨?_, fun o' ho' => ?_, fun o' ho' fk' hfk' => ?_⟩
  · rw [List.map_map]
    exact h.names
  · obtain ⟨o, ho, rfl⟩ := List.mem_map.mp ho'
    exact ok_renamed (h.tables o ho) (hfree o ho)
  · obtain ⟨o, ho, rfl⟩ := List.mem_map.mp ho'
    rw [fks_renamed] at hfk'
    obtain ⟨fk, hfk, rfl⟩ := List.mem_map.mp hfk'
    have hrefers := h.keys o ho fk hfk
    have hfrom : ({ fk with
      toCol := if fk.toTable = table ∧ fk.toCol = old then new else fk.toCol } :
        ForeignKey).fromCol = fk.fromCol := rfl
    refine ((hrefers.target hfrom rfl
      fun u hu hun => ?_).source rfl rfl (fun c hc hcn => ?_) fun v hv => ?_)
    · have hto : (if fk.toTable = table ∧ fk.toCol = old then new else fk.toCol) =
          renamedTo table old new u fk.toCol := by rw [renamedTo, hun]
      simp only [hto]
      refine ⟨renamedTable table old new u, List.mem_map_of_mem hu, rfl,
        fun d hd hdn hdu => ⟨_, hcolumn u d hd, by rw [hdn], hdu, rfl⟩, fun v hv => ?_⟩
      rw [values_renamed (h.tables u hu) (hfree u hu) (hrefers.toCol_mem h.names hu hun)]
      exact hv
    · exact ⟨_, hcolumn o c hc, by rw [hcn], rfl⟩
    · rw [values_renamed (h.tables o ho) (hfree o ho) hrefers.fromCol_mem] at hv
      exact hv

end Rename

/-! ## Whole tables -/

theorem createTable_ok {name : String} (h : db.createTable name = .ok db') :
    name ≠ "" ∧ (∀ t ∈ db, t.schema.name ≠ name) ∧ db' = db ++ [⟨Table.new name, [], []⟩] := by
  simp only [createTable, bind_ok, refuse_ok, pure_ok] at h
  obtain ⟨_, hname, _, hdup, rfl⟩ := h
  exact ⟨hname, fun t ht hn => hdup ⟨t, ht, hn⟩, rfl⟩

theorem Refers.mono (h : db.Refers t fk)
    (hu : ∀ u ∈ db, u.schema.name = fk.toTable → u ∈ db') : db'.Refers t fk :=
  h.target rfl rfl fun u hmem hun => ⟨u, hu u hmem hun, rfl, Serves.refl u fk⟩

theorem createTable_intact (h : db.Intact) {name : String}
    (hok : db.createTable name = .ok db') : db'.Intact := by
  obtain ⟨-, hfree, rfl⟩ := createTable_ok hok
  refine ⟨?_, fun t ht => ?_, fun t ht fk hfk => ?_⟩
  · rw [List.map_append, List.nodup_append]
    refine ⟨h.names, List.nodup_singleton _, fun a ha b hb heq => ?_⟩
    obtain ⟨t, ht, rfl⟩ := List.mem_map.mp ha
    rw [List.mem_singleton.mp hb] at heq
    exact hfree t ht heq
  · rcases List.mem_append.mp ht with ht | ht
    · exact h.tables t ht
    · rw [List.mem_singleton.mp ht]
      exact ⟨List.nodup_nil, List.nodup_nil, ⟨List.nodup_nil, nofun⟩,
        ⟨List.nodup_nil, List.Sublist.refl _, nofun⟩, nofun, nofun, nofun⟩
  · rcases List.mem_append.mp ht with ht | ht
    · exact (h.keys t ht fk hfk).mono fun u hu _ => List.mem_append_left _ hu
    · rw [List.mem_singleton.mp ht] at hfk
      cases hfk

theorem dropTable_ok {name : String} (h : db.dropTable name = .ok db') :
    ∃ t ∈ db, t.schema.name = name ∧
      (∀ s ∈ db, s.schema.name ≠ name → ∀ fk ∈ s.schema.fks, fk.toTable ≠ name) ∧
      db' = db.filter (·.schema.name ≠ name) := by
  simp only [dropTable, bind_ok, pure_ok] at h
  obtain ⟨t, hlook, _, hkeys, rfl⟩ := h
  obtain ⟨ht, hname⟩ := lookup_mem hlook
  refine ⟨t, ht, hname, fun s hs hsn fk hfk htable => ?_, rfl⟩
  have hnone := refuseFirst_ok.mp hkeys s (List.mem_filter.mpr ⟨hs, by simpa using hsn⟩)
  rw [if_pos (List.any_eq_true.mpr ⟨fk, hfk, by simpa using htable⟩)] at hnone
  cases hnone

theorem dropTable_intact (h : db.Intact) {name : String}
    (hok : db.dropTable name = .ok db') : db'.Intact := by
  obtain ⟨t, -, -, hkeys, rfl⟩ := dropTable_ok hok
  refine ⟨(List.filter_sublist.map _).nodup h.names,
    fun s hs => h.tables s (List.mem_of_mem_filter hs), fun s hs fk hfk => ?_⟩
  obtain ⟨hmem, hname⟩ := List.mem_filter.mp hs
  have htable := hkeys s hmem (by simpa using hname) fk hfk
  refine (h.keys s hmem fk hfk).mono fun u hu hun => List.mem_filter.mpr ⟨hu, ?_⟩
  rw [hun]
  simpa using htable

/-! ## Rows -/

section Rows

variable [DecidableEq ι] {cells : Row} {exclude : Option ι}

/-- A row that may be stored: `exclude` is the row it replaces, if any. -/
structure Admits (db : Database ι) (t : TableState ι) (exclude : Option ι) (cells : Row) :
    Prop where
  arity : cells.length = t.schema.columns.length
  types : ∀ c ∈ t.schema.columns, ∀ v, t.schema.cell cells c.name = some v → v.typeOf = c.ty
  notNull : ∀ c ∈ t.schema.columns, c.nullable = false → t.schema.cell cells c.name ≠ none
  unique : ∀ c ∈ t.schema.columns, c.unique = true → t.schema.cell cells c.name ≠ none →
    ∀ r ∈ t.rows, some r.1 ≠ exclude → t.schema.cell r.2 c.name ≠ t.schema.cell cells c.name
  keys : ∀ fk ∈ t.schema.fks, ∀ v, t.schema.cell cells fk.fromCol = some v →
    some v ∈ db.admitted t exclude cells fk

theorem cell_at {s : Table} (hnd : s.names.Nodup) {i : Nat} {c : Column}
    (hc : s.columns[i]? = some c) (row : Row) : s.cell row c.name = cellAt row i := by
  have hi : s.names[i]? = some c.name := by rw [List.getElem?_map, hc]; rfl
  exact Table.cell_eq ((Table.columnIndex_eq_some hnd).mpr hi) row

theorem mem_zip_cells {s : Table} (hnd : s.names.Nodup) {row : List (Option Value)}
    (hlen : row.length = s.columns.length) {c : Column} {x : Option Value} :
    (c, x) ∈ s.columns.zip row ↔ c ∈ s.columns ∧ s.cell row c.name = x := by
  have hat : ∀ i : Nat, s.columns[i]? = some c → (row[i]? = some x ↔ s.cell row c.name = x) := by
    intro i hc
    have hlt := (List.getElem?_eq_some_iff.mp hc).1
    rw [cell_at hnd hc, cellAt, List.getD_eq_getElem _ _ (by omega),
      List.getElem?_eq_getElem (by omega), Option.some_inj]
  rw [List.mem_iff_getElem?, List.mem_iff_getElem?, ← exists_and_right]
  refine exists_congr fun i => ?_
  rw [List.getElem?_zip_eq_some]
  exact and_congr_right (hat i)

theorem cellError_iff {c : Column} {x : Option Value} : cellError c x = none ↔
    (∀ v, x = some v → v.typeOf = c.ty) ∧ (c.nullable = false → x ≠ none) := by
  cases x with
  | none => cases hn : c.nullable <;> simp [cellError, hn]
  | some v =>
      rw [cellError]
      split <;> simp [*]

theorem uniqueError_iff {rows : List (ι × Row)} {c : Column} {i : Nat} :
    uniqueError rows exclude cells (c, i) = none ↔ (c.unique = true → cellAt cells i ≠ none →
      ∀ r ∈ rows, some r.1 ≠ exclude → cellAt r.2 i ≠ cellAt cells i) := by
  unfold uniqueError
  split
  · next h =>
      obtain ⟨hu, hne, r, hr, hex, heq⟩ := h
      exact ⟨nofun, fun hall => absurd heq (hall hu hne r hr hex)⟩
  · next h =>
      exact ⟨fun _ hu hne r hr hex heq => h ⟨hu, hne, r, hr, hex, heq⟩, fun _ => rfl⟩

theorem fkError_iff : fkError db t exclude cells fk = none ↔
    ∀ v, t.schema.cell cells fk.fromCol = some v → some v ∈ db.admitted t exclude cells fk := by
  unfold fkError
  cases t.schema.cell cells fk.fromCol with
  | none => simp
  | some v =>
      simp only [Option.some_inj, forall_eq']
      split <;> simp [*]

/-- `validate` accepts the rows that may be stored. -/
theorem validate_iff (hnd : t.schema.names.Nodup) {u : Unit} :
    db.validate t cells exclude = .ok u ↔ Admits db t exclude cells := by
  have hcols : cells.length = t.schema.columns.length →
      ((∀ x ∈ t.schema.columns.zip cells, cellError x.1 x.2 = none) ↔
        (∀ c ∈ t.schema.columns, ∀ v, t.schema.cell cells c.name = some v → v.typeOf = c.ty) ∧
        ∀ c ∈ t.schema.columns, c.nullable = false → t.schema.cell cells c.name ≠ none) := by
    intro hlen
    rw [← forall₂_and, Prod.forall]
    refine forall_congr' fun c => ?_
    simp only [mem_zip_cells hnd hlen, cellError_iff]
    exact ⟨fun h hc => h _ ⟨hc, rfl⟩, fun h x hx => hx.2 ▸ h hx.1⟩
  have hunique : (∀ x ∈ t.schema.columns.zipIdx, uniqueError t.rows exclude cells x = none) ↔
      ∀ c ∈ t.schema.columns, c.unique = true → t.schema.cell cells c.name ≠ none →
        ∀ r ∈ t.rows, some r.1 ≠ exclude →
          t.schema.cell r.2 c.name ≠ t.schema.cell cells c.name := by
    rw [Prod.forall]
    refine forall_congr' fun c => ?_
    simp only [List.mk_mem_zipIdx_iff_getElem?, uniqueError_iff]
    constructor
    · intro h hc
      obtain ⟨i, hi⟩ := List.mem_iff_getElem?.mp hc
      simp only [cell_at hnd hi]
      exact h i hi
    · intro h i hi
      have hat := h (List.mem_of_getElem? hi)
      simp only [cell_at hnd hi] at hat
      exact hat
  simp only [validate, bind_ok, refuse_ok, refuseFirst_iff, hunique, fkError_iff]
  constructor
  · rintro ⟨_, hlen, _, hcells, _, huniq, hkeys⟩
    have hlen := not_not.mp hlen
    obtain ⟨htypes, hnull⟩ := (hcols hlen).mp hcells
    exact ⟨hlen, htypes, hnull, huniq, hkeys⟩
  · exact fun h => ⟨(), not_not.mpr h.arity, (), (hcols h.arity).mpr ⟨h.types, h.notNull⟩, (),
      h.unique, h.keys⟩

/-- `restrict` accepts when no other row refers to a value that goes away. -/
theorem restrict_iff {id : ι} {row : Row} {kept : String → Value → Bool} {u : Unit} :
    db.restrict t id row kept = .ok u ↔ ∀ o ∈ db, ∀ fk ∈ o.schema.fks,
      fk.toTable = t.schema.name → ∀ key, t.schema.cell row fk.toCol = some key →
        kept fk.toCol key = false → ∀ r ∈ o.rows, ¬ (o.schema.name = t.schema.name ∧ r.1 = id) →
          o.schema.cell r.2 fk.fromCol ≠ some key := by
  simp only [restrict, refuseFirst_iff, List.findSome?_eq_none_iff]
  refine forall₂_congr fun o _ => forall₂_congr fun fk _ => ?_
  unfold restrictError
  by_cases hto : fk.toTable = t.schema.name
  · rw [if_neg (not_not.mpr hto)]
    cases t.schema.cell row fk.toCol with
    | none => simp
    | some key =>
        simp only [Option.some_inj, forall_eq', hto, forall_const]
        split
        · next h =>
            obtain ⟨hk, r, hr, hother, heq⟩ := h
            refine ⟨fun h => ?_, fun hall => absurd heq (hall hk r hr hother)⟩
            cases h
        · next h =>
            exact ⟨fun _ hk r hr hother heq => h ⟨hk, r, hr, hother, heq⟩, fun _ => rfl⟩
  · rw [if_pos hto]
    exact ⟨fun _ htable => absurd htable hto, fun _ => rfl⟩

theorem rowOf_ok {id : ι} {row : Row} (h : rowOf t id = .ok row) : (id, row) ∈ t.rows := by
  unfold rowOf at h
  cases hf : t.rows.find? (·.1 == id) with
  | none =>
      rw [hf] at h
      cases h
  | some r =>
      rw [hf] at h
      cases h
      have hid : r.1 = id := by simpa using List.find?_some hf
      rw [← hid]
      exact List.mem_of_find?_eq_some hf

omit [DecidableEq ι] in
/-- A row is stored once. -/
theorem row_unique (h : t.Ok) {r r' : ι × Row} (hr : r ∈ t.rows) (hr' : r' ∈ t.rows)
    (heq : r.1 = r'.1) : r = r' :=
  List.inj_on_of_nodup_map (h.fitted.rows.nodup h.fitted.issued) hr hr' heq

theorem rowOf_of_mem (h : t.Ok) {r : ι × Row} (hr : r ∈ t.rows) : rowOf t r.1 = .ok r.2 := by
  unfold rowOf
  cases hf : t.rows.find? (·.1 == r.1) with
  | none => exact absurd (by simp) (List.find?_eq_none.mp hf r hr)
  | some r' =>
      rw [row_unique h (List.mem_of_find?_eq_some hf) hr (by simpa using List.find?_some hf)]

omit [DecidableEq ι] in
/-- The rows of one table exchanged for others. -/
theorem Intact.rows (h : db.Intact) (ht : t ∈ db) {F : TableState ι → TableState ι}
    (hsch : ∀ u, (F u).schema = u.schema) (hok : (F t).Ok)
    (hvalues : ∀ s ∈ db.replace t.schema.name F, ∀ fk ∈ s.schema.fks, ∀ v,
      some v ∈ s.values fk.fromCol → ∃ u ∈ db.replace t.schema.name F,
        u.schema.name = fk.toTable ∧ some v ∈ u.values fk.toCol) :
    (db.replace t.schema.name F).Intact := by
  have hclosed : ∀ s fk, db.FkClosed s fk → (db.replace t.schema.name F).FkClosed s fk := by
    rintro s fk ⟨c, hc, hname, u, hu, hun, hd⟩
    refine ⟨c, hc, hname, ?_⟩
    by_cases hut : u.schema.name = t.schema.name
    · rw [List.inj_on_of_nodup_map h.names hu ht hut] at hun hd
      exact ⟨F t, (mem_replace h.names ht).mpr (Or.inl rfl), (hsch t).symm ▸ hun,
        (hsch t).symm ▸ hd⟩
    · exact ⟨u, (mem_replace h.names ht).mpr (Or.inr ⟨hu, hut⟩), hun, hd⟩
  refine ⟨?_, fun s hs => ?_, fun s hs fk hfk => ⟨?_, hvalues s hs fk hfk⟩⟩
  · rw [replace_names fun u hu => (congrArg Table.name (hsch u)).trans hu]
    exact h.names
  · rcases (mem_replace h.names ht).mp hs with rfl | ⟨hs, -⟩
    · exact hok
    · exact h.tables s hs
  · rcases (mem_replace h.names ht).mp hs with rfl | ⟨hs, -⟩
    · rw [hsch t] at hfk ⊢
      exact hclosed _ fk (h.keys t ht fk hfk).closed
    · exact hclosed _ fk (h.keys s hs fk hfk).closed

theorem insert_ok {fresh : ι} {table : String} (h : db.insert fresh table cells = .ok db') :
    ∃ t, db.lookup table = .ok t ∧ db.validate t cells none = .ok () ∧
      db' = db.replace table fun t =>
        { t with rows := t.rows ++ [(fresh, cells)], issued := t.issued ++ [fresh] } := by
  simp only [Database.insert, bind_ok, pure_ok] at h
  obtain ⟨t, hlook, _, hval, rfl⟩ := h
  exact ⟨t, hlook, hval, rfl⟩

theorem admitted_cases {v : Value} (h : some v ∈ db.admitted t exclude cells fk) :
    (fk.toTable = t.schema.name ∧ ∃ r ∈ t.rows,
      t.schema.cell (if some r.1 = exclude then cells else r.2) fk.toCol = some v) ∨
    fk.toTable ≠ t.schema.name ∧ ∃ u ∈ db, u.schema.name = fk.toTable ∧
      some v ∈ u.values fk.toCol := by
  unfold admitted at h
  by_cases hself : fk.toTable = t.schema.name
  · rw [if_pos hself] at h
    exact Or.inl ⟨hself, List.mem_map.mp h⟩
  · rw [if_neg hself] at h
    cases hlook : db.lookup fk.toTable with
    | error e =>
        rw [hlook] at h
        cases h
    | ok u =>
        rw [hlook] at h
        obtain ⟨hu, hun⟩ := lookup_mem hlook
        exact Or.inr ⟨hself, u, hu, hun, h⟩

omit [DecidableEq ι] in
/-- A row behind the last. -/
theorem ok_append (h : t.Ok) {fresh : ι} (hnew : fresh ∉ t.issued)
    (hlen : cells.length = t.schema.columns.length)
    (htypes : ∀ c ∈ t.schema.columns, ∀ v,
      t.schema.cell cells c.name = some v → v.typeOf = c.ty)
    (hnull : ∀ c ∈ t.schema.columns, c.nullable = false → t.schema.cell cells c.name ≠ none)
    (hunique : ∀ c ∈ t.schema.columns, c.unique = true → t.schema.cell cells c.name ≠ none →
      ∀ r ∈ t.rows, t.schema.cell r.2 c.name ≠ t.schema.cell cells c.name) :
    TableState.Ok { t with rows := t.rows ++ [(fresh, cells)], issued := t.issued ++ [fresh] } := by
  refine ⟨h.columns, h.fkNames, h.refCols, ⟨?_, ?_, fun r hr => ?_⟩, fun r hr => ?_,
    fun r hr => ?_, fun c hc hu => ?_⟩
  · rw [List.nodup_append]
    refine ⟨h.fitted.issued, List.nodup_singleton _, fun a ha b hb heq => hnew ?_⟩
    rw [← List.mem_singleton.mp hb, ← heq]
    exact ha
  · rw [List.map_append]
    exact h.fitted.rows.append (List.Sublist.refl _)
  · rcases List.mem_append.mp hr with hr | hr
    · exact h.fitted.arity r hr
    · rw [List.mem_singleton.mp hr]
      exact hlen
  · rcases List.mem_append.mp hr with hr | hr
    · exact h.types r hr
    · rw [List.mem_singleton.mp hr]
      exact htypes
  · rcases List.mem_append.mp hr with hr | hr
    · exact h.notNull r hr
    · rw [List.mem_singleton.mp hr]
      exact hnull
  · refine List.pairwise_append.mpr ⟨h.unique c hc hu, List.pairwise_singleton _ _, ?_⟩
    intro r hr r' hr' hne heq
    rw [List.mem_singleton.mp hr'] at heq
    exact hunique c hc hu (heq ▸ hne) r hr heq

theorem insert_intact (h : db.Intact) {fresh : ι} {table : String}
    (hfresh : ∀ t ∈ db, t.schema.name = table → fresh ∉ t.issued)
    (hok : db.insert fresh table cells = .ok db') : db'.Intact := by
  obtain ⟨t, hlook, hval, rfl⟩ := insert_ok hok
  obtain ⟨ht, rfl⟩ := lookup_mem hlook
  have htab := h.tables t ht
  have hadm := (validate_iff htab.columns).mp hval
  have hlift : ∀ u ∈ db, ∀ v col, some v ∈ u.values col →
      ∃ u' ∈ db.replace t.schema.name fun t =>
        { t with rows := t.rows ++ [(fresh, cells)], issued := t.issued ++ [fresh] },
        u'.schema.name = u.schema.name ∧ some v ∈ u'.values col := by
    intro u hu v col hv
    by_cases hut : u.schema.name = t.schema.name
    · rw [List.inj_on_of_nodup_map h.names hu ht hut] at hv
      refine ⟨_, (mem_replace h.names ht).mpr (Or.inl rfl), hut.symm, ?_⟩
      obtain ⟨r, hr, hv⟩ := TableState.mem_values.mp hv
      exact TableState.mem_values.mpr ⟨r, List.mem_append_left _ hr, hv⟩
    · exact ⟨u, (mem_replace h.names ht).mpr (Or.inr ⟨hu, hut⟩), rfl, hv⟩
  refine h.rows ht (fun _ => rfl) (ok_append htab (hfresh t ht rfl) hadm.arity hadm.types
    hadm.notNull fun c hc hu hne r hr => hadm.unique c hc hu hne r hr nofun) ?_
  intro s hs fk hfk v hv
  have hold : ∀ s ∈ db, fk ∈ s.schema.fks → some v ∈ s.values fk.fromCol →
      ∃ u ∈ db, u.schema.name = fk.toTable ∧ some v ∈ u.values fk.toCol :=
    fun s hs hfk hv => (h.keys s hs fk hfk).values v hv
  have hfound : ∃ u ∈ db, u.schema.name = fk.toTable ∧ some v ∈ u.values fk.toCol := by
    rcases (mem_replace h.names ht).mp hs with rfl | ⟨hs, -⟩
    · obtain ⟨r, hr, hv⟩ := TableState.mem_values.mp hv
      rcases List.mem_append.mp hr with hr | hr
      · exact hold t ht hfk (TableState.mem_values.mpr ⟨r, hr, hv⟩)
      · rw [List.mem_singleton.mp hr] at hv
        rcases admitted_cases (hadm.keys fk hfk v hv) with ⟨hself, r, hr, hval⟩ | ⟨-, hother⟩
        · rw [if_neg nofun] at hval
          exact ⟨t, ht, hself.symm, TableState.mem_values.mpr ⟨r, hr, hval⟩⟩
        · exact hother
    · exact hold s hs hfk hv
  obtain ⟨u, hu, hun, hv⟩ := hfound
  obtain ⟨u', hu', hun', hv'⟩ := hlift u hu v fk.toCol hv
  exact ⟨u', hu', hun'.trans hun, hv'⟩

/-- What `restrict` has checked: a value that a row refers to still stands in
another row than `id`, or the changed row keeps it. -/
theorem restrict_keeps (h : db.Intact) (ht : t ∈ db) {id : ι} {old : Row}
    {kept : String → Value → Bool} (hold : (id, old) ∈ t.rows)
    (hres : db.restrict t id old kept = .ok ()) {s : TableState ι} (hs : s ∈ db)
    (hfk : fk ∈ s.schema.fks) {r : ι × Row} (hr : r ∈ s.rows)
    (hother : ¬ (s.schema.name = t.schema.name ∧ r.1 = id)) {v : Value}
    (hv : s.schema.cell r.2 fk.fromCol = some v) :
    ∃ u ∈ db, u.schema.name = fk.toTable ∧
      ((∃ r ∈ u.rows, ¬ (u.schema.name = t.schema.name ∧ r.1 = id) ∧
        u.schema.cell r.2 fk.toCol = some v) ∨ u = t ∧ kept fk.toCol v = true) := by
  obtain ⟨u, hu, hun, hval⟩ := (h.keys s hs fk hfk).values v
    (TableState.mem_values.mpr ⟨r, hr, hv⟩)
  obtain ⟨r₀, hr₀, hv₀⟩ := TableState.mem_values.mp hval
  refine ⟨u, hu, hun, ?_⟩
  by_cases hself : u.schema.name = t.schema.name ∧ r₀.1 = id
  · have hut : u = t := List.inj_on_of_nodup_map h.names hu ht hself.1
    subst hut
    right
    refine ⟨rfl, ?_⟩
    have hrow := row_unique (h.tables u hu) hr₀ hold hself.2
    rw [hrow] at hv₀
    by_contra hk
    exact restrict_iff.mp hres s hs fk hfk hun.symm v hv₀ (by simpa using hk) r hr hother hv
  · exact Or.inl ⟨r₀, hr₀, hself, hv₀⟩

theorem update_ok {table : String} {id : ι} (h : db.update table id cells = .ok db') :
    ∃ t, db.lookup table = .ok t ∧ db.validate t cells (some id) = .ok () ∧
      ∃ old, rowOf t id = .ok old ∧
        (db.restrict t id old fun col key => t.schema.cell cells col == some key) = .ok () ∧
        db' = db.replace table fun t =>
          { t with rows := t.rows.map fun r => if r.1 = id then (id, cells) else r } := by
  simp only [Database.update, bind_ok, pure_ok] at h
  obtain ⟨t, hlook, _, hval, old, hrow, _, hres, rfl⟩ := h
  exact ⟨t, hlook, hval, old, hrow, hres, rfl⟩

/-- A row exchanged. -/
theorem ok_exchange (h : t.Ok) {id : ι} (hadm : Admits db t (some id) cells) :
    TableState.Ok { t with rows := t.rows.map fun r => if r.1 = id then (id, cells) else r } := by
  have hrow : ∀ r' ∈ t.rows.map fun r => if r.1 = id then (id, cells) else r,
      r' = (id, cells) ∨ r' ∈ t.rows := by
    intro r' hr'
    obtain ⟨r, hr, rfl⟩ := List.mem_map.mp hr'
    split
    · exact Or.inl rfl
    · exact Or.inr hr
  have hids : (t.rows.map fun r => if r.1 = id then (id, cells) else r).map (·.1) =
      t.rows.map (·.1) := by
    rw [List.map_map]
    refine List.map_congr_left fun r _ => ?_
    simp only [Function.comp_apply]
    split <;> simp [*]
  refine ⟨h.columns, h.fkNames, h.refCols, ⟨h.fitted.issued, ?_, fun r hr => ?_⟩, fun r hr => ?_,
    fun r hr => ?_, fun c hc hu => ?_⟩
  · rw [hids]
    exact h.fitted.rows
  · rcases hrow r hr with rfl | hr
    · exact hadm.arity
    · exact h.fitted.arity r hr
  · rcases hrow r hr with rfl | hr
    · exact hadm.types
    · exact h.types r hr
  · rcases hrow r hr with rfl | hr
    · exact hadm.notNull
    · exact h.notNull r hr
  · have hne : t.rows.Pairwise fun r r' => r.1 ≠ r'.1 :=
      List.pairwise_map.mp (h.fitted.rows.nodup h.fitted.issued)
    rw [TableState.Distinct, List.pairwise_map]
    refine ((h.unique c hc hu).and hne).imp_of_mem fun {r r'} hr hr' hrr => ?_
    have hadm' := hadm.unique c hc hu
    by_cases h1 : r.1 = id
    · have h2 : r'.1 ≠ id := fun h2 => hrr.2 (h1.trans h2.symm)
      rw [if_pos h1, if_neg h2]
      exact fun hn heq => hadm' hn r' hr' (by simpa using h2) heq.symm
    · rw [if_neg h1]
      split
      · exact fun hn heq => hadm' (heq ▸ hn) r hr (by simpa using h1) heq
      · exact hrr.1

omit [DecidableEq ι] in
/-- A value of a row other than `id` is there after the change. -/
theorem value_stays (h : db.Intact) (ht : t ∈ db) {F : TableState ι → TableState ι}
    (hsch : ∀ u, (F u).schema = u.schema) {id : ι}
    (hstay : ∀ r ∈ t.rows, r.1 ≠ id → r ∈ (F t).rows) {u : TableState ι} (hu : u ∈ db)
    {r : ι × Row} (hr : r ∈ u.rows) (hother : ¬ (u.schema.name = t.schema.name ∧ r.1 = id))
    {v : Value} {col : String} (hv : u.schema.cell r.2 col = some v) :
    ∃ u' ∈ db.replace t.schema.name F, u'.schema.name = u.schema.name ∧
      some v ∈ u'.values col := by
  by_cases hut : u.schema.name = t.schema.name
  · have heq : u = t := List.inj_on_of_nodup_map h.names hu ht hut
    subst heq
    refine ⟨F u, (mem_replace h.names ht).mpr (Or.inl rfl), by rw [hsch], ?_⟩
    rw [TableState.mem_values, hsch]
    exact ⟨r, hstay r hr fun hid => hother ⟨hut, hid⟩, hv⟩
  · exact ⟨u, (mem_replace h.names ht).mpr (Or.inr ⟨hu, hut⟩), rfl,
      TableState.mem_values.mpr ⟨r, hr, hv⟩⟩

theorem update_intact (h : db.Intact) {table : String} {id : ι}
    (hok : db.update table id cells = .ok db') : db'.Intact := by
  obtain ⟨t, hlook, hval, old, hrow, hres, rfl⟩ := update_ok hok
  obtain ⟨ht, rfl⟩ := lookup_mem hlook
  have htab := h.tables t ht
  have hadm := (validate_iff htab.columns).mp hval
  have hold := rowOf_ok hrow
  -- the changed row, and any row that stays
  have hnew : (id, cells) ∈ t.rows.map fun r => if r.1 = id then (id, cells) else r :=
    List.mem_map.mpr ⟨_, hold, if_pos rfl⟩
  have hstay : ∀ r ∈ t.rows, r.1 ≠ id →
      r ∈ t.rows.map fun r => if r.1 = id then (id, cells) else r :=
    fun r hr hne => List.mem_map.mpr ⟨r, hr, if_neg hne⟩
  -- a key of a row that is not the changed one
  have hkey : ∀ s ∈ db, ∀ fk ∈ s.schema.fks, ∀ r ∈ s.rows,
      ¬ (s.schema.name = t.schema.name ∧ r.1 = id) → ∀ v,
        s.schema.cell r.2 fk.fromCol = some v →
        ∃ u' ∈ db.replace t.schema.name fun t =>
          { t with rows := t.rows.map fun r => if r.1 = id then (id, cells) else r },
          u'.schema.name = fk.toTable ∧ some v ∈ u'.values fk.toCol := by
    intro s hs fk hfk r hr hother v hv
    obtain ⟨u, hu, hun, ⟨r₀, hr₀, hother₀, hv₀⟩ | ⟨rfl, hk⟩⟩ :=
      restrict_keeps h ht hold hres hs hfk hr hother hv
    · obtain ⟨u', hu', hun', hval'⟩ := value_stays h ht (F := fun t =>
        { t with rows := t.rows.map fun r => if r.1 = id then (id, cells) else r })
        (fun _ => rfl) hstay hu hr₀ hother₀ hv₀
      exact ⟨u', hu', hun'.trans hun, hval'⟩
    · refine ⟨_, (mem_replace h.names ht).mpr (Or.inl rfl), hun, ?_⟩
      exact TableState.mem_values.mpr ⟨_, hnew, by simpa using hk⟩
  refine h.rows ht (fun _ => rfl) (ok_exchange htab hadm) fun s hs fk hfk v hv => ?_
  rcases (mem_replace h.names ht).mp hs with rfl | ⟨hs, hne⟩
  · obtain ⟨r', hr', hv⟩ := TableState.mem_values.mp hv
    obtain ⟨r, hr, rfl⟩ := List.mem_map.mp hr'
    by_cases hid : r.1 = id
    · rw [if_pos hid] at hv
      rcases admitted_cases (hadm.keys fk hfk v hv) with
        ⟨hself, r₀, hr₀, hv₀⟩ | ⟨hne, u, hu, hun, hv₀⟩
      · refine ⟨_, (mem_replace h.names ht).mpr (Or.inl rfl), hself.symm, ?_⟩
        refine TableState.mem_values.mpr ⟨_, List.mem_map_of_mem hr₀, ?_⟩
        by_cases hid₀ : r₀.1 = id
        · rw [if_pos (by simpa using hid₀)] at hv₀
          rw [if_pos hid₀]
          exact hv₀
        · rw [if_neg (by simpa using hid₀)] at hv₀
          rw [if_neg hid₀]
          exact hv₀
      · exact ⟨u, (mem_replace h.names ht).mpr (Or.inr ⟨hu, hun ▸ hne⟩), hun, hv₀⟩
    · rw [if_neg hid] at hv
      exact hkey t ht fk hfk r hr (fun hn => hid hn.2) v hv
  · obtain ⟨r, hr, hv⟩ := TableState.mem_values.mp hv
    exact hkey s hs fk hfk r hr (fun hn => hne hn.1) v hv

theorem delete_ok {table : String} {id : ι} (h : db.delete table id = .ok db') :
    ∃ t, db.lookup table = .ok t ∧ ∃ row, rowOf t id = .ok row ∧
      (db.restrict t id row fun _ _ => false) = .ok () ∧
      db' = db.replace table fun t => { t with rows := t.rows.filter (·.1 ≠ id) } := by
  simp only [Database.delete, bind_ok, pure_ok] at h
  obtain ⟨t, hlook, row, hrow, _, hres, rfl⟩ := h
  exact ⟨t, hlook, row, hrow, hres, rfl⟩

omit [DecidableEq ι] in
/-- Fewer rows. -/
theorem ok_sublist (h : t.Ok) {rows : List (ι × Row)} (hsub : rows.Sublist t.rows) :
    TableState.Ok { t with rows } :=
  ⟨h.columns, h.fkNames, h.refCols, ⟨h.fitted.issued, (hsub.map _).trans h.fitted.rows,
    fun r hr => h.fitted.arity r (hsub.subset hr)⟩, fun r hr => h.types r (hsub.subset hr),
    fun r hr => h.notNull r (hsub.subset hr), fun c hc hu => (h.unique c hc hu).sublist hsub⟩

theorem delete_intact (h : db.Intact) {table : String} {id : ι}
    (hok : db.delete table id = .ok db') : db'.Intact := by
  obtain ⟨t, hlook, row, hrow, hres, rfl⟩ := delete_ok hok
  obtain ⟨ht, rfl⟩ := lookup_mem hlook
  have hold := rowOf_ok hrow
  have hstay : ∀ r ∈ t.rows, r.1 ≠ id → r ∈ t.rows.filter (·.1 ≠ id) :=
    fun r hr hne => List.mem_filter.mpr ⟨hr, by simpa using hne⟩
  have hkey : ∀ s ∈ db, ∀ fk ∈ s.schema.fks, ∀ r ∈ s.rows,
      ¬ (s.schema.name = t.schema.name ∧ r.1 = id) → ∀ v,
        s.schema.cell r.2 fk.fromCol = some v →
        ∃ u' ∈ db.replace t.schema.name fun t => { t with rows := t.rows.filter (·.1 ≠ id) },
          u'.schema.name = fk.toTable ∧ some v ∈ u'.values fk.toCol := by
    intro s hs fk hfk r hr hother v hv
    obtain ⟨u, hu, hun, ⟨r₀, hr₀, hother₀, hv₀⟩ | ⟨-, hk⟩⟩ :=
      restrict_keeps h ht hold hres hs hfk hr hother hv
    · obtain ⟨u', hu', hun', hval'⟩ := value_stays h ht (F := fun t =>
        { t with rows := t.rows.filter (·.1 ≠ id) }) (fun _ => rfl) hstay hu hr₀ hother₀ hv₀
      exact ⟨u', hu', hun'.trans hun, hval'⟩
    · cases hk
  refine h.rows ht (fun _ => rfl) (ok_sublist (h.tables t ht) List.filter_sublist)
    fun s hs fk hfk v hv => ?_
  obtain ⟨r, hr, hv⟩ := TableState.mem_values.mp hv
  rcases (mem_replace h.names ht).mp hs with rfl | ⟨hs, hne⟩
  · obtain ⟨hmem, hid⟩ := List.mem_filter.mp hr
    exact hkey t ht fk hfk r hmem (fun hn => by simp [hn.2] at hid) v hv
  · exact hkey s hs fk hfk r hr (fun hn => hne hn.1) v hv

end Rows

/-! ## Every operation -/

/-- Every operation keeps the database intact, as long as an insert gives out
an id that its table never gave out. -/
theorem step_intact [DecidableEq ι] (h : db.Intact) {fresh : ι} (op : Op ι)
    (hfresh : ∀ table cells, op = .insert table cells →
      ∀ t ∈ db, t.schema.name = table → fresh ∉ t.issued) : (db.step fresh op).2.Intact := by
  have hedit : ∀ {reply : Reply ι} {r : Except StoreError (Database ι)},
      (∀ db', r = .ok db' → db'.Intact) → (db.edited reply r).2.Intact := by
    intro reply r hr
    cases r with
    | error e => exact h
    | ok db' => exact hr db' rfl
  cases op with
  | createTable name => exact hedit fun _ => createTable_intact h
  | dropTable name => exact hedit fun _ => dropTable_intact h
  | addColumn table col => exact hedit fun _ => addColumn_intact h
  | dropColumn table col => exact hedit fun _ => dropColumn_intact h
  | moveColumn table col newIndex => exact hedit fun _ => moveColumn_intact h
  | renameColumn table old new => exact hedit fun _ => renameColumn_intact h
  | setUnique table col unique => exact hedit fun _ => setUnique_intact h
  | addFk table fromCol toTable toCol => exact hedit fun _ => addFk_intact h
  | dropFk table fkName => exact hedit fun _ => dropFk_intact h
  | setReferenceColumns table cols => exact hedit fun _ => setReferenceColumns_intact h
  | setDisplayWidth table col width => exact hedit fun _ => setDisplayWidth_intact h
  | insert table cells => exact hedit fun _ => insert_intact h (hfresh table cells rfl)
  | update table id cells => exact hedit fun _ => update_intact h
  | delete table id => exact hedit fun _ => delete_intact h
  | listTables => exact h
  | getTable name => exact h
  | scan name => exact h
  | getRow name id => exact h
  | followFk table id fkName => exact h
  | referencingRows table id => exact h

end Database

end TablesOS
