import TablesOS.Proofs.Queries

/-!
# Cells by column name

Rows are positional, schemas name the columns. `Table.mapping` is what a row
says by name, and it depends only on which cell stands under which name, not on
the order: for each edit of the column list and the same edit of the cells, one
lemma says what becomes of it.
-/

namespace TablesOS

/-! ## Elements out and in -/

namespace Database

variable {α β : Type}

theorem length_moved {old new : Nat} {xs : List α} (hold : old < xs.length)
    (hnew : new < xs.length) : (moved old new xs).length = xs.length := by
  rw [moved_of_lt hold, List.length_insertIdx_of_le_length, List.length_eraseIdx_of_lt hold]
  · omega
  · rw [List.length_eraseIdx_of_lt hold]
    omega

theorem perm_moved {old new : Nat} {xs : List α} (hold : old < xs.length)
    (hnew : new < xs.length) : (moved old new xs).Perm xs := by
  rw [moved_of_lt hold]
  have hins : ((xs.eraseIdx old).insertIdx new xs[old]).Perm (xs[old] :: xs.eraseIdx old) := by
    refine List.perm_insertIdx _ _ ?_
    rw [List.length_eraseIdx_of_lt hold]
    omega
  exact hins.trans (List.getElem_cons_eraseIdx_perm hold)

/-- Moving an element and moving it back. -/
theorem moved_moved {old new : Nat} {xs : List α} (hold : old < xs.length)
    (hnew : new < xs.length) : moved new old (moved old new xs) = xs := by
  have hlen := length_moved hold hnew
  have hle : new ≤ (xs.eraseIdx old).length := by
    rw [List.length_eraseIdx_of_lt hold]
    omega
  have hnew' : new < (moved old new xs).length := by omega
  have hget : (moved old new xs)[new] = xs[old] := by
    simp only [moved_of_lt hold, List.getElem_insertIdx_self]
  rw [moved_of_lt hnew', hget]
  have herase : (moved old new xs).eraseIdx new = xs.eraseIdx old := by
    rw [moved_of_lt hold, List.eraseIdx_insertIdx_self]
  rw [herase, List.insertIdx_eraseIdx_getElem hold]

theorem getElem?_moved {old new : Nat} {xs : List α} (hold : old < xs.length)
    (hnew : new < xs.length) : (moved old new xs)[new]? = xs[old]? := by
  rw [moved_of_lt hold, List.getElem?_insertIdx_self, List.getElem?_eq_getElem hold, if_pos]
  rw [List.length_eraseIdx_of_lt hold]
  omega

/-- Two lists edited alike are edited as one list of pairs. -/
theorem zip_moved {old new : Nat} {xs : List α} {ys : List β} (hlen : ys.length = xs.length) :
    (moved old new xs).zip (moved old new ys) = moved old new (xs.zip ys) := by
  have hx : xs = (xs.zip ys).map Prod.fst := (List.map_fst_zip (by omega)).symm
  have hy : ys = (xs.zip ys).map Prod.snd := (List.map_snd_zip (by omega)).symm
  generalize xs.zip ys = zs at *
  subst hx hy
  rw [← map_moved, ← map_moved]
  exact (List.zip_of_prod rfl rfl).symm

theorem zip_eraseIdx {i : Nat} {xs : List α} {ys : List β} (hlen : ys.length = xs.length) :
    (xs.eraseIdx i).zip (ys.eraseIdx i) = (xs.zip ys).eraseIdx i := by
  have hx : xs = (xs.zip ys).map Prod.fst := (List.map_fst_zip (by omega)).symm
  have hy : ys = (xs.zip ys).map Prod.snd := (List.map_snd_zip (by omega)).symm
  generalize xs.zip ys = zs at *
  subst hx hy
  rw [List.eraseIdx_map, List.eraseIdx_map]
  exact (List.zip_of_prod rfl rfl).symm

end Database

/-! ## What a row says by name -/

namespace Table

/-- The names of the columns. -/
abbrev names (t : Table) : List String := t.columns.map (·.name)

/-- What a row says of a name: nothing where no column has it, else the cell. -/
def mapping (t : Table) (row : Row) (name : String) : Option (Option Value) :=
  (t.columnIndex name).map (Store.cellAt row)

theorem cell_eq_mapping (t : Table) (row : Row) (name : String) :
    t.cell row name = (t.mapping row name).join := by
  unfold cell mapping
  cases t.columnIndex name <;> rfl

variable {t t' : Table} {row row' : Row} {name : String}

theorem columnIndex_eq_some (hnd : t.names.Nodup) {i : Nat} :
    t.columnIndex name = some i ↔ t.names[i]? = some name := by
  constructor
  · intro h
    obtain ⟨c, hc, hname⟩ := columnIndex_lt h
    rw [List.getElem?_map, hc]
    exact congrArg some hname
  · intro h
    rw [List.getElem?_map] at h
    obtain ⟨c, hc, rfl⟩ := Option.map_eq_some_iff.mp h
    obtain ⟨j, hj⟩ := columnIndex_of_mem (List.mem_of_getElem? hc)
    obtain ⟨d, hd, hname⟩ := columnIndex_lt hj
    have hi := (List.getElem?_eq_some_iff.mp hc).1
    have hij : t.names[i]? = t.names[j]? := by
      rw [List.getElem?_map, List.getElem?_map, hc, hd]
      exact congrArg some hname.symm
    rw [hj, (List.getElem?_inj (by simpa using hi) hnd).mp hij]

theorem columnIndex_eq_none : t.columnIndex name = none ↔ name ∉ t.names := by
  rw [columnIndex, List.findIdx?_eq_none_iff]
  simp

/-- A row says what its cells say under the names of their columns. -/
theorem mapping_eq_some (hnd : t.names.Nodup) (hlen : row.length = t.columns.length)
    {x : Option Value} : t.mapping row name = some x ↔ (name, x) ∈ t.names.zip row := by
  rw [List.mem_iff_getElem?, mapping, Option.map_eq_some_iff]
  refine exists_congr fun i => ?_
  rw [columnIndex_eq_some hnd, List.getElem?_zip_eq_some]
  refine and_congr_right fun hi => ?_
  have hlt : i < row.length := by
    have h := (List.getElem?_eq_some_iff.mp hi).1
    rw [List.length_map] at h
    omega
  rw [Store.cellAt, List.getD_eq_getElem _ _ hlt, List.getElem?_eq_getElem hlt,
    Option.some_inj]

/-- Two rows that say the same, each by its own columns. -/
theorem mapping_congr (hnd : t.names.Nodup) (hlen : row.length = t.columns.length)
    (hnd' : t'.names.Nodup) (hlen' : row'.length = t'.columns.length) {name' : String}
    (h : ∀ x, (name', x) ∈ t'.names.zip row' ↔ (name, x) ∈ t.names.zip row) :
    t'.mapping row' name' = t.mapping row name :=
  Option.ext fun x => by
    rw [mapping_eq_some hnd' hlen', mapping_eq_some hnd hlen, h x]

theorem mapping_eq_none : t.mapping row name = none ↔ name ∉ t.names := by
  rw [mapping, Option.map_eq_none_iff, columnIndex_eq_none]

/-! ## The edits -/

theorem names_rename (t : Table) (old new : String) (fks : List ForeignKey)
    (refCols : List String) :
    names ⟨t.name, t.columns.map fun c => if c.name = old then { c with name := new } else c,
      fks, refCols⟩ = t.names.map fun n => if n = old then new else n := by
  rw [names, names, List.map_map, List.map_map]
  refine List.map_congr_left fun c _ => ?_
  simp only [Function.comp_apply]
  split <;> rfl

section Edits

variable (hnd : t.names.Nodup) (hlen : row.length = t.columns.length)

include hnd hlen

/-- A column behind the last, with `NULL` in it. -/
theorem mapping_push {col : Column} (hnew : col.name ∉ t.names) {fks : List ForeignKey}
    {refCols : List String} :
    mapping ⟨t.name, t.columns ++ [col], fks, refCols⟩ (row ++ [none]) name =
      if name = col.name then some none else t.mapping row name := by
  have hnames : names ⟨t.name, t.columns ++ [col], fks, refCols⟩ = t.names ++ [col.name] :=
    List.map_append
  have hnd' : (names ⟨t.name, t.columns ++ [col], fks, refCols⟩).Nodup := by
    rw [hnames, List.nodup_append]
    refine ⟨hnd, List.nodup_singleton _, fun a ha b hb heq => hnew ?_⟩
    rw [← List.mem_singleton.mp hb, ← heq]
    exact ha
  have hzip : (t.names ++ [col.name]).zip (row ++ [none]) = t.names.zip row ++ [(col.name, none)] :=
    List.zip_append (by rw [List.length_map, hlen])
  have hlen' : (row ++ [none]).length = (t.columns ++ [col]).length := by simp [hlen]
  refine Option.ext fun x => ?_
  rw [mapping_eq_some hnd' hlen', hnames, hzip, List.mem_append, List.mem_singleton,
    Prod.mk.injEq]
  by_cases hname : name = col.name
  · subst hname
    rw [if_pos rfl, Option.some_inj]
    have hnot : (col.name, x) ∉ t.names.zip row := fun hmem => hnew (List.of_mem_zip hmem).1
    simp [hnot, eq_comm]
  · rw [if_neg hname, mapping_eq_some hnd hlen]
    simp [hname]

/-- A column taken out. -/
theorem mapping_erase {col : String} {i : Nat} (hi : t.columnIndex col = some i)
    {fks : List ForeignKey} {refCols : List String} :
    mapping ⟨t.name, t.columns.eraseIdx i, fks, refCols⟩ (row.eraseIdx i) name =
      if name = col then none else t.mapping row name := by
  have hnames : names ⟨t.name, t.columns.eraseIdx i, fks, refCols⟩ = t.names.eraseIdx i :=
    (List.eraseIdx_map _ _ _).symm
  have hnd' : (names ⟨t.name, t.columns.eraseIdx i, fks, refCols⟩).Nodup := by
    rw [hnames]
    exact hnd.eraseIdx i
  obtain ⟨c, hc, hcol⟩ := columnIndex_lt hi
  have hlt := (List.getElem?_eq_some_iff.mp hc).1
  have hlen' : (row.eraseIdx i).length = (t.columns.eraseIdx i).length := by
    rw [List.length_eraseIdx_of_lt hlt, List.length_eraseIdx_of_lt (by omega), hlen]
  by_cases hname : name = col
  · subst hname
    rw [if_pos rfl, mapping_eq_none, hnames]
    have hat := (columnIndex_eq_some hnd).mp hi
    rw [List.mem_eraseIdx_iff_getElem?]
    rintro ⟨j, hj, hget⟩
    have hjlt := (List.getElem?_eq_some_iff.mp hget).1
    exact hj ((List.getElem?_inj hjlt hnd).mp (hget.trans hat.symm))
  · rw [if_neg hname]
    refine mapping_congr hnd hlen hnd' hlen' fun x => ?_
    rw [hnames, Database.zip_eraseIdx (by rw [List.length_map, hlen]),
      List.mem_eraseIdx_iff_getElem?, List.mem_iff_getElem?]
    refine exists_congr fun j => and_iff_right_of_imp fun hget heq => hname ?_
    rw [List.getElem?_zip_eq_some, heq, (columnIndex_eq_some hnd).mp hi] at hget
    injection hget.1 with hget
    exact hget.symm

/-- A column moved. -/
theorem mapping_moved {old new : Nat} (hold : old < t.columns.length)
    (hnew : new < t.columns.length) {fks : List ForeignKey} {refCols : List String} :
    mapping ⟨t.name, Database.moved old new t.columns, fks, refCols⟩
      (Database.moved old new row) name = t.mapping row name := by
  have hnames : names ⟨t.name, Database.moved old new t.columns, fks, refCols⟩ =
      Database.moved old new t.names := Database.map_moved _ _ _ _
  have hperm : (Database.moved old new t.names).Perm t.names :=
    Database.perm_moved (by simpa using hold) (by simpa using hnew)
  have hnd' : (names ⟨t.name, Database.moved old new t.columns, fks, refCols⟩).Nodup := by
    rw [hnames]
    exact hperm.nodup_iff.mpr hnd
  have hlen' : (Database.moved old new row).length =
      (Database.moved old new t.columns).length := by
    rw [Database.length_moved (by omega) (by omega), Database.length_moved hold hnew, hlen]
  refine mapping_congr hnd hlen hnd' hlen' fun x => ?_
  have hzip : (t.names.zip row).length = t.columns.length := by
    rw [List.length_zip, List.length_map, hlen, Nat.min_self]
  rw [hnames, Database.zip_moved (by rw [List.length_map, hlen])]
  exact (Database.perm_moved (by omega) (by omega)).mem_iff

/-- A column renamed. -/
theorem mapping_rename {old new : String} (hnew : new ∉ t.names) (hname : name ≠ new)
    {fks : List ForeignKey} {refCols : List String} :
    mapping ⟨t.name, t.columns.map fun c => if c.name = old then { c with name := new } else c,
      fks, refCols⟩ row (if name = old then new else name) = t.mapping row name := by
  have hinj : ∀ m ∈ t.names, ∀ n, n ≠ new → (if m = old then new else m) =
      (if n = old then new else n) → m = n := by
    intro m hm n hn heq
    have hne : m ≠ new := fun h => hnew (h ▸ hm)
    split at heq <;> split at heq <;> simp_all
  have hnames := names_rename t old new fks refCols
  have hnd' : (names ⟨t.name, t.columns.map fun c => if c.name = old then { c with name := new }
      else c, fks, refCols⟩).Nodup := by
    rw [hnames]
    exact List.Nodup.map_on (fun m hm n hn => hinj m hm n fun h => hnew (h ▸ hn)) hnd
  refine mapping_congr hnd hlen hnd' (by rw [List.length_map]; exact hlen) fun x => ?_
  rw [hnames, List.zip_map_left, List.mem_map]
  constructor
  · rintro ⟨⟨m, y⟩, hmem, heq⟩
    injection heq with hm hy
    rw [← hinj m (List.of_mem_zip hmem).1 name hname hm, ← hy]
    exact hmem
  · exact fun hmem => ⟨(name, x), hmem, rfl⟩

end Edits

end Table

end TablesOS
