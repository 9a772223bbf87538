import TablesOS.Engine.Handle
import TablesOS.Engine.Order
import TablesOS.Kernel.Ps2

/-!
# The table browser and the row view (`ui.rs`)

What these screens read off the store: the filtered and sorted rows of a
browser, the list of a row's relationships, the next unique value that the
field builder offers. Every read is a call on the store of its own, whose error
is taken for no rows or no table.
-/

namespace TablesOS

/-- A screen at work on the store. An error of a call is a value here; a panic in
one is the end of the screen too. -/
abbrev Asking (D : Type) := StateT (Pager D) (Outcome Empty)

namespace Asking

variable {D : Type} [BlockDevice D]

/-- A call on the store, with its `Result`. -/
def ask (op : Op RowId) : Asking D (Except StoreError (Reply RowId)) := fun pg =>
  match Store.run op pg with
  | (.ok a, pg) => .ok (.ok a, pg)
  | (.err e, pg) => .ok (.error e, pg)
  | (.panic, _) => .panic
  | (.diverge, _) => .diverge

/-- `self.store.generation()` -/
def generation : Asking D Nat := fun pg => .ok (Store.generation pg, pg)

/-- `self.store.scan(table).ok()` -/
def scan (table : String) : Asking D (Option (List (RowId × Row))) := do
  match ← ask (.scan table) with
  | .ok (.rows rows) => pure (some rows)
  | _ => pure none

/-- `self.store.get_table(table).ok()` -/
def getTable (table : String) : Asking D (Option Table) := do
  match ← ask (.getTable table) with
  | .ok (.schema t) => pure (some t)
  | _ => pure none

/-- `self.store.get_row(table, id).ok()` -/
def getRow (table : String) (id : RowId) : Asking D (Option Row) := do
  match ← ask (.getRow table id) with
  | .ok (.row row) => pure (some row)
  | _ => pure none

/-- `self.store.follow_fk(table, id, fk_name).ok()` -/
def followFk (table : String) (id : RowId) (fkName : String) :
    Asking D (Option (String × List (RowId × Row))) := do
  match ← ask (.followFk table id fkName) with
  | .ok (.followed toTable rows) => pure (some (toTable, rows))
  | _ => pure none

/-- `self.store.referencing_rows(table, id).ok()` -/
def referencingRows (table : String) (id : RowId) :
    Asking D (Option (List (String × String × RowId × Row))) := do
  match ← ask (.referencingRows table id) with
  | .ok (.referencing refs) => pure (some refs)
  | _ => pure none

end Asking

namespace Views

open Asking

variable {D : Type} [BlockDevice D]

/-! ## The rows of a browser -/

/-- The comparison of `sort_by`: a row without a value comes last in either
direction. -/
def compareCells (asc : Bool) : Option Value → Option Value → Ordering
  | some x, some y => if asc then x.cmp y else y.cmp x
  | some _, none => .lt
  | none, some _ => .gt
  | none, none => .eq

/-- `rows.sort_by`, on column `ci`. -/
def sortRows (ci : Nat) (asc : Bool) (rows : List (RowId × Row)) : List (RowId × Row) :=
  rows.mergeSort fun a b =>
    (compareCells asc (Store.cellAt a.2 ci) (Store.cellAt b.2 ci)).isLE

/-- `rows.retain`: a filter on a column that is not there lets every row pass. -/
def filterRows (table : String) (filter : Option (String × Value))
    (rows : List (RowId × Row)) : Asking D (List (RowId × Row)) :=
  match filter with
  | none => pure rows
  | some (col, val) => do
      let t ← getTable table
      pure <| match t.bind (·.columnIndex col) with
        | some ci => rows.filter fun r => Store.cellAt r.2 ci == some val
        | none => rows

/-- `rows` -/
def rows (table : String) (filter : Option (String × Value)) (sort : Option (Nat × Bool)) :
    Asking D (List (RowId × Row)) := do
  let scanned ← scan table
  let kept ← filterRows table filter (scanned.getD [])
  pure <| match sort with
    | some (ci, asc) => sortRows ci asc kept
    | none => kept

/-! ## The row cache -/

/-- `struct RowCache` -/
structure RowCache where
  table : String
  filter : Option (String × Value)
  sort : Option (Nat × Bool)
  generation : Nat
  rows : List (RowId × Row)
  deriving DecidableEq

/-- The cache holds the rows of that query, and no commit has come between. -/
def RowCache.fresh (c : RowCache) (table : String) (filter : Option (String × Value))
    (sort : Option (Nat × Bool)) (generation : Nat) : Bool :=
  c.table = table && c.filter = filter && c.sort = sort && c.generation = generation

/-- The cache where it is fresh, or a new one. -/
def refilled (table : String) (filter : Option (String × Value)) (sort : Option (Nat × Bool))
    (generation : Nat) : Option RowCache → Asking D RowCache
  | some c => pure c
  | none => do
      let rows ← rows table filter sort
      pure ⟨table, filter, sort, generation, rows⟩

/-- `cached_rows`: the cache as it is left. Its rows are the answer. -/
def cachedRows (table : String) (filter : Option (String × Value)) (sort : Option (Nat × Bool))
    (cache : Option RowCache) : Asking D RowCache := do
  let generation ← Asking.generation
  refilled table filter sort generation
    (cache.filter fun c => c.fresh table filter sort generation)

/-! ## The next unique value -/

/-- The greatest of the values so far and one more; among equal ones the last. -/
def greater (best : Option Value) (v : Value) : Option Value :=
  match best with
  | some w => if w.cmp v = .gt then some w else some v
  | none => some v

/-- The canonical text of the number after the greatest one. -/
def textAbove : Option Value → String
  | some (.unsigned u) => (Value.unsigned u.succ).display
  | some (.integer i) => (Value.integer i.succ).display
  | _ => "1"

/-- `next_unique_value` -/
def nextUniqueValue (table : String) (col : Nat) (ty : Ty) : Asking D (Option String) := do
  if ty ≠ .integer ∧ ty ≠ .unsignedInteger then
    pure none
  else
    match ← scan table with
    | none => pure none
    | some rows =>
        let max := (rows.filterMap fun r => Store.cellAt r.2 col).foldl greater none
        pure (some (textAbove max))

/-! ## The relationships of a row -/

/-- An entry of the navigation list: its label, and the table, the column and the
value of the browser behind it. -/
abbrev NavTarget := String × String × String × Value

/-- The label of an outgoing key: the row it leads to, where there is one. -/
def outgoingLabel (table : String) (id : RowId) (fk : ForeignKey) : Asking D String := do
  let plain := "→ follow " ++ fk.name ++ " to " ++ fk.toTable
  match ← followFk table id fk.name with
  | some (toTable, (_, trow) :: _) => do
      let tt ← getTable toTable
      pure (tt.elim plain fun tt => "→ " ++ toTable ++ ": " ++ tt.referenceLabel trow)
  | _ => pure plain

/-- The entry for an outgoing key with a value. -/
def outgoing (table : String) (id : RowId) (t : Table) (row : Row) (fk : ForeignKey) :
    Asking D (List NavTarget) :=
  match (t.columnIndex fk.fromCol).bind (Store.cellAt row) with
  | none => pure []
  | some v => do
      let label ← outgoingLabel table id fk
      pure [(label, fk.toTable, fk.toCol, v)]

/-- The entries for all of them. -/
def outgoings (table : String) (id : RowId) : Asking D (List NavTarget) := do
  match ← getTable table with
  | none => pure []
  | some t => do
      match ← getRow table id with
      | none => pure []
      | some row => do
          let out ← t.fks.mapM (outgoing table id t row)
          pure out.flatten

/-- The entry for a row `r` of `tbl` that refers to this one by the key `fk`,
labelled by that row. The column that the key points to is looked up again. -/
def incomingBy (table : String) (id : RowId) (tbl : String) (r : Row) (ot : Table)
    (fk : ForeignKey) : Asking D (List NavTarget) := do
  match ← getRow table id with
  | none => pure []
  | some srow => do
      let t ← getTable table
      pure <| match (t.bind (·.columnIndex fk.toCol)).bind (Store.cellAt srow) with
        | none => []
        | some v => [("← " ++ tbl ++ ": " ++ ot.referenceLabel r, tbl, fk.fromCol, v)]

/-- The entry for a row that `referencing_rows` reports. -/
def incoming (table : String) (id : RowId) (ref : String × String × RowId × Row) :
    Asking D (List NavTarget) := do
  match ← getTable ref.1, ← getTable table with
  | some ot, some _ =>
      match ot.fks.find? (·.name == ref.2.1) with
      | none => pure []
      | some fk => incomingBy table id ref.1 ref.2.2.2 ot fk
  | _, _ => pure []

/-- `nav_targets` -/
def navTargets (table : String) (id : RowId) : Asking D (List NavTarget) := do
  let out ← outgoings table id
  let refs ← referencingRows table id
  let inc ← (refs.getD []).mapM (incoming table id)
  pure (out ++ inc.flatten)

/-! ## The row view -/

/-- `Screen::Browser` -/
structure Browser where
  table : String
  row : Nat
  col : Nat
  top : Nat
  filter : Option (String × Value)
  sort : Option (Nat × Bool)
  deriving DecidableEq, Repr

/-- `Screen::RowView` -/
structure RowView where
  table : String
  id : RowId
  sel : Nat
  deriving DecidableEq, Repr

/-- `enum Nav`, with the screens that can be pushed. -/
inductive Nav (S : Type) where
  | none
  | pop
  | push (s : S)
  | popToList
  deriving DecidableEq, Repr

/-- `dispatch` of the row view: Enter opens a browser on the entry under the
cursor. -/
def RowView.dispatch (v : RowView) (k : Ps2.Key) : Asking D (RowView × Nav Browser) := do
  let navs ← navTargets v.table v.id
  let sel := min v.sel (navs.length - 1)
  pure <| match k with
    | .esc => ({ v with sel }, .pop)
    | .up => ({ v with sel := sel - 1 }, .none)
    | .down => ({ v with sel := if sel + 1 < navs.length then sel + 1 else sel }, .none)
    | .enter => match navs[sel]? with
        | some (_, tbl, colname, val) =>
            ({ v with sel }, .push ⟨tbl, 0, 0, 0, some (colname, val), none⟩)
        | none => ({ v with sel }, .none)
    | _ => ({ v with sel }, .none)

end Views

end TablesOS
