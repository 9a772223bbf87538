import TablesOS.Engine.Handle
import Mathlib.Data.List.InsertIdx

/-!
# The relational database the store stands for

No pages, no chains, no transactions: a database is a list of tables, a table
a schema and its rows in the order they were inserted, each under the id it was
given. An operation answers and gives the next database; one that fails gives
the same database back. Ids come from outside, one for each insert: all the
model asks of them is that a table never gives one out twice.

References are by name, as in the schema. Of a foreign key whose column is not
there the model says that it holds no value, so that the reading of a schema
never fails here; that no such key exists is a theorem about the operations.
-/

namespace TablesOS

/-- A table: its schema, its rows in insertion order, and every id it ever gave
out. -/
structure TableState (ι : Type) where
  schema : Table
  rows : List (ι × Row)
  issued : List ι

/-- The tables, in the order they were created. -/
abbrev Database (ι : Type) := List (TableState ι)

/-- The row ids an operation names are good ones for the table it names. -/
def Op.Uses {ι : Type} (good : String → ι → Prop) : Op ι → Prop
  | .update table id _ => good table id
  | .delete table id => good table id
  | .getRow table id => good table id
  | .followFk table id _ => good table id
  | .referencingRows table id => good table id
  | _ => True

/-- The operation may change the store. -/
def Op.writes {ι : Type} : Op ι → Bool
  | .listTables | .getTable _ | .scan _ | .getRow _ _ | .followFk _ _ _ | .referencingRows _ _ =>
      false
  | _ => true

/-- The cell of a row in the column of that name. -/
def Table.cell (t : Table) (row : Row) (col : String) : Option Value :=
  (t.columnIndex col).bind (Store.cellAt row)

namespace TableState

variable {ι : Type}

/-- Every cell of one column, in row order. -/
def values (t : TableState ι) (col : String) : List (Option Value) :=
  t.rows.map fun r => t.schema.cell r.2 col

/-- The table with its schema and its rows edited. -/
def edit (t : TableState ι) (schema : Table) (f : Row → Row) : TableState ι :=
  { t with schema, rows := t.rows.map fun r => (r.1, f r.2) }

end TableState

namespace Database

variable {ι : Type}

/-- The table of that name. -/
def lookup (db : Database ι) (name : String) : Except StoreError (TableState ι) :=
  match db.find? (·.schema.name == name) with
  | some t => .ok t
  | none => .error (.notFound ("table '" ++ name ++ "'"))

/-- The database with one table changed. -/
def replace (db : Database ι) (name : String) (f : TableState ι → TableState ι) :
    Database ι :=
  db.map fun t => if t.schema.name = name then f t else t

/-- The position of a column, or the error that names it. -/
def position (t : Table) (col shown : String) : Except StoreError Nat :=
  match t.columnIndex col with
  | some i => .ok i
  | none => .error (.notFound ("column '" ++ shown ++ "'"))

/-- Refuse with an error when the condition holds. -/
def refuse (c : Prop) [Decidable c] (e : StoreError) : Except StoreError Unit :=
  if c then .error e else .ok ()

/-- Refuse with the error of the first element that has one. -/
def refuseFirst {α : Type} (xs : List α) (e : α → Option StoreError) :
    Except StoreError Unit :=
  match xs.findSome? e with
  | some err => .error err
  | none => .ok ()

/-! ## Row constraints -/

/-- The error of a cell that its column does not admit. -/
def cellError (c : Column) : Option Value → Option StoreError
  | none => if c.nullable then none else some (.nullViolation c.name)
  | some v =>
      if v.typeOf = c.ty then none
      else some (.parse ("column '" ++ c.name ++ "' expects " ++ c.ty.name))

/-- The error of column `ci` if it is `UNIQUE` and another row has the value
that `cells` has there. The row `exclude` is not another row. -/
def uniqueError [DecidableEq ι] (rows : List (ι × Row)) (exclude : Option ι) (cells : Row)
    (c : Column × Nat) : Option StoreError :=
  if c.1.unique ∧ Store.cellAt cells c.2 ≠ none ∧
      ∃ r ∈ rows, some r.1 ≠ exclude ∧ Store.cellAt r.2 c.2 = Store.cellAt cells c.2 then
    some (.uniqueViolation c.1.name)
  else none

/-- The values a foreign key of `t` may take: those of the referenced column.
Where that is a column of `t` itself, row `exclude` counts with its new
cells. -/
def admitted [DecidableEq ι] (db : Database ι) (t : TableState ι) (exclude : Option ι)
    (cells : Row) (fk : ForeignKey) : List (Option Value) :=
  if fk.toTable = t.schema.name then
    t.rows.map fun r => t.schema.cell (if some r.1 = exclude then cells else r.2) fk.toCol
  else match db.lookup fk.toTable with
    | .ok target => target.values fk.toCol
    | .error _ => []

/-- The error of a foreign key whose value nothing has. -/
def fkError [DecidableEq ι] (db : Database ι) (t : TableState ι) (exclude : Option ι)
    (cells : Row) (fk : ForeignKey) : Option StoreError :=
  match t.schema.cell cells fk.fromCol with
  | none => none
  | some v =>
      if some v ∈ db.admitted t exclude cells fk then none
      else some (.foreignKeyViolation fk.name)

/-- Everything that is asked of a row before it is stored: its length, then
types and `NOT NULL`, then `UNIQUE`, then the foreign keys. -/
def validate [DecidableEq ι] (db : Database ι) (t : TableState ι) (cells : Row)
    (exclude : Option ι) : Except StoreError Unit := do
  refuse (cells.length ≠ t.schema.columns.length)
    (.parse ("row has " ++ toString cells.length ++ " cells, table has " ++
      toString t.schema.columns.length ++ " columns"))
  refuseFirst (t.schema.columns.zip cells) fun c => cellError c.1 c.2
  refuseFirst t.schema.columns.zipIdx (uniqueError t.rows exclude cells)
  refuseFirst t.schema.fks (fkError db t exclude cells)

/-- The error of a foreign key of table `o` that some row of it uses to refer
to `row`, which is row `id` of `t`, through a value that `kept` does not
excuse. -/
def restrictError [DecidableEq ι] (t : TableState ι) (id : ι) (row : Row)
    (kept : String → Value → Bool) (o : TableState ι) (fk : ForeignKey) :
    Option StoreError :=
  if fk.toTable ≠ t.schema.name then none else
  match t.schema.cell row fk.toCol with
  | none => none
  | some key =>
      if kept fk.toCol key = false ∧ ∃ r ∈ o.rows,
          ¬ (o.schema.name = t.schema.name ∧ r.1 = id) ∧
            o.schema.cell r.2 fk.fromCol = some key then
        some (.foreignKeyViolation fk.name)
      else none

/-- No other row may be left without the row it refers to. -/
def restrict [DecidableEq ι] (db : Database ι) (t : TableState ι) (id : ι) (row : Row)
    (kept : String → Value → Bool) : Except StoreError Unit :=
  refuseFirst db fun o => o.schema.fks.findSome? (restrictError t id row kept o)

/-- The row of that id. -/
def rowOf [DecidableEq ι] (t : TableState ι) (id : ι) : Except StoreError Row :=
  match t.rows.find? (·.1 == id) with
  | some r => .ok r.2
  | none => .error (.notFound "row (deleted)")

/-! ## The operations -/

def createTable (db : Database ι) (name : String) : Except StoreError (Database ι) := do
  refuse (name = "") (.schemaRejected "table name is empty")
  refuse (∃ t ∈ db, t.schema.name = name) (.duplicate ("table '" ++ name ++ "'"))
  pure (db ++ [⟨Table.new name, [], []⟩])

def dropTable (db : Database ι) (name : String) : Except StoreError (Database ι) := do
  let _ ← db.lookup name
  refuseFirst (db.filter (·.schema.name ≠ name)) fun o =>
    if o.schema.fks.any (·.toTable == name) then
      some (.schemaRejected ("table '" ++ name ++ "' is referenced by a foreign key in '" ++
        o.schema.name ++ "'"))
    else none
  pure (db.filter (·.schema.name ≠ name))

def addColumn (db : Database ι) (table : String) (col : Column) :
    Except StoreError (Database ι) := do
  let t ← db.lookup table
  refuse (col.nullable = false ∧ t.rows ≠ []) (.schemaRejected
    "table has rows; a new column must be nullable (existing rows receive NULL)")
  refuse ((t.schema.column col.name).isSome) (.duplicate ("column '" ++ col.name ++ "'"))
  pure (db.replace table fun t =>
    t.edit { t.schema with columns := t.schema.columns ++ [col] } (· ++ [none]))

/-- The first table with a foreign key to `table.col` makes the edit fail. -/
def notTarget (db : Database ι) (table col : String) (why : String → String) :
    Except StoreError Unit :=
  refuseFirst db fun o =>
    if Store.targets o.schema table col then some (.schemaRejected (why o.schema.name)) else none

def dropColumn (db : Database ι) (table col : String) : Except StoreError (Database ι) := do
  let t ← db.lookup table
  let idx ← position t.schema col col
  refuse (t.schema.fks.any (·.fromCol == col))
    (.schemaRejected ("column '" ++ col ++ "' carries a foreign key"))
  notTarget db table col fun o =>
    "column '" ++ col ++ "' is targeted by a foreign key in '" ++ o ++ "'"
  pure (db.replace table fun t => t.edit
    { t.schema with
      columns := t.schema.columns.eraseIdx idx
      refCols := t.schema.refCols.filter (· ≠ col) } (·.eraseIdx idx))

/-- Element `old` taken out and put back in at `new`. -/
def moved {α : Type} (old new : Nat) (xs : List α) : List α :=
  match xs[old]? with
  | some x => (xs.eraseIdx old).insertIdx new x
  | none => xs

theorem moved_of_lt {α : Type} {old new : Nat} {xs : List α} (h : old < xs.length) :
    moved old new xs = (xs.eraseIdx old).insertIdx new xs[old] := by
  rw [moved, List.getElem?_eq_getElem h]

@[simp] theorem moved_self {α : Type} (i : Nat) (xs : List α) : moved i i xs = xs := by
  by_cases h : i < xs.length
  · rw [moved_of_lt h, List.insertIdx_eraseIdx_getElem h]
  · rw [moved, List.getElem?_eq_none (by omega)]

theorem map_moved {α β : Type} (f : α → β) (old new : Nat) (xs : List α) :
    (moved old new xs).map f = moved old new (xs.map f) := by
  by_cases h : old < xs.length
  · rw [moved_of_lt h, moved_of_lt (by simpa using h), List.map_insertIdx, List.eraseIdx_map,
      List.getElem_map]
  · rw [moved, moved, List.getElem?_eq_none (by omega), List.getElem?_eq_none (by simp; omega)]

def moveColumn (db : Database ι) (table col : String) (newIndex : Nat) :
    Except StoreError (Database ι) := do
  let t ← db.lookup table
  let old ← position t.schema col col
  refuse (t.schema.columns.length ≤ newIndex)
    (.schemaRejected ("new column index " ++ toString newIndex ++ " out of range (0.." ++
      toString t.schema.columns.length ++ ")"))
  pure (db.replace table fun t =>
    t.edit { t.schema with columns := moved old newIndex t.schema.columns }
      (moved old newIndex))

/-- Every mention of the column in any schema; the rows are positional. -/
def renameColumn (db : Database ι) (table old new : String) :
    Except StoreError (Database ι) := do
  refuse (new = "") (.schemaRejected "column name is empty")
  if old = new then pure db else do
    let t ← db.lookup table
    refuse ((t.schema.column old).isNone) (.notFound ("column '" ++ old ++ "'"))
    refuse ((t.schema.column new).isSome) (.duplicate ("column '" ++ new ++ "'"))
    pure (db.map fun o =>
      { o with schema := Store.renameIn table old new (o.schema.name == table) o.schema })

/-- The column of that name changed. -/
def setColumn (db : Database ι) (table col : String) (f : Column → Column) : Database ι :=
  db.replace table fun t => { t with schema := { t.schema with
    columns := t.schema.columns.modify (t.schema.columns.findIdx (·.name == col)) f } }

def setUnique (db : Database ι) (table col : String) (unique : Bool) :
    Except StoreError (Database ι) := do
  let t ← db.lookup table
  let _ ← position t.schema col col
  if unique then
    refuse (¬ (t.values col).reduceOption.Nodup) (.schemaRejected ("column '" ++ col ++
      "' already contains duplicate values"))
  else
    notTarget db table col fun _ =>
      "'" ++ col ++ "' is a foreign-key target and must stay UNIQUE"
  pure (db.setColumn table col fun c => { c with unique })

/-- The column of that name, or the error that names it. -/
def columnOf (t : Table) (col shown : String) : Except StoreError Column :=
  match t.column col with
  | some c => .ok c
  | none => .error (.notFound ("column '" ++ shown ++ "'"))

/-- The first of `{from}_fk`, `{from}_fk2`, `{from}_fk3`, .. that is not taken.
One more candidate than there are names is enough. -/
def freeFkName (taken : List String) (fromCol : String) : String :=
  (((fromCol ++ "_fk") :: (List.range' 2 taken.length).map fun n =>
    fromCol ++ "_fk" ++ toString n).find? (· ∉ taken)).getD ""

def addFk (db : Database ι) (table fromCol toTable toCol : String) :
    Except StoreError (Database ι) := do
  let t ← db.lookup table
  let fc ← columnOf t.schema fromCol fromCol
  let target ← db.lookup toTable
  let tc ← columnOf target.schema toCol (toTable ++ "." ++ toCol)
  refuse (tc.unique = false) (.schemaRejected ("foreign-key target '" ++ toTable ++ "." ++
    toCol ++ "' must be UNIQUE"))
  refuse (fc.ty ≠ tc.ty) (.schemaRejected "foreign-key column and target must share a type")
  refuseFirst (t.values fromCol).reduceOption fun v =>
    if some v ∈ target.values toCol then none
    else some (.schemaRejected ("existing value " ++ v.display ++ " has no match in " ++
      toTable ++ "." ++ toCol))
  let name := freeFkName (t.schema.fks.map (·.name)) fromCol
  pure (db.replace table fun t => { t with schema := { t.schema with
    fks := t.schema.fks ++ [⟨name, fromCol, toTable, toCol⟩] } })

def dropFk (db : Database ι) (table fkName : String) : Except StoreError (Database ι) := do
  let t ← db.lookup table
  refuse (∀ fk ∈ t.schema.fks, fk.name ≠ fkName)
    (.notFound ("foreign key '" ++ fkName ++ "'"))
  pure (db.replace table fun t => { t with schema := { t.schema with
    fks := t.schema.fks.filter (·.name ≠ fkName) } })

/-- The error of a reference-column list at its first bad entry: a column that
is not there, or one that came before. -/
def refColError (t : Table) (cols : List String) (k : Nat) : Option StoreError :=
  match cols[k]? with
  | none => none
  | some c =>
      if (t.column c).isNone then some (.notFound ("column '" ++ c ++ "'"))
      else if c ∈ cols.take k then some (.duplicate ("reference column '" ++ c ++ "'"))
      else none

def setReferenceColumns (db : Database ι) (table : String) (cols : List String) :
    Except StoreError (Database ι) := do
  let t ← db.lookup table
  refuseFirst (List.range cols.length) (refColError t.schema cols)
  pure (db.replace table fun t => { t with schema := { t.schema with refCols := cols } })

def setDisplayWidth (db : Database ι) (table col : String) (width : Option UInt16) :
    Except StoreError (Database ι) := do
  let t ← db.lookup table
  let _ ← position t.schema col col
  pure (db.setColumn table col fun c => { c with displayWidth := width })

def insert [DecidableEq ι] (db : Database ι) (fresh : ι) (table : String) (cells : Row) :
    Except StoreError (Database ι) := do
  let t ← db.lookup table
  db.validate t cells none
  pure (db.replace table fun t =>
    { t with rows := t.rows ++ [(fresh, cells)], issued := t.issued ++ [fresh] })

def update [DecidableEq ι] (db : Database ι) (table : String) (id : ι) (cells : Row) :
    Except StoreError (Database ι) := do
  let t ← db.lookup table
  db.validate t cells (some id)
  let old ← rowOf t id
  db.restrict t id old fun col key => t.schema.cell cells col == some key
  pure (db.replace table fun t =>
    { t with rows := t.rows.map fun r => if r.1 = id then (id, cells) else r })

def delete [DecidableEq ι] (db : Database ι) (table : String) (id : ι) :
    Except StoreError (Database ι) := do
  let t ← db.lookup table
  let row ← rowOf t id
  db.restrict t id row fun _ _ => false
  pure (db.replace table fun t => { t with rows := t.rows.filter (·.1 ≠ id) })

def listTables (db : Database ι) : List TableInfo :=
  db.map fun t => ⟨t.schema.name, t.schema.columns.length, t.rows.length⟩

/-- The rows that the row `id` of `table` refers to by the key of that name. -/
def followFk [DecidableEq ι] (db : Database ι) (table : String) (id : ι) (fkName : String) :
    Except StoreError (String × List (ι × Row)) := do
  let t ← db.lookup table
  let fk ← match t.schema.fks.find? (·.name == fkName) with
    | some fk => .ok fk
    | none => .error (.notFound ("foreign key '" ++ fkName ++ "'"))
  let row ← rowOf t id
  match t.schema.cell row fk.fromCol with
  | none => pure (fk.toTable, [])
  | some key => do
      let target ← db.lookup fk.toTable
      pure (fk.toTable, target.rows.filter fun r =>
        target.schema.cell r.2 fk.toCol = some key)

/-- The rows of `o` that refer to `row` of `t` by the key `fk`. -/
def referencingBy (t : TableState ι) (row : Row) (o : TableState ι) (fk : ForeignKey) :
    List (String × String × ι × Row) :=
  if fk.toTable ≠ t.schema.name then [] else
  match t.schema.cell row fk.toCol with
  | none => []
  | some key => (o.rows.filter fun r => o.schema.cell r.2 fk.fromCol = some key).map fun r =>
      (o.schema.name, fk.name, r.1, r.2)

/-- Every row that refers to the row `id` of `table`. -/
def referencingRows [DecidableEq ι] (db : Database ι) (table : String) (id : ι) :
    Except StoreError (List (String × String × ι × Row)) := do
  let t ← db.lookup table
  let row ← rowOf t id
  pure (db.flatMap fun o => o.schema.fks.flatMap (referencingBy t row o))

/-- An edit: the database it gives, or the old one and the error. -/
def edited (db : Database ι) (reply : Reply ι) (r : Except StoreError (Database ι)) :
    Except StoreError (Reply ι) × Database ι :=
  match r with
  | .ok db' => (.ok reply, db')
  | .error e => (.error e, db)

/-- An answer: the database stays. -/
def answered {α : Type} (db : Database ι) (f : α → Reply ι) (r : Except StoreError α) :
    Except StoreError (Reply ι) × Database ι :=
  (f <$> r, db)

/-- One operation; `fresh` is the id an insert is to use. -/
def step [DecidableEq ι] (fresh : ι) (op : Op ι) (db : Database ι) :
    Except StoreError (Reply ι) × Database ι :=
  match op with
  | .createTable name => db.edited .done (db.createTable name)
  | .dropTable name => db.edited .done (db.dropTable name)
  | .addColumn table col => db.edited .done (db.addColumn table col)
  | .dropColumn table col => db.edited .done (db.dropColumn table col)
  | .moveColumn table col newIndex => db.edited .done (db.moveColumn table col newIndex)
  | .renameColumn table old new => db.edited .done (db.renameColumn table old new)
  | .setUnique table col unique => db.edited .done (db.setUnique table col unique)
  | .addFk table fromCol toTable toCol => db.edited .done (db.addFk table fromCol toTable toCol)
  | .dropFk table fkName => db.edited .done (db.dropFk table fkName)
  | .setReferenceColumns table cols => db.edited .done (db.setReferenceColumns table cols)
  | .setDisplayWidth table col width => db.edited .done (db.setDisplayWidth table col width)
  | .insert table cells => db.edited (.inserted fresh) (db.insert fresh table cells)
  | .update table id cells => db.edited .done (db.update table id cells)
  | .delete table id => db.edited .done (db.delete table id)
  | .listTables => db.answered .tables (.ok db.listTables)
  | .getTable name => db.answered .schema ((·.schema) <$> db.lookup name)
  | .scan name => db.answered .rows ((·.rows) <$> db.lookup name)
  | .getRow name id => db.answered .row (do rowOf (← db.lookup name) id)
  | .followFk table id fkName =>
      db.answered (fun r => .followed r.1 r.2) (db.followFk table id fkName)
  | .referencingRows table id => db.answered .referencing (db.referencingRows table id)

/-! ## Closed schemas and consistent rows -/

/-- A foreign key of table `t` that names what is there: its own column and,
in the table it points to, a `UNIQUE` column of the same type. -/
def FkClosed (db : Database ι) (t : Table) (fk : ForeignKey) : Prop :=
  ∃ c ∈ t.columns, c.name = fk.fromCol ∧ ∃ u ∈ db, u.schema.name = fk.toTable ∧
    ∃ d ∈ u.schema.columns, d.name = fk.toCol ∧ d.unique = true ∧ d.ty = c.ty

/-- Names are distinct and every reference by name leads somewhere. -/
structure Closed (db : Database ι) : Prop where
  names : (db.map (·.schema.name)).Nodup
  columns : ∀ t ∈ db, (t.schema.columns.map (·.name)).Nodup
  fkNames : ∀ t ∈ db, (t.schema.fks.map (·.name)).Nodup
  fks : ∀ t ∈ db, ∀ fk ∈ t.schema.fks, db.FkClosed t.schema fk
  refCols : ∀ t ∈ db, t.schema.refCols.Nodup ∧
    ∀ r ∈ t.schema.refCols, ∃ c ∈ t.schema.columns, c.name = r

/-- A row is stored under an id of its own, one that the table gave out, and
has a cell for every column. -/
structure Fitted (t : TableState ι) : Prop where
  issued : t.issued.Nodup
  rows : (t.rows.map (·.1)).Sublist t.issued
  arity : ∀ r ∈ t.rows, r.2.length = t.schema.columns.length

/-- Every row satisfies the constraints of the schema. -/
structure Consistent (db : Database ι) : Prop where
  types : ∀ t ∈ db, ∀ r ∈ t.rows, ∀ c ∈ t.schema.columns, ∀ v,
    t.schema.cell r.2 c.name = some v → v.typeOf = c.ty
  notNull : ∀ t ∈ db, ∀ r ∈ t.rows, ∀ c ∈ t.schema.columns, c.nullable = false →
    t.schema.cell r.2 c.name ≠ none
  unique : ∀ t ∈ db, ∀ c ∈ t.schema.columns, c.unique = true →
    t.rows.Pairwise fun r r' => t.schema.cell r.2 c.name ≠ none →
      t.schema.cell r.2 c.name ≠ t.schema.cell r'.2 c.name
  references : ∀ t ∈ db, ∀ fk ∈ t.schema.fks, ∀ r ∈ t.rows, ∀ v,
    t.schema.cell r.2 fk.fromCol = some v →
      ∃ u ∈ db, u.schema.name = fk.toTable ∧ some v ∈ u.values fk.toCol

end Database

end TablesOS
