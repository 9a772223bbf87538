import TablesOS.Engine.Store

/-!
# The store handle (`store.rs`)

`Store` is a pager, and a public operation is a call on it: the preliminary
reads, then either the answer or one transaction. `Op` lists the operations
and `run` carries one out, `runChecked` with the sum of the commit checked.
-/

namespace TablesOS

namespace Store

open Pager

variable {D : Type} [BlockDevice D] {α : Type}

/-- `Store::open` -/
def openStore : Fallible StoreError D (Pager D) := fun dev =>
  match mount dev with
  | (.ok pg, dev) => (.ok pg, dev)
  | (.error (.corrupt _), dev) => (.error (.corrupt "uninitialised"), dev)
  | (.error e, dev) => (.error e, dev)

/-- `Store::format` -/
def formatStore : Fallible StoreError D (Pager D) := Pager.format

/-- `tx`: commit on success, roll back on any error, also on an error of the
commit itself. The outcome of the rollback is ignored. -/
def tx (body : PageProg α) (pg : Pager D) : Outcome StoreError α × Pager D :=
  match runProg body pg with
  | (.ok r, pg) => match Pager.commit pg with
      | (.ok (), pg) => (.ok r, pg)
      | (.error e, pg) => (.err e, (rollback pg).2)
  | (.err e, pg) => (.err e, (rollback pg).2)
  | (.panic, pg) => (.panic, pg)
  | (.diverge, pg) => (.diverge, pg)

/-- `tx` as the kernel is built. -/
def txChecked (body : PageProg α) (pg : Pager D) : Outcome StoreError α × Pager D :=
  match runProg body pg with
  | (.ok r, pg) => match commitChecked pg with
      | (.ok (), pg) => (.ok r, pg)
      | (.err e, pg) => (.err e, (rollback pg).2)
      | (.panic, pg) => (.panic, pg)
      | (.diverge, pg) => (.diverge, pg)
  | (.err e, pg) => (.err e, (rollback pg).2)
  | (.panic, pg) => (.panic, pg)
  | (.diverge, pg) => (.diverge, pg)

/-- A public operation on the handle. -/
def call (m : PageQuery (Call α)) (pg : Pager D) : Outcome StoreError α × Pager D :=
  match runProg (Prog.ofQuery m) pg with
  | (.ok (.ret a), pg) => (.ok a, pg)
  | (.ok (.tx body), pg) => tx body pg
  | (.err e, pg) => (.err e, pg)
  | (.panic, pg) => (.panic, pg)
  | (.diverge, pg) => (.diverge, pg)

/-- `call` as the kernel is built. -/
def callChecked (m : PageQuery (Call α)) (pg : Pager D) : Outcome StoreError α × Pager D :=
  match runProg (Prog.ofQuery m) pg with
  | (.ok (.ret a), pg) => (.ok a, pg)
  | (.ok (.tx body), pg) => txChecked body pg
  | (.err e, pg) => (.err e, pg)
  | (.panic, pg) => (.panic, pg)
  | (.diverge, pg) => (.diverge, pg)

/-- `sync` -/
def sync : PagerM D Unit := onDev BlockDevice.flush

/-- `generation` -/
def generation (pg : Pager D) : Nat := pg.sb.generation

end Store

/-- The public operations on a store whose rows are named by `ι`. -/
inductive Op (ι : Type) where
  | createTable (name : String)
  | dropTable (name : String)
  | addColumn (table : String) (col : Column)
  | dropColumn (table col : String)
  | moveColumn (table col : String) (newIndex : Nat)
  | renameColumn (table old new : String)
  | setUnique (table col : String) (unique : Bool)
  | addFk (table fromCol toTable toCol : String)
  | dropFk (table fkName : String)
  | setReferenceColumns (table : String) (cols : List String)
  | setDisplayWidth (table col : String) (width : Option UInt16)
  | insert (table : String) (cells : Row)
  | update (table : String) (id : ι) (cells : Row)
  | delete (table : String) (id : ι)
  | listTables
  | getTable (name : String)
  | scan (name : String)
  | getRow (name : String) (id : ι)
  | followFk (table : String) (id : ι) (fkName : String)
  | referencingRows (table : String) (id : ι)

/-- What the operations answer. -/
inductive Reply (ι : Type) where
  | done
  | inserted (id : ι)
  | tables (infos : List TableInfo)
  | schema (t : Table)
  | rows (rows : List (ι × Row))
  | row (row : Row)
  | followed (table : String) (rows : List (ι × Row))
  | referencing (rows : List (String × String × ι × Row))

namespace Store

open Pager

variable {D : Type} [BlockDevice D] {α : Type}

/-- The same operation with its answer as a `Reply`. -/
def Call.map {β : Type} (f : α → β) : Call α → Call β
  | .ret a => .ret (f a)
  | .tx body => .tx (f <$> body)

/-- A reading operation: its queries are all of it. -/
def answer (f : α → Reply RowId) (q : PageQuery α) : PageQuery (Call (Reply RowId)) := do
  let a ← q
  pure (.ret (f a))

/-- An operation that answers `()`. -/
def silent (m : PageQuery (Call Unit)) : PageQuery (Call (Reply RowId)) := do
  let c ← m
  pure (c.map fun _ => .done)

/-- The program of each operation. -/
def method : Op RowId → PageQuery (Call (Reply RowId))
  | .createTable name => silent (createTable name)
  | .dropTable name => silent (dropTable name)
  | .addColumn table col => silent (addColumn table col)
  | .dropColumn table col => silent (dropColumn table col)
  | .moveColumn table col newIndex => silent (moveColumn table col newIndex)
  | .renameColumn table old new => silent (renameColumn table old new)
  | .setUnique table col unique => silent (setUnique table col unique)
  | .addFk table fromCol toTable toCol => silent (addFk table fromCol toTable toCol)
  | .dropFk table fkName => silent (dropFk table fkName)
  | .setReferenceColumns table cols => silent (setReferenceColumns table cols)
  | .setDisplayWidth table col width => silent (setDisplayWidth table col width)
  | .insert table cells => do
      let c ← insert table cells
      pure (c.map .inserted)
  | .update table id cells => silent (update table id cells)
  | .delete table id => silent (delete table id)
  | .listTables => answer .tables listTables
  | .getTable name => answer .schema (getTable name)
  | .scan name => answer .rows (scan name)
  | .getRow name id => answer .row (getRow name id)
  | .followFk table id fkName => answer (fun r => .followed r.1 r.2) (followFk table id fkName)
  | .referencingRows table id => answer .referencing (referencingRows table id)

/-- One operation on the handle. -/
def run (op : Op RowId) (pg : Pager D) : Outcome StoreError (Reply RowId) × Pager D :=
  call (method op) pg

/-- One operation on the handle as the kernel is built. -/
def runChecked (op : Op RowId) (pg : Pager D) : Outcome StoreError (Reply RowId) × Pager D :=
  callChecked (method op) pg

end Store

end TablesOS
