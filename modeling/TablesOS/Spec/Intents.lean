import TablesOS.Kernel.Screens
import TablesOS.Spec.Database

/-!
# What a user has asked a browser for

A browser keeps the column it sorts by as a position and the one it filters by
as a name. What it was asked for is a column, whatever position and name that
column has later on: beside the stack of screens goes a stack of such intents,
which a rename renames in, a drop drops from, and nothing else touches until the
user chooses a sort again.
-/

namespace TablesOS

namespace Views

open Asking

/-! ## Intents -/

/-- The columns a browser was given to filter and to sort by, under the names they
have now. A column that was dropped is gone. -/
structure Intent where
  filter : Option String
  sort : Option String
  deriving DecidableEq, Repr

namespace Intent

/-- A screen as it is opened. -/
def opened : Screen → Intent
  | .browser b => ⟨b.filter.map (·.1), none⟩
  | _ => ⟨none, none⟩

/-- The columns of `table` followed through a call that the store has carried
out. -/
def follow (table : String) (op : Op RowId) (i : Intent) : Intent :=
  match op with
  | .renameColumn table' old new =>
      if table' = table then
        ⟨i.filter.map fun c => if c = old then new else c,
          i.sort.map fun c => if c = old then new else c⟩
      else i
  | .dropColumn table' col =>
      if table' = table then ⟨i.filter.filter (· ≠ col), i.sort.filter (· ≠ col)⟩ else i
  | _ => i

/-- The intent behind a screen after some calls, the last one first. -/
def followed (ops : List (Op RowId)) (scr : Screen) (i : Intent) : Intent :=
  match scr with
  | .browser b => ops.foldr (follow b.table) i
  | _ => i

/-- A sort that was changed is a column chosen. `column` tells the columns' names. -/
def chosen (column : String → Nat → Option String) (scr scr' : Screen) (i : Intent) : Intent :=
  match scr, scr' with
  | .browser b, .browser b' =>
      if b'.sort = b.sort then i
      else { i with sort := b'.sort.bind fun s => column b'.table s.1 }
  | _, _ => i

/-- The intent behind a screen that has become another. -/
def next (column : String → Nat → Option String) (ops : List (Op RowId)) (scr scr' : Screen)
    (i : Intent) : Intent :=
  chosen column scr scr' (followed ops scr i)

/-- The intents behind a stack that has become another: screens come and go at the
top. -/
def turned (column : String → Nat → Option String) (ops : List (Op RowId))
    (stack stack' : List Screen) (is : List Intent) : List Intent :=
  let gone := stack.length - stack'.length
  let come := stack'.length - stack.length
  (stack'.take come).map opened ++
    List.zipWith (fun p i => next column ops p.1 p.2 i)
      ((stack.drop gone).zip (stack'.drop come)) (is.drop gone)

end Intent

/-! ## Sessions -/

variable {D : Type} [BlockDevice D]

/-- The schema of a table as the store shows it. -/
def tableShown (pg : Pager D) (table : String) : Option Table :=
  match getTable table pg with
  | .ok (t, _) => t
  | _ => none

/-- The name of a column as the store shows it. -/
def columnShown (pg : Pager D) (table : String) (ci : Nat) : Option String :=
  (tableShown pg table).bind fun t => t.columns[ci]?.map (·.name)

/-- The UI at a moment, with what the user has asked for. -/
structure Session (D : Type) where
  desk : Desk
  store : Pager D
  intents : List Intent

/-- The UI as `run` starts it on a store. -/
def Session.start (pg : Pager D) : Session D := ⟨.start, pg, [⟨none, none⟩]⟩

/-- One event. -/
def Session.step (e : Ui.Event) (s : Session D) : Outcome Empty (Session D) := do
  let r ← Ui.handle e s.desk s.store
  let desk := r.1.2
  let ops := desk.carried.take (desk.carried.length - s.desk.carried.length)
  pure ⟨desk, r.2, Intent.turned (columnShown r.2) ops s.desk.stack desk.stack s.intents⟩

/-- Some events, one after the other. -/
def Session.run : List Ui.Event → Session D → Outcome Empty (Session D)
  | [], s => pure s
  | e :: es, s => s.step e >>= run es

/-! ## What may be expected -/

/-- Rows in the order of a column: those with a value first, the values ascending
or descending. -/
def OrderedBy (t : Table) (col : String) (asc : Bool) (rs : List (RowId × Row)) : Prop :=
  rs.Pairwise fun a b => ∀ y, t.cell b.2 col = some y →
    ∃ x, t.cell a.2 col = some x ∧ if asc then x.cmp y ≠ .gt else y.cmp x ≠ .gt

/-- The rows are those of the column asked for and in the order asked for. -/
structure Intent.Met (t : Table) (b : Browser) (i : Intent) (rs : List (RowId × Row)) : Prop where
  filter : ∀ col val, b.filter = some (col, val) →
    ∀ r ∈ rs, ∃ c, i.filter = some c ∧ t.cell r.2 c = some val
  sort : ∀ c, i.sort = some c → ∃ ci asc, b.sort = some (ci, asc) ∧ OrderedBy t c asc rs

/-! ## Edits underneath a browser -/

/-- The edit of columns that a key asks the store for. -/
def Session.asks (s : Session D) : Ui.Event → Option (Op RowId)
  | .key k _ => match s.desk.stack, k with
    | .schema sch :: _, .char c =>
        let n := (tableShown s.store sch.table).elim 0 (·.columns.length)
        let sel := min sch.sel (n - 1)
        (columnShown s.store sch.table sel).bind fun col =>
          if c = ',' ∧ 0 < sel then some (.moveColumn sch.table col (sel - 1))
          else if c = '.' ∧ sel + 1 < n then some (.moveColumn sch.table col (sel + 1))
          else none
    | .prompt p :: _, .enter => match p.action with
      | .renameColumn table old => some (.renameColumn table old (String.ofList p.buf))
      | _ => none
    | .confirm action :: _, .enter => match action with
      | .dropColumn table col => some (.dropColumn table col)
      | _ => none
    | _, _ => none
  | _ => none

/-- The edit leaves alone what the browser remembers: the position of the column
it sorts by, and the name of the one it filters by. -/
def Browser.Spared (t : Table) (b : Browser) (i : Intent) : Op RowId → Prop
  | .moveColumn table col new => table = b.table → i.sort ≠ none →
      ∀ ci asc, b.sort = some (ci, asc) → ∀ old, t.columnIndex col = some old →
        (Database.moved old new t.columns)[ci]? = t.columns[ci]?
  | .renameColumn table old new => table = b.table →
      ∀ c val, b.filter = some (c, val) → c = old → new = old
  | .dropColumn table col => table = b.table →
      (∀ c val, b.filter = some (c, val) → c ≠ col) ∧
        (i.sort ≠ none → ∀ ci asc, b.sort = some (ci, asc) →
          ∀ old, t.columnIndex col = some old → ci ≤ old)
  | _ => True

/-- An edit that is refused for what the schemas say: a name that is empty or
taken, a column that a foreign key is about. -/
def Session.Refuses (s : Session D) : Op RowId → Prop
  | .renameColumn table _ new => new = "" ∨
      ∃ t, tableShown s.store table = some t ∧ ∃ c ∈ t.columns, c.name = new
  | .dropColumn table col => ∃ o t, tableShown s.store o = some t ∧
      (o = table ∧ t.fks.any (·.fromCol == col) ∨ Store.targets t table col = true)
  | _ => False

/-- The event spares every browser on the stack, or its edit is refused; and the
commit counter has not come to its end. -/
structure Session.Spares (s : Session D) (e : Ui.Event) : Prop where
  counter : Store.generation s.store + 1 < 2 ^ 64
  edits : ∀ op, s.asks e = some op → ¬ s.Refuses op →
    ∀ b i, (.browser b, i) ∈ s.desk.stack.zip s.intents →
      ∀ t, tableShown s.store b.table = some t → b.Spared t i op

/-- The sessions that come from one by events that spare the browsers. -/
inductive Session.Reaches (s₀ : Session D) : Session D → Prop where
  | start : Reaches s₀ s₀
  | event {s s' : Session D} (h : Reaches s₀ s) (e : Ui.Event) (he : s.Spares e)
      (hstep : s.step e = .ok s') : Reaches s₀ s'

end Views

end TablesOS
