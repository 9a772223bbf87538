import TablesOS.Kernel.Fields

/-!
# The screens that work on the store (`ui.rs`)

A stack of screens, of which the topmost gets the keys. A key is a few calls on
the store and a change of the stack; the call that changes the store, where
there is one, is the last but for the reads behind an error message. The screens
about the machine (drives, buses, the installer, the licences) are one screen
here: they lie above the table list, hold no rows, and leave the store alone.
-/

namespace TablesOS

namespace Views

open Asking

/-! ## Screens -/

/-- `enum Action`, as far as the store goes. -/
inductive Action where
  | createTable
  | shutdown
  | deleteRow (table : String) (id : RowId)
  | dropTable (table : String)
  | dropColumn (table col : String)
  | dropFk (table : String)
  | addColPickType (table col : String)
  | renameColumn (table col : String)
  | setDisplayWidth (table col : String)
  | addFkPickFrom (table : String)
  | addFkPickToTable (table fromCol : String)
  | addFkPickToCol (table fromCol toTable : String)
  deriving DecidableEq, Repr

/-- `Screen::Schema` -/
structure Schema where
  table : String
  sel : Nat
  deriving DecidableEq, Repr

/-- `Screen::RefCols` -/
structure RefCols where
  table : String
  order : List String
  sel : Nat
  deriving DecidableEq, Repr

/-- `Screen::Prompt` -/
structure Prompt where
  buf : Chars
  caret : Nat
  action : Action
  deriving DecidableEq, Repr

/-- `Screen::Pick` -/
structure Pick where
  options : List String
  sel : Nat
  action : Action
  deriving DecidableEq, Repr

/-- `Screen::FkPick` -/
structure FkPick where
  fieldIdx : Nat
  toTable : String
  toCol : String
  rows : List (RowId × String)
  sel : Nat
  top : Nat
  deriving DecidableEq, Repr

/-- `enum Screen` -/
inductive Screen where
  | list (sel : Nat)
  | browser (b : Browser)
  | rowView (v : RowView)
  | editor (ed : Editor)
  | builder (b : FieldBuilder)
  | schema (s : Schema)
  | refCols (r : RefCols)
  | prompt (p : Prompt)
  | pick (p : Pick)
  | confirm (action : Action)
  | fkPick (p : FkPick)
  /-- A screen about the machine. -/
  | machine
  deriving DecidableEq, Repr

/-- The table list. -/
def Screen.isList : Screen → Bool
  | .list _ => true
  | _ => false

/-- `struct App`, as far as the store goes. -/
structure Desk where
  /-- The top screen first. -/
  stack : List Screen
  rowCache : Option RowCache
  /-- The calls on the store that changed it or might have, and came back with
  `Ok`, the last one first. The source keeps no such list. -/
  carried : List (Op RowId)

/-- The app that `run` starts with. -/
def Desk.start : Desk := ⟨[.list 0], none, []⟩

/-- What a key press finds around it. -/
structure Around where
  /-- `visible_rows()` -/
  vis : Nat
  /-- `rtc::now()` -/
  now : Option Rtc
  /-- There is a drive to install on. -/
  targets : Bool
  /-- What a screen about the machine makes of the key. -/
  machine : Nav Unit

/-- A screen at work on the store and on the stack. -/
abbrev Ui (D : Type) := StateT Desk (Asking D)

namespace Ui

variable {D : Type} [BlockDevice D]

/-- Reads on the store. -/
def onStore {α : Type} (m : Asking D α) : Ui D α := StateT.lift m

/-- A call on the store that may change it. -/
def carry (op : Op RowId) : Ui D (Except StoreError (Reply RowId)) := do
  let r ← onStore (ask op)
  match r with
  | .ok _ => modify fun desk => { desk with carried := op :: desk.carried }
  | .error _ => pure ()
  pure r

/-- `cached_rows` -/
def cached (table : String) (filter : Option (String × Value)) (sort : Option (Nat × Bool)) :
    Ui D (List (RowId × Row)) := do
  let desk ← get
  let cache ← onStore (cachedRows table filter sort desk.rowCache)
  set { desk with rowCache := some cache }
  pure cache.rows

/-- `push` -/
def push (scr : Screen) : Ui D Unit :=
  modify fun desk => { desk with stack := scr :: desk.stack }

/-- `pop`: the last screen stays. -/
def pop : Ui D Unit :=
  modify fun desk =>
    { desk with stack := if 1 < desk.stack.length then desk.stack.tail else desk.stack }

/-- `*self.top() = ..` -/
def setTop (scr : Screen) : Ui D Unit :=
  modify fun desk => { desk with stack := scr :: desk.stack.tail }

/-- Popping until the table list is on top. -/
def popToList : Ui D Unit :=
  modify fun desk => { desk with stack := desk.stack.dropWhile fun scr => !scr.isList }

/-- `match nav` of `on_key` -/
def navigate : Nav Screen → Ui D Unit
  | .none => pure ()
  | .pop => pop
  | .push scr => push scr
  | .popToList => popToList

/-! ## The table list -/

/-- `self.store.list_tables().unwrap_or_default()`, by names. -/
def tableNames : Ui D (List String) := do
  match ← onStore (ask .listTables) with
  | .ok (.tables infos) => pure (infos.map (·.name))
  | _ => pure []

/-- What a letter on the table list opens. -/
def listLetter (a : Around) (c : Char) : Nav Screen :=
  if c = 'c' ∨ c = 'C' then .push (.prompt ⟨[], 0, .createTable⟩)
  else if c = 's' ∨ c = 'S' then .push (.confirm .shutdown)
  else if c ∈ ['d', 'D', 'p', 'P', 'a', 'A'] then .push .machine
  else if (c = 'n' ∨ c = 'N') ∧ a.targets then .push .machine
  else .none

/-- `dispatch` of the table list -/
def listKey (a : Around) (sel : Nat) (k : Ps2.Key) : Ui D (Nat × Nav Screen) := do
  let tables ← tableNames
  let sel := min sel (tables.length - 1)
  pure <| match k with
    | .up => (sel - 1, .none)
    | .down => (if sel + 1 < tables.length then sel + 1 else sel, .none)
    | .enter => match tables[sel]? with
        | some t => (sel, .push (.browser ⟨t, 0, 0, 0, none, none⟩))
        | none => (sel, .none)
    | .char c => (sel, listLetter a c)
    | _ => (sel, .none)

/-! ## The browser -/

/-- The sort after `[o]`: the next one on the column under the cursor. -/
def nextSort (col : Nat) : Option (Nat × Bool) → Option (Nat × Bool)
  | some (c, asc) => if c = col then (if asc then some (col, false) else none) else some (col, true)
  | none => some (col, true)

/-- `[o]`: the cursor stays on its row. -/
def order (b : Browser) : Ui D Browser := do
  let rs ← cached b.table b.filter b.sort
  let sort := nextSort b.col b.sort
  match rs[b.row]? with
  | none => pure { b with sort }
  | some (id, _) => do
      let rs ← cached b.table b.filter sort
      pure { b with sort, row := (rs.findIdx? fun r => r.1 = id).getD b.row }

/-- The row under the cursor. -/
def rowUnder (b : Browser) : Ui D RowId := do
  let rs ← cached b.table b.filter b.sort
  let r ← onStore (indexed rs[b.row]?)
  pure r.1

/-- `open_editor`, as a step. -/
def openEditorOn (table : String) (id : Option RowId) : Ui D (Nav Screen) := do
  let ed ← onStore (openEditor table id)
  pure (ed.elim .none fun ed => .push (.editor ed))

/-- A letter on the browser. -/
def browserLetter (b : Browser) (nrows ncols : Nat) (c : Char) : Ui D (Browser × Nav Screen) := do
  if c = 'o' ∧ 0 < ncols then do
    let b ← order b
    pure (b, .none)
  else if c = 'i' then do
    let nav ← openEditorOn b.table none
    pure (b, nav)
  else if c = 'u' ∧ 0 < nrows then do
    let id ← rowUnder b
    let nav ← openEditorOn b.table (some id)
    pure (b, nav)
  else if c = 'd' ∧ 0 < nrows then do
    let id ← rowUnder b
    pure (b, .push (.confirm (.deleteRow b.table id)))
  else if c = 's' then
    pure (b, .push (.schema ⟨b.table, 0⟩))
  else pure (b, .none)

/-- The keys of the browser, its cursor within the rows and columns. -/
def browserHandle (vis : Nat) (b : Browser) (nrows ncols : Nat) (k : Ps2.Key) :
    Ui D (Browser × Nav Screen) :=
  match k with
  | .up => pure ({ b with row := b.row - 1 }, .none)
  | .down => pure ({ b with row := if b.row + 1 < nrows then b.row + 1 else b.row }, .none)
  | .left => pure ({ b with col := b.col - 1 }, .none)
  | .right => pure ({ b with col := if b.col + 1 < ncols then b.col + 1 else b.col }, .none)
  | .pageUp => pure ({ b with row := b.row - vis }, .none)
  | .pageDown => pure ({ b with row := min (b.row + vis) (nrows - 1) }, .none)
  | .esc => pure (b, .pop)
  | .enter =>
      if 0 < nrows then do
        let id ← rowUnder b
        pure (b, .push (.rowView ⟨b.table, id, 0⟩))
      else pure (b, .none)
  | .char c => browserLetter b nrows ncols c
  | _ => pure (b, .none)

/-- The viewport moved so that it shows the cursor. -/
def scrolled (vis : Nat) (b : Browser) : Browser :=
  let top := min b.top b.row
  { b with top := if top + vis ≤ b.row then b.row + 1 - vis else top }

/-- `dispatch` of the browser -/
def browserKey (vis : Nat) (b : Browser) (k : Ps2.Key) : Ui D (Browser × Nav Screen) := do
  let t ← onStore (getTable b.table)
  let ncols := t.elim 0 (·.columns.length)
  let rs ← cached b.table b.filter b.sort
  let b := { b with row := min b.row (rs.length - 1), col := min b.col (ncols - 1) }
  let (b, nav) ← browserHandle vis b rs.length ncols k
  pure (scrolled vis b, nav)

/-! ## The schema -/

/-- `move_column` to the place `new`, and the cursor after it. -/
def moveTo (s : Schema) (c : Column) (new : Nat) : Ui D Schema := do
  match ← carry (.moveColumn s.table c.name new) with
  | .ok _ => pure { s with sel := new }
  | .error _ => pure s

/-- The prompt for a column's width. -/
def widthPrompt (table : String) (c : Column) : Prompt :=
  let buf := c.displayWidth.elim [] fun w => Nat.toDigits 10 w.toNat
  ⟨buf, buf.length, .setDisplayWidth table c.name⟩

/-- The letters that act on the column under the cursor, of `n` columns. -/
def schemaColumn (s : Schema) (n : Nat) (col : Column) (c : Char) : Ui D (Schema × Nav Screen) := do
  if c = 'x' then
    pure (s, .push (.confirm (.dropColumn s.table col.name)))
  else if c = 'r' then
    pure (s, .push (.prompt ⟨col.name.toList, col.name.length, .renameColumn s.table col.name⟩))
  else if c = 'w' then
    pure (s, .push (.prompt (widthPrompt s.table col)))
  else if c = 'u' then do
    let _ ← carry (.setUnique s.table col.name (!col.unique))
    pure (s, .none)
  else if c = ',' ∧ 2 ≤ n ∧ 0 < s.sel then do
    let s ← moveTo s col (s.sel - 1)
    pure (s, .none)
  else if c = '.' ∧ 2 ≤ n ∧ s.sel + 1 < n then do
    let s ← moveTo s col (s.sel + 1)
    pure (s, .none)
  else pure (s, .none)

/-- A letter on the schema screen. -/
def schemaLetter (s : Schema) (t : Option Table) (c : Char) : Ui D (Schema × Nav Screen) :=
  if c = 'a' then
    pure (s, .push (.prompt ⟨[], 0, .addColPickType s.table ""⟩))
  else if c = 'k' then do
    let t ← onStore (getTable s.table)
    pure (s, .push (.pick ⟨t.elim [] fun t => t.columns.map (·.name), 0, .addFkPickFrom s.table⟩))
  else if c = 'K' then
    let fks := t.elim [] fun t => t.fks.map (·.name)
    pure (s, if fks = [] then .none else .push (.pick ⟨fks, 0, .dropFk s.table⟩))
  else if c = 'D' then
    pure (s, .push (.confirm (.dropTable s.table)))
  else if c = 'R' then
    pure (s, .push (.refCols ⟨s.table, t.elim [] (·.refCols), 0⟩))
  else match t.bind fun t => t.columns[s.sel]? with
    | some col => schemaColumn s (t.elim 0 (·.columns.length)) col c
    | none => pure (s, .none)

/-- `dispatch` of the schema screen -/
def schemaKey (s : Schema) (k : Ps2.Key) : Ui D (Schema × Nav Screen) := do
  let t ← onStore (getTable s.table)
  let n := t.elim 0 (·.columns.length)
  let s := { s with sel := min s.sel (n - 1) }
  match k with
  | .esc => pure (s, .pop)
  | .up => pure ({ s with sel := s.sel - 1 }, .none)
  | .down => pure ({ s with sel := if s.sel + 1 < n then s.sel + 1 else s.sel }, .none)
  | .char c => schemaLetter s t c
  | _ => pure (s, .none)

/-! ## Reference columns -/

/-- The column in the label, or no longer. -/
def toggled (order : List String) (name : String) : List String :=
  match order.idxOf? name with
  | some p => order.eraseIdx p
  | none => order ++ [name]

/-- `order.swap(p, q)` -/
def swapped (order : List String) (p q : Nat) : List String :=
  match order[p]?, order[q]? with
  | some x, some y => (order.set p y).set q x
  | _, _ => order

/-- The label order after a key, where it changes. -/
def reordered (r : RefCols) (cols : List String) (k : Ps2.Key) : Option (List String) :=
  match k, cols[r.sel]? with
  | .enter, some name => some (toggled r.order name)
  | .char ' ', some name => some (toggled r.order name)
  | .char ',', some name => (r.order.idxOf? name).bind fun p =>
      if 0 < p then some (swapped r.order p (p - 1)) else none
  | .char '.', some name => (r.order.idxOf? name).bind fun p =>
      if p + 1 < r.order.length then some (swapped r.order p (p + 1)) else none
  | .char 'c', _ => if r.order = [] then none else some []
  | _, _ => none

/-- `dispatch` of the reference columns -/
def refColsKey (r : RefCols) (k : Ps2.Key) : Ui D (RefCols × Nav Screen) := do
  let t ← onStore (getTable r.table)
  let cols := t.elim [] fun t => t.columns.map (·.name)
  let r := if 0 < cols.length then { r with sel := min r.sel (cols.length - 1) } else r
  match k with
  | .esc => pure (r, .pop)
  | .up => pure ({ r with sel := r.sel - 1 }, .none)
  | .down => pure ({ r with sel := if r.sel + 1 < cols.length then r.sel + 1 else r.sel }, .none)
  | k => match reordered r cols k with
    | none => pure (r, .none)
    | some order => do
        let _ ← carry (.setReferenceColumns r.table order)
        pure ({ r with order }, .none)

/-! ## The picker of a foreign key -/

/-- The first editor from the top. -/
def findEditor : List Screen → Option Editor
  | [] => none
  | .editor ed :: _ => some ed
  | _ :: rest => findEditor rest

/-- The first editor from the top, replaced. -/
def putEditor (ed : Editor) : List Screen → List Screen
  | [] => []
  | .editor _ :: rest => .editor ed :: rest
  | scr :: rest => scr :: putEditor ed rest

/-- The end of `fk_select`: the value goes into the editor below the picker. -/
def fill (fi : Nat) (v : Value) : Ui D Bool := do
  let desk ← get
  match findEditor desk.stack with
  | some ed =>
      if fi < ed.fields.length then do
        let fields := ed.fields.modify fi fun _ => ⟨v.display, v.display.length, false⟩
        set { desk with
          stack := putEditor { ed with fields, error := none, focus := fi } desk.stack }
        pure true
      else pure false
  | none => pure false

/-- `fk_select` -/
def fkSelect (p : FkPick) (id : RowId) : Ui D Bool := do
  let t ← onStore (getTable p.toTable)
  match t.bind (·.columnIndex p.toCol) with
  | none => pure false
  | some ci => do
      let row ← onStore (getRow p.toTable id)
      match row.bind (Store.cellAt · ci) with
      | some v => fill p.fieldIdx v
      | none => pure false

/-- `dispatch` of the picker -/
def fkPickKey (vis : Nat) (p : FkPick) (k : Ps2.Key) : Ui D (FkPick × Nav Screen) := do
  let n := p.rows.length
  let visible := max vis 1
  let p := if n ≤ p.sel then { p with sel := n - 1 } else p
  match k with
  | .esc => pure (p, .pop)
  | .up =>
      if 0 < p.sel then pure ({ p with sel := p.sel - 1, top := min p.top (p.sel - 1) }, .none)
      else pure (p, .none)
  | .down =>
      if p.sel + 1 < n then
        pure ({ p with sel := p.sel + 1, top :=
          if p.top + visible ≤ p.sel + 1 then p.sel + 1 - visible + 1 else p.top }, .none)
      else pure (p, .none)
  | .pageUp => pure ({ p with sel := p.sel - visible, top := p.top - visible }, .none)
  | .pageDown => pure ({ p with
      sel := min (p.sel + visible) (n - 1), top := min (p.top + visible) (n - visible) }, .none)
  | .enter => match p.rows[p.sel]? with
    | some (id, _) => do
        let done ← fkSelect p id
        pure (p, if done then .pop else .none)
    | none => pure (p, .none)
  | _ => pure (p, .none)

/-! ## Prompts, pickers, confirmations -/

/-- Unicode `White_Space` -/
def whiteSpace (c : Char) : Bool :=
  (9 ≤ c.toNat ∧ c.toNat ≤ 13) ∨ (0x2000 ≤ c.toNat ∧ c.toNat ≤ 0x200A) ∨
    c.toNat ∈ [0x20, 0x85, 0xA0, 0x1680, 0x2028, 0x2029, 0x202F, 0x205F, 0x3000]

/-- `str::trim` -/
def trim (s : Chars) : Chars := ((s.dropWhile whiteSpace).reverse.dropWhile whiteSpace).reverse

/-- `str::parse::<u32>().ok()`: digits, with a plus sign perhaps. -/
def parseU32 (s : Chars) : Option Nat :=
  let digits := if s.head? = some '+' then s.tail else s
  if digits ≠ [] ∧ digits.all Char.isDigit then
    let v := digits.foldl (fun acc c => acc * 10 + (c.toNat - 48)) 0
    if v < 2 ^ 32 then some v else none
  else none

/-- The width that a text asks for: nothing for a blank one. -/
def askedWidth (text : Chars) : Option (Option UInt16) :=
  if trim text = [] then some none
  else (parseU32 (trim text)).map fun w => some (UInt16.ofNat (max 1 (min w 120)))

/-- `resolve_prompt` -/
def resolvePrompt (action : Action) (text : Chars) : Ui D Unit := do
  let name := String.ofList text
  match action with
  | .createTable => do
      match ← carry (.createTable name) with
      | .ok _ => push (.schema ⟨name, 0⟩)
      | .error _ => pure ()
  | .addColPickType table _ =>
      if text = [] then pure ()
      else push (.pick ⟨Ty.all.map Ty.name, 0, .addColPickType table name⟩)
  | .renameColumn table old =>
      if text = [] then pure ()
      else do
        let _ ← carry (.renameColumn table old name)
        pure ()
  | .setDisplayWidth table col => match askedWidth text with
    | some width => do
        let _ ← carry (.setDisplayWidth table col width)
        pure ()
    | none => pure ()
  | _ => pure ()

/-- The prompt after a key that edits its text. -/
def Prompt.typed (p : Prompt) : Ps2.Key → Prompt
  | .left => { p with caret := ceLeft p.buf p.caret }
  | .right => { p with caret := ceRight p.buf p.caret }
  | .home => { p with caret := 0 }
  | .endKey => { p with caret := p.buf.length }
  | .backspace => { p with
      buf := (ceBackspace p.buf p.caret).1, caret := (ceBackspace p.buf p.caret).2 }
  | .delete => { p with buf := (ceDelete p.buf p.caret).1, caret := (ceDelete p.buf p.caret).2 }
  | .char c => { p with buf := (ceInsert p.buf p.caret c).1, caret := (ceInsert p.buf p.caret c).2 }
  | _ => p

/-- `key_prompt` -/
def promptKey (p : Prompt) (k : Ps2.Key) : Ui D Unit :=
  match k with
  | .esc => pop
  | .enter => do
      pop
      resolvePrompt p.action p.buf
  | k => setTop (.prompt (Prompt.typed p k))

/-- `Type::from_name` -/
def typeOfName (name : String) : Option Ty := Ty.all.find? fun ty => ty.name = name

/-- The `UNIQUE` columns of a table. -/
def uniqueColumns (table : String) : Ui D (List String) := do
  let t ← onStore (getTable table)
  pure (t.elim [] fun t => (t.columns.filter (·.unique)).map (·.name))

/-- `resolve_pick` -/
def resolvePick (action : Action) (choice : String) : Ui D Unit :=
  match action with
  | .addColPickType table name => do
      let ty := (typeOfName choice).getD .string
      let _ ← carry (.addColumn table ⟨name, ty, true, false, none⟩)
      pure ()
  | .addFkPickFrom table => do
      let tables ← tableNames
      push (.pick ⟨tables, 0, .addFkPickToTable table choice⟩)
  | .addFkPickToTable table fromCol => do
      let cols ← uniqueColumns choice
      if cols = [] then pure ()
      else push (.pick ⟨cols, 0, .addFkPickToCol table fromCol choice⟩)
  | .addFkPickToCol table fromCol toTable => do
      let _ ← carry (.addFk table fromCol toTable choice)
      pure ()
  | .dropFk table => do
      let _ ← carry (.dropFk table choice)
      pure ()
  | _ => pure ()

/-- `key_pick` -/
def pickKey (p : Pick) (k : Ps2.Key) : Ui D Unit :=
  match k with
  | .esc => pop
  | .up => setTop (.pick { p with sel := p.sel - 1 })
  | .down => setTop (.pick { p with
      sel := if p.sel + 1 < p.options.length then p.sel + 1 else p.sel })
  | .enter =>
      if p.options = [] then pure ()
      else do
        let choice ← onStore (indexed p.options[p.sel]?)
        pop
        resolvePick p.action choice
  | _ => pure ()

/-- `shutdown` does not come back. -/
def shutdown : Ui D Unit := fun _ _ => .diverge

/-- `resolve_confirm` -/
def resolveConfirm (action : Action) : Ui D Unit :=
  match action with
  | .shutdown => shutdown
  | .deleteRow table id => do
      let _ ← carry (.delete table id)
      pure ()
  | .dropTable table => do
      match ← carry (.dropTable table) with
      | .ok _ => popToList
      | .error _ => pure ()
  | .dropColumn table col => do
      let _ ← carry (.dropColumn table col)
      pure ()
  | _ => pure ()

/-- `key_confirm` -/
def confirmKey (action : Action) (k : Ps2.Key) : Ui D Unit :=
  match k with
  | .esc => pop
  | .enter => do
      pop
      resolveConfirm action
  | _ => pure ()

/-! ## The editor and the builder -/

/-- `open_fk_picker` -/
def openFkPicker (fi : Nat) (toTable toCol : String) : Ui D Unit := do
  match ← onStore (scan toTable) with
  | none => pure ()
  | some rows => do
      match ← onStore (getTable toTable) with
      | none => pure ()
      | some schema =>
          if rows = [] then pure ()
          else push (.fkPick ⟨fi, toTable, toCol,
            rows.map fun r => (r.1, schema.referenceLabel r.2), 0, 0⟩)

/-- What `open_builder` opens, put on the stack. -/
def openPushed : Opened → Ui D Unit
  | .builder b => push (.builder b)
  | .fkPicker fi _ toTable toCol => openFkPicker fi toTable toCol

/-- `commit_editor` on the stack, with its call on the store. -/
def commit (ed : Editor) : Ui D Unit :=
  match cellsOf 0 ed.cols ed.fields with
  | .ok cells => do
      let res ← carry (saveOp ed cells)
      match ← onStore (saved { ed with error := none } res) with
      | none => pop
      | some ed => setTop (.editor ed)
  | .err at_ => setTop (.editor { ed with error := some at_ })
  | _ => fun _ _ => .panic

/-- `key_editor` -/
def editorKey (ed : Editor) (k : Ps2.Key) : Ui D Unit :=
  match ed.key k with
  | (_, .cancel) => pop
  | (ed, .commit) => commit ed
  | (ed, .parts fi) => do
      let opened ← onStore (openBuilder ed fi)
      openPushed opened
  | (ed, _) => setTop (.editor ed)

/-- The builder accepted: its value goes into the editor below. -/
def accept (b : FieldBuilder) : Ui D Unit := do
  let desk ← get
  match desk.stack.tail with
  | .editor ed :: _ => match commitBuilder b ed with
    | .ok ed => do
        pop
        setTop (.editor ed)
    | .error b => setTop (.builder b)
  | _ => match Value.parse b.ty b.compose with
    | .ok _ => pop
    | .error e => setTop (.builder { b with error := some e })

/-- `key_builder` -/
def builderKey (now : Option Rtc) (b : FieldBuilder) (k : Ps2.Key) : Ui D Unit :=
  match b.key k with
  | (_, .cancel) => pop
  | (b, .now) => setTop (.builder (now.elim b fun n => { b.fillNow n with error := none }))
  | (b, .next) =>
      setTop (.builder (b.nextValue.elim b fun t => { b.fillNext t with error := none }))
  | (b, .commit) => accept b
  | (b, _) => setTop (.builder b)

/-! ## Keys and clicks -/

/-- A screen handed back to the top, and then the move. -/
def back (scr : Screen) (nav : Nav Screen) : Ui D Unit := do
  setTop scr
  navigate nav

/-- What a row view opens is a browser. -/
def opening : Nav Browser → Nav Screen
  | .none => .none
  | .pop => .pop
  | .push b => .push (.browser b)
  | .popToList => .popToList

/-- Screens about the machine open one another. -/
def machineNav : Nav Unit → Nav Screen
  | .none => .none
  | .pop => .pop
  | .push _ => .push .machine
  | .popToList => .popToList

/-- `on_key`, for the screen on top. -/
def keyOn (a : Around) (k : Ps2.Key) : Screen → Ui D Unit
  | .list sel => do
      let (sel, nav) ← listKey a sel k
      back (.list sel) nav
  | .browser b => do
      let (b, nav) ← browserKey a.vis b k
      back (.browser b) nav
  | .rowView v => do
      let (v, nav) ← onStore (v.dispatch k)
      back (.rowView v) (opening nav)
  | .schema s => do
      let (s, nav) ← schemaKey s k
      back (.schema s) nav
  | .refCols r => do
      let (r, nav) ← refColsKey r k
      back (.refCols r) nav
  | .fkPick p => do
      let (p, nav) ← fkPickKey a.vis p k
      back (.fkPick p) nav
  | .prompt p => promptKey p k
  | .pick p => pickKey p k
  | .confirm action => confirmKey action k
  | .editor ed => editorKey ed k
  | .builder b => builderKey a.now b k
  | .machine => navigate (machineNav a.machine)

/-- `on_key` -/
def onKey (a : Around) (k : Ps2.Key) : Ui D Unit := do
  let desk ← get
  match desk.stack with
  | [] => fun _ _ => .panic
  | scr :: _ => keyOn a k scr

/-- `set_cursor` -/
def withCursor (i : Nat) : Screen → Screen
  | .list _ => .list i
  | .browser b => .browser { b with row := i }
  | .rowView v => .rowView { v with sel := i }
  | .schema s => .schema { s with sel := i }
  | .refCols r => .refCols { r with sel := i }
  | .pick p => .pick { p with sel := i }
  | .fkPick p => .fkPick { p with sel := i }
  | .editor ed => .editor { ed with focus := i }
  | .builder b => .builder { b with focus := i }
  | scr => scr

/-- `set_cursor`, on the screen on top. -/
def setCursor (i : Nat) : Ui D Unit :=
  modify fun desk => match desk.stack with
    | [] => desk
    | scr :: rest => { desk with stack := withCursor i scr :: rest }

/-- The rows that `render` draws, where a browser is on top. -/
def drawnRows : Ui D (List (RowId × Row)) := do
  let desk ← get
  match desk.stack with
  | .browser b :: _ => cached b.table b.filter b.sort
  | _ => pure []

/-- What happens to the UI. A click is the cursor put somewhere and then a key,
or a key alone; the right button is Esc. -/
inductive Event where
  | key (k : Ps2.Key) (a : Around)
  | cursor (i : Nat)
  | render

def handle : Event → Ui D Unit
  | .key k a => onKey a k
  | .cursor i => setCursor i
  | .render => do
      let _ ← drawnRows
      pure ()

end Ui

end Views

end TablesOS
