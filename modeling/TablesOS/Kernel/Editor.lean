import TablesOS.Kernel.Browser

/-!
# The row editor and its field builder (`ui.rs`)

The editor holds a row as texts, one for each column. The builder takes the text
of one field apart, and on acceptance writes back what its parts compose to. The
messages of the editor are the errors they describe.
-/

namespace TablesOS

namespace Views

open Asking

/-! ## The field builder -/

/-- `enum PartId` -/
inductive PartId where
  | year
  | month
  | day
  | hour
  | minute
  | second
  | frac
  | offSign
  | offHour
  | offMin
  | sign
  | intDigits
  | decFrac
  | text
  deriving DecidableEq, Repr

/-- `struct PartField` -/
structure PartField where
  id : PartId
  label : String
  buf : Chars
  neg : Bool
  caret : Nat
  deriving DecidableEq, Repr

/-- `struct FieldBuilder` -/
structure FieldBuilder where
  field : Nat
  colName : String
  ty : Ty
  fields : List PartField
  focus : Nat
  error : Option StoreError
  nextValue : Option String
  deriving DecidableEq, Repr

/-- `split_number` -/
def splitNumber (s : Chars) : Bool × Chars × Chars :=
  let (neg, rest) := splitSign s
  match splitOnce '.' rest with
  | some (i, fr) => (neg, i, fr)
  | none => (neg, rest, [])

/-- `num2`: at least two digits. -/
def num2 (v : Nat) : Chars :=
  List.replicate (2 - (Nat.toDigits 10 v).length) '0' ++ Nat.toDigits 10 v

/-- `pad2`, by the bytes of the text. -/
def pad2 (s : Chars) : Chars :=
  match utf8Len s with
  | 0 => ['0', '0']
  | 1 => '0' :: s
  | _ => s

namespace FieldBuilder

/-- A part without content. -/
def part (id : PartId) (label : String) : PartField := ⟨id, label, [], false, 0⟩

def dateParts : List PartField :=
  [part .year "Year", part .month "Month", part .day "Day"]

def timeParts : List PartField :=
  [part .hour "Hour", part .minute "Minute", part .second "Second", part .frac "Sub-second"]

def offParts : List PartField :=
  [part .offSign "Zone sign", part .offHour "Zone hour", part .offMin "Zone min"]

/-- The parts of a type, in display order. -/
def parts : Ty → List PartField
  | .integer => [part .sign "Sign", part .intDigits "Digits"]
  | .unsignedInteger => [part .intDigits "Digits"]
  | .decimal => [part .sign "Sign", part .intDigits "Integer part", part .decFrac "Fraction"]
  | .string => [part .text "Text"]
  | .date => dateParts
  | .dateTz => dateParts ++ offParts
  | .time => timeParts
  | .dateTime => dateParts ++ timeParts
  | .dateTimeTz => dateParts ++ timeParts ++ offParts

/-- `FieldBuilder::new` -/
def new (field : Nat) (colName : String) (ty : Ty) : FieldBuilder :=
  ⟨field, colName, ty, parts ty, 0, none, none⟩

/-- What `set` does to the first part of that id. -/
def setPart (id : PartId) (buf : Chars) (neg : Bool) : List PartField → List PartField
  | [] => []
  | f :: fs =>
      if f.id = id then { f with buf, neg, caret := buf.length } :: fs
      else f :: setPart id buf neg fs

/-- `set` -/
def set (b : FieldBuilder) (id : PartId) (buf : Chars) (neg : Bool) : FieldBuilder :=
  { b with fields := setPart id buf neg b.fields }

/-- `get` -/
def get (b : FieldBuilder) (id : PartId) : Option PartField := b.fields.find? (·.id = id)

/-- `set_date` -/
def setDate (b : FieldBuilder) (d : Date) : FieldBuilder :=
  ((b.set .year d.year.mag.toDecString d.year.negative).set .month (num2 d.month) false).set
    .day (num2 d.day) false

/-- `set_time` -/
def setTime (b : FieldBuilder) (t : TimeOfDay) : FieldBuilder :=
  (((b.set .hour (num2 (t.secs / 3600)) false).set .minute (num2 (t.secs % 3600 / 60)) false).set
    .second (num2 (t.secs % 60)) false).set .frac (t.frac.map digitChar) false

/-- `set_off` -/
def setOff (b : FieldBuilder) (off : Offset) : FieldBuilder :=
  ((b.set .offSign [] (off.minutes < 0)).set .offHour (num2 (off.minutes.natAbs / 60)) false).set
    .offMin (num2 (off.minutes.natAbs % 60)) false

/-- The parts of a number. -/
def setNumber (b : FieldBuilder) (s : Chars) : FieldBuilder :=
  let (neg, int, frac) := splitNumber s
  ((b.set .sign [] neg).set .intDigits int false).set .decFrac frac false

/-- `load_from` -/
def loadFrom (b : FieldBuilder) : Value → FieldBuilder
  | .str s => b.set .text s.toList false
  | .date d => b.setDate d
  | .dateTz d off => (b.setDate d).setOff off
  | .time t => b.setTime t
  | .dateTime d t => (b.setDate d).setTime t
  | .dateTimeTz d t off => ((b.setDate d).setTime t).setOff off
  | v => b.setNumber v.displayChars

/-- `neg_of` -/
def negOf (b : FieldBuilder) (id : PartId) : Bool := (b.get id).elim false (·.neg)

/-- `buf_of` -/
def bufOf (b : FieldBuilder) (id : PartId) : Chars := (b.get id).elim [] (·.buf)

/-- The sign that a part stands for. -/
def minusOf (b : FieldBuilder) (id : PartId) : Chars := if b.negOf id then ['-'] else []

/-- Digits behind a point, where there are any. -/
def pointed (frac : Chars) : Chars := if frac.isEmpty then [] else '.' :: frac

def composeDate (b : FieldBuilder) : Chars :=
  b.minusOf .year ++ b.bufOf .year ++ '-' :: pad2 (b.bufOf .month) ++
    '-' :: pad2 (b.bufOf .day)

def composeTime (b : FieldBuilder) : Chars :=
  pad2 (b.bufOf .hour) ++ ':' :: pad2 (b.bufOf .minute) ++ ':' :: pad2 (b.bufOf .second) ++
    pointed (b.bufOf .frac)

def composeOff (b : FieldBuilder) : Chars :=
  (if b.negOf .offSign then '-' else '+') :: pad2 (b.bufOf .offHour) ++
    ':' :: pad2 (b.bufOf .offMin)

/-- The characters of `compose`. -/
def composeChars (b : FieldBuilder) : Chars :=
  match b.ty with
  | .integer => b.minusOf .sign ++ b.bufOf .intDigits
  | .unsignedInteger => b.bufOf .intDigits
  | .decimal => b.minusOf .sign ++ b.bufOf .intDigits ++ pointed (b.bufOf .decFrac)
  | .string => b.bufOf .text
  | .date => b.composeDate
  | .dateTz => b.composeDate ++ b.composeOff
  | .time => b.composeTime
  | .dateTime => b.composeDate ++ 'T' :: b.composeTime
  | .dateTimeTz => b.composeDate ++ 'T' :: b.composeTime ++ b.composeOff

/-- `compose` -/
def compose (b : FieldBuilder) : String := String.ofList b.composeChars

end FieldBuilder

/-! ## The editor -/

/-- `struct Field` -/
structure Field where
  value : String
  caret : Nat
  isNull : Bool
  deriving DecidableEq, Repr

/-- What an error shown at a field says. -/
inductive EditorError where
  | notNull
  | describe (e : StoreError)
  deriving DecidableEq, Repr

/-- `struct Editor` -/
structure Editor where
  table : String
  id : Option RowId
  cols : List Column
  fields : List Field
  focus : Nat
  error : Option (Nat × EditorError)
  deriving DecidableEq, Repr

variable {D : Type} [BlockDevice D]

/-- Indexing, which panics where there is nothing. -/
def indexed {α : Type} (o : Option α) : Asking D α := fun pg =>
  match o with
  | some a => .ok (a, pg)
  | none => .panic

/-- The field of column `ci`: its text, or the default of a new row. -/
def fieldOf (existing : Option Row) (ci : Nat) (c : Column) : Field :=
  match existing.bind (·[ci]?) with
  | some (some v) => ⟨v.display, v.display.length, false⟩
  | some none => ⟨"", 0, true⟩
  | none => ⟨"", 0, c.nullable⟩

/-- `open_editor` -/
def openEditor (table : String) (id : Option RowId) : Asking D (Option Editor) := do
  match ← getTable table with
  | none => pure none
  | some t => do
      let existing ← id.elim (pure none) (getRow table)
      let fields := t.columns.zipIdx.map fun c => fieldOf existing c.2 c.1
      pure (some ⟨table, id, t.columns, fields, 0, none⟩)

/-- What `open_builder` pushes: the parts of a field, or the picker of a foreign
key. -/
inductive Opened where
  | builder (b : FieldBuilder)
  | fkPicker (field : Nat) (fromCol toTable toCol : String)
  deriving DecidableEq, Repr

/-- The builder of a field, with the parts of its text where that parses. -/
def seeded (fi : Nat) (c : Column) (f : Field) : FieldBuilder :=
  if !f.isNull && f.value ≠ "" then
    (Value.parse c.ty f.value).toOption.elim (.new fi c.name c.ty)
      (FieldBuilder.new fi c.name c.ty).loadFrom
  else .new fi c.name c.ty

/-- The offer of a fresh value, for a new row. -/
def offered (ed : Editor) (fi : Nat) (c : Column) (b : FieldBuilder) : Asking D FieldBuilder :=
  if ed.id = none && c.unique then do
    let nextValue ← nextUniqueValue ed.table fi c.ty
    pure { b with nextValue }
  else pure b

/-- `open_builder` -/
def openBuilder (ed : Editor) (fi : Nat) : Asking D Opened := do
  let c ← indexed ed.cols[fi]?
  let t ← getTable ed.table
  match t.bind fun t => t.fks.find? (·.fromCol = c.name) with
  | some fk => pure (.fkPicker fi c.name fk.toTable fk.toCol)
  | none => do
      let f ← indexed ed.fields[fi]?
      .builder <$> offered ed fi c (seeded fi c f)

/-- `commit_builder`: the editor with the value, or the builder with the error. -/
def commitBuilder (b : FieldBuilder) (ed : Editor) : Except FieldBuilder Editor :=
  match Value.parse b.ty b.compose with
  | .ok v => .ok { ed with
      fields := ed.fields.modify b.field fun _ => ⟨v.display, v.display.length, false⟩
      error := none
      focus := b.field }
  | .error e => .error { b with error := some e }

/-- The cell of a field. -/
def cellOf (i : Nat) (c : Column) (f : Field) : Outcome (Nat × EditorError) (Option Value) :=
  if f.isNull then
    if c.nullable then .ok none else .err (i, .notNull)
  else
    match Value.parse c.ty f.value with
    | .ok v => .ok (some v)
    | .error e => .err (i, .describe e)

/-- The loop of `commit_editor` over the columns, up to the first error. -/
def cellsOf (i : Nat) : List Column → List Field → Outcome (Nat × EditorError) Row
  | [], _ => .ok []
  | _ :: _, [] => .panic
  | c :: cols, f :: fields => do
      let cell ← cellOf i c f
      let rest ← cellsOf (i + 1) cols fields
      pure (cell :: rest)

/-- The column that an error names. A foreign-key violation names the key. -/
def namedBy (fks : List ForeignKey) : StoreError → Option String
  | .nullViolation column => some column
  | .uniqueViolation column => some column
  | .foreignKeyViolation fk => (fks.find? (·.name = fk)).map (·.fromCol)
  | _ => none

/-- `column_for_error` -/
def columnForError (cols : List Column) (fks : List ForeignKey) (e : StoreError) : Nat :=
  ((namedBy fks e).bind fun n => cols.findIdx? fun c => c.name = n).getD 0

/-- The call that `commit_editor` saves with. -/
def saveOp (ed : Editor) (cells : Row) : Op RowId :=
  match ed.id with
  | some id => .update ed.table id cells
  | none => .insert ed.table cells

/-- What the answer makes of the editor. Saved, it is left. -/
def saved (ed : Editor) : Except StoreError (Reply RowId) → Asking D (Option Editor)
  | .ok _ => pure none
  | .error e => do
      let t ← getTable ed.table
      pure (some { ed with
        error := some (columnForError ed.cols (t.elim [] (·.fks)) e, .describe e) })

end Views

end TablesOS
