import TablesOS.Engine.Codec

/-!
# Tables, columns and foreign keys (`schema.rs`)

A schema is serialized whole. The reference columns and the display widths
stand at the end of the image, because older images stop before them.
-/

namespace TablesOS

/-- `struct Column` -/
structure Column where
  name : String
  ty : Ty
  nullable : Bool
  unique : Bool
  displayWidth : Option UInt16
  deriving DecidableEq, Repr

/-- `struct ForeignKey`: `from_col -> to_table.to_col`. -/
structure ForeignKey where
  name : String
  fromCol : String
  toTable : String
  toCol : String
  deriving DecidableEq, Repr

/-- `struct Table` -/
structure Table where
  name : String
  columns : List Column
  fks : List ForeignKey
  refCols : List String
  deriving DecidableEq, Repr

namespace Table

open Codec

/-- `Table::new` -/
def new (name : String) : Table := ⟨name, [], [], []⟩

/-- `column_index` -/
def columnIndex (t : Table) (name : String) : Option Nat :=
  t.columns.findIdx? (·.name == name)

/-- `column` -/
def column (t : Table) (name : String) : Option Column :=
  t.columns.find? (·.name == name)

/-- `ref_col_indices`: the reference columns that are there, or else the `UNIQUE`
ones, or else the first. -/
def refColIndices (t : Table) : List Nat :=
  let mapped := t.refCols.filterMap t.columnIndex
  let uniq := (t.columns.zipIdx.filter (·.1.unique)).map (·.2)
  if mapped ≠ [] then mapped
  else if uniq ≠ [] then uniq
  else if t.columns = [] then []
  else [0]

/-- `reference_label` -/
def referenceLabel (t : Table) (row : Row) : String :=
  " ".intercalate (t.refColIndices.map fun ci =>
    (t.columns[ci]?.elim "" (·.name)) ++ ":" ++
      match row[ci]? with
      | some (some v) => v.display
      | _ => "NULL")

/-- One column of `encode`. -/
def putColumn (c : Column) : List Byte :=
  putStr c.name ++ [c.ty.tag, if c.nullable then 1 else 0,
    if c.unique then 1 else 0]

/-- One foreign key of `encode`. -/
def putFk (f : ForeignKey) : List Byte :=
  putStr f.name ++ putStr f.fromCol ++ putStr f.toTable ++ putStr f.toCol

/-- The sparse `(column index, width)` list at the end of `encode`. -/
def widths (t : Table) : List (Nat × UInt16) :=
  t.columns.zipIdx.filterMap fun (c, i) => c.displayWidth.map fun w => (i, w)

/-- One entry of the width list. -/
def putWidth (cw : Nat × UInt16) : List Byte :=
  putUvarint cw.1 ++ putUvarint cw.2.toNat

/-- `Table::encode` -/
def encode (t : Table) : List Byte :=
  putStr t.name ++ (putVec putColumn t.columns ++ (putVec putFk t.fks ++
    (putVec putStr t.refCols ++ putVec putWidth t.widths)))

/-- One column of `decode`. -/
def getColumn : Dec Column := do
  let name ← getStr
  let tag ← getByte "schema eof"
  match Ty.fromTag tag with
  | none => throw (.corrupt "schema type")
  | some ty =>
      let nullable ← getByte "schema eof"
      let unique ← getByte "schema eof"
      pure ⟨name, ty, nullable ≠ 0, unique ≠ 0, none⟩

/-- One foreign key of `decode`. -/
def getFk : Dec ForeignKey := do
  let name ← getStr
  let fromCol ← getStr
  let toTable ← getStr
  let toCol ← getStr
  pure ⟨name, fromCol, toTable, toCol⟩

/-- `if pos < buf.len() { .. }`: a block that older images do not have. -/
def ifMore {α : Type} (absent : α) (d : Dec α) : Dec α
  | [] => .ok (absent, [])
  | b :: rest => d (b :: rest)

/-- `columns.get_mut(ci)`, then `c.display_width = Some(w as u16)`. -/
def setWidth (columns : List Column) (cw : Nat × Nat) : List Column :=
  columns.modify cw.1 fun c => { c with displayWidth := some (UInt16.ofNat cw.2) }

/-- One entry of the width list, as `decode` reads it. -/
def getWidth : Dec (Nat × Nat) := do
  let ci ← getUvarint
  let w ← getUvarint
  pure (ci, w)

/-- `Table::decode` -/
def decode (buf : List Byte) : Except StoreError Table :=
  (do
    let name ← getStr
    let columns ← getVec getColumn
    let fks ← getVec getFk
    let refCols ← ifMore [] (getVec getStr)
    let ws ← ifMore [] (getVec getWidth)
    pure ⟨name, ws.foldl setWidth columns, fks, refCols⟩ : Dec Table).run' buf

end Table

end TablesOS
