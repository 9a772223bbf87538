import TablesOS.Engine.Pager
import TablesOS.Engine.Schema

/-!
# The relational store (`store.rs`)

Every structure is a chain of linked pages: blob chains for the catalog, each
schema and each row, index chains for the row heads of a table. The reading
half of each operation is a query, the mutating half a program that runs as
one transaction.

A chain walk gets `total_pages + 1` rounds. A walk that is still going after
that has visited some page twice, and since it reads only, it would go round
for ever: `diverge`. `free_chain` rewrites the pages it walks, so that a
cycle runs into the pages it freed first; it gets twice as many.
-/

namespace TablesOS

/-- `struct RowId` -/
structure RowId where
  indexPage : Nat
  slot : Nat
  deriving DecidableEq, Repr

/-- `struct TableInfo` -/
structure TableInfo where
  name : String
  columns : Nat
  rows : Nat
  deriving DecidableEq, Repr

/-- `struct CatEntry` -/
structure CatEntry where
  name : String
  schemaHead : Nat
  dataHead : Nat
  rowCount : Nat
  deriving DecidableEq, Repr

namespace Store

open Pager Codec

/-- `CHAIN_HDR` -/
abbrev chainHdr : Nat := 16

/-- `CHAIN_CAP` -/
abbrev chainCap : Nat := pageSize - chainHdr

/-- `IDX_HDR` -/
abbrev idxHdr : Nat := 16

/-- `IDX_CAP` -/
abbrev idxCap : Nat := (pageSize - idxHdr) / 8

/-- `rd_u64`, at an offset inside the page. -/
def rdU64 (b : Page) (o : Nat) : Nat := b.getLe 8 o

/-- `wr_u64`, at an offset inside the page. -/
def wrU64 (b : Page) (o v : Nat) : Page := b.putLe 8 o v

/-- `row.get(col).cloned().flatten()` -/
def cellAt (row : Row) (col : Nat) : Option Value := row.getD col none

/-- `.ok_or_else(|| e)?` -/
def orElse {α : Type} (e : StoreError) (o : Option α) : Outcome StoreError α :=
  Outcome.okOr e o

/-- `.unwrap()` -/
def unwrap {α : Type} (o : Option α) : Outcome StoreError α := Outcome.unwrap o

/-- `v[i]`: out of range panics. -/
def at! {α : Type} (v : List α) (i : Nat) : Outcome StoreError α :=
  Outcome.unwrap v[i]?

/-! ## Blob chains -/

/-- The loop of `read_chain`. -/
def readChainLoop : Nat → Nat → List Byte → PageQuery (List Byte)
  | 0, _, _ => Query.diverge
  | fuel + 1, p, out =>
      if p = 0 then pure out else do
        let page ← getPage p
        let next := rdU64 page 0
        let len := rdU64 page 8
        if chainCap < len then Query.fail (.corrupt "chain length")
        else readChainLoop fuel next (out ++ page.slice chainHdr len)

/-- `read_chain` -/
def readChain (head : Nat) : PageQuery (List Byte) := do
  let sb ← getSb
  readChainLoop (sb.totalPages + 1) head []

/-- The page image of one chunk. -/
def chunkPage (next : Nat) (chunk : List Byte) : Page :=
  let img := wrU64 zeroedPage 0 next
  let img := wrU64 img 8 chunk.length
  img.put chainHdr chunk

/-- The first loop of `write_chain`. -/
def allocPages : Nat → PageProg (List Nat)
  | 0 => pure []
  | n + 1 => do
      let p ← allocPage
      let ps ← allocPages n
      pure (p :: ps)

/-- The second loop of `write_chain`: each page gets the next chunk and the
number of the page after it. -/
def writeChunks : List Nat → List Byte → PageProg Unit
  | [], _ => pure ()
  | p :: ps, bytes => do
      Prog.stage p (chunkPage (ps.headD 0) (bytes.take chainCap))
      writeChunks ps (bytes.drop chainCap)

/-- `nchunks` -/
def nchunks (bytes : List Byte) : Nat :=
  if bytes.isEmpty then 1 else (bytes.length + chainCap - 1) / chainCap

/-- `write_chain` -/
def writeChain (bytes : List Byte) : PageProg Nat := do
  let pages ← allocPages (nchunks bytes)
  writeChunks pages bytes
  pure (pages.headD 0)

/-- The loop of `free_chain`. -/
def freeChainLoop : Nat → Nat → PageProg Unit
  | 0, _ => Prog.diverge
  | fuel + 1, p =>
      if p = 0 then pure () else do
        let page ← getPage p
        let next := rdU64 page 0
        freePage p
        freeChainLoop fuel next

/-- `free_chain` -/
def freeChain (head : Nat) : PageProg Unit := do
  let sb ← getSb
  freeChainLoop (2 * (sb.totalPages + 1)) head

/-! ## Catalog -/

/-- One entry of the catalog blob. -/
def putCatEntry (e : CatEntry) : List Byte :=
  putStr e.name ++ (putUvarint e.schemaHead ++
    (putUvarint e.dataHead ++ putUvarint e.rowCount))

def getCatEntry : Dec CatEntry := do
  let name ← getStr
  let schemaHead ← getUvarint
  let dataHead ← getUvarint
  let rowCount ← getUvarint
  pure ⟨name, schemaHead, dataHead, rowCount⟩

/-- The catalog blob. -/
def encodeCatalog (cat : List CatEntry) : List Byte := putVec putCatEntry cat

def decodeCatalog (bytes : List Byte) : Except StoreError (List CatEntry) :=
  (getVec getCatEntry).run' bytes

/-- `load_catalog` -/
def loadCatalog : PageQuery (List CatEntry) := do
  let sb ← getSb
  if sb.catalogHead = 0 then pure [] else do
    let bytes ← readChain sb.catalogHead
    Outcome.ofExcept (decodeCatalog bytes)

/-- `store_catalog`: the new chain is written before the old one is freed. -/
def storeCatalog (cat : List CatEntry) : PageProg Unit := do
  let sb ← getSb
  let new ← writeChain (encodeCatalog cat)
  let sb' ← getSb
  Prog.setControl { sb' with catalogHead := new }
  if sb.catalogHead ≠ 0 then freeChain sb.catalogHead else pure ()

/-- `cat_index` -/
def catIndex (cat : List CatEntry) (name : String) : Outcome StoreError Nat :=
  orElse (.notFound ("table '" ++ name ++ "'")) (cat.findIdx? (·.name == name))

/-- `schema_of` -/
def schemaOf (e : CatEntry) : PageQuery Table := do
  let bytes ← readChain e.schemaHead
  Outcome.ofExcept (Table.decode bytes)

/-! ## Index chain -/

/-- The slots of one index page that hold a row head. -/
def liveSlots (p : Nat) (page : Page) (n : Nat) : List (RowId × Nat) :=
  (List.range n).filterMap fun s =>
    let head := rdU64 page (idxHdr + s * 8)
    if head ≠ 0 then some (⟨p, s⟩, head) else none

/-- The loop of `index_collect`. A slot count past the page's capacity makes
the slot read index out of range. -/
def indexCollectLoop : Nat → Nat → List (RowId × Nat) → PageQuery (List (RowId × Nat))
  | 0, _, _ => Query.diverge
  | fuel + 1, p, out =>
      if p = 0 then pure out else do
        let page ← getPage p
        let next := rdU64 page 0
        let n := rdU64 page 8
        if idxCap < n then Query.panic
        else indexCollectLoop fuel next (out ++ liveSlots p page n)

/-- `index_collect` -/
def indexCollect (dataHead : Nat) : PageQuery (List (RowId × Nat)) := do
  let sb ← getSb
  indexCollectLoop (sb.totalPages + 1) dataHead []

/-- The loop of `index_append`: walk to the last index page. -/
def indexAppendLoop (rowHead : Nat) : Nat → Nat → PageProg RowId
  | 0, _ => Prog.diverge
  | fuel + 1, p => do
      let page ← getPage p
      let next := rdU64 page 0
      let n := rdU64 page 8
      if next = 0 then
        if n < idxCap then do
          let page := wrU64 page (idxHdr + n * 8) rowHead
          let page := wrU64 page 8 (n + 1)
          Prog.stage p page
          pure ⟨p, n⟩
        else do
          -- Full: chain on a new index page.
          let np ← allocPage
          let newp := wrU64 zeroedPage 8 1
          let newp := wrU64 newp idxHdr rowHead
          Prog.stage np newp
          Prog.stage p (wrU64 page 0 np)
          pure ⟨np, 0⟩
      else indexAppendLoop rowHead fuel next

/-- `index_append` -/
def indexAppend (dataHead rowHead : Nat) : PageProg RowId := do
  let sb ← getSb
  indexAppendLoop rowHead (sb.totalPages + 1) dataHead

/-- `index_set` -/
def indexSet (indexPage slot value : Nat) : PageProg Unit := do
  let page ← getPage indexPage
  let n := rdU64 page 8
  if n ≤ slot then Prog.fail (.notFound "row")
  else if idxCap ≤ slot then Prog.panic
  else Prog.stage indexPage (wrU64 page (idxHdr + slot * 8) value)

/-- `row_head_at` -/
def rowHeadAt (id : RowId) : PageQuery Nat := do
  let page ← getPage id.indexPage
  let n := rdU64 page 8
  if n ≤ id.slot then Query.fail (.notFound "row")
  else if idxCap ≤ id.slot then Query.panic
  else
    let h := rdU64 page (idxHdr + id.slot * 8)
    if h = 0 then Query.fail (.notFound "row (deleted)") else pure h

/-- `decode_row(&self.read_chain(head)?)?` -/
def readRow (head : Nat) : PageQuery Row := do
  let bytes ← readChain head
  Outcome.ofExcept (decodeRow bytes)

/-- `cells.resize(n, None)` -/
def fit (n : Nat) (cells : Row) : Row :=
  cells.take n ++ List.replicate (n - cells.length) none

/-- `decode_row_fitted` -/
def decodeRowFitted (head ncols : Nat) : PageQuery Row := do
  let cells ← readRow head
  pure (fit ncols cells)

/-! ## Read API -/

/-- `list_tables` -/
def listTables : PageQuery (List TableInfo) := do
  let cat ← loadCatalog
  cat.mapM fun e => do
    let t ← schemaOf e
    pure ⟨e.name, t.columns.length, e.rowCount⟩

/-- `get_table` -/
def getTable (name : String) : PageQuery Table := do
  let cat ← loadCatalog
  let i ← catIndex cat name
  schemaOf (← at! cat i)

/-- `scan`: every live row, in retrieval order. -/
def scan (name : String) : PageQuery (List (RowId × Row)) := do
  let cat ← loadCatalog
  let i ← catIndex cat name
  let e ← at! cat i
  let t ← schemaOf e
  let rows ← indexCollect e.dataHead
  rows.mapM fun (id, head) => do
    let row ← decodeRowFitted head t.columns.length
    pure (id, row)

/-- `get_row` -/
def getRow (name : String) (id : RowId) : PageQuery Row := do
  let cat ← loadCatalog
  let i ← catIndex cat name
  let t ← schemaOf (← at! cat i)
  let head ← rowHeadAt id
  decodeRowFitted head t.columns.length

/-! ## Integrity -/

/-- `all_values_in` -/
def allValuesIn (e : CatEntry) (col : Nat) : PageQuery (List (Option Value)) := do
  let rows ← indexCollect e.dataHead
  rows.mapM fun (_, head) => do
    let row ← readRow head
    pure (cellAt row col)

/-- The type and `NOT NULL` check of one column. -/
def checkCell (c : Column) (cell : Option Value) : Outcome StoreError Unit :=
  match cell with
  | none => if c.nullable then .ok () else .err (.nullViolation c.name)
  | some v =>
      if v.typeOf ≠ c.ty then
        .err (.parse ("column '" ++ c.name ++ "' expects " ++ c.ty.name))
      else .ok ()

/-- The `UNIQUE` check of column `ci`, over the rows of the table. -/
def checkUnique (rows : List (RowId × Nat)) (exclude : Option RowId) (ci : Nat)
    (c : Column) (v : Value) : PageQuery Unit :=
  forM rows fun (id, head) =>
    if some id = exclude then pure () else do
      let other ← readRow head
      if cellAt other ci = some v then Query.fail (.uniqueViolation c.name)
      else pure ()

/-- The search loop of the foreign-key check; it stops at the first match. -/
def existsValue (sameTable : Bool) (exclude : Option RowId) (cells : Row)
    (tcol : Nat) (v : Value) : List (RowId × Nat) → PageQuery Bool
  | [] => pure false
  | (rid, head) :: rest => do
      let val ← if sameTable && some rid = exclude then pure (cellAt cells tcol)
        else do
          let row ← readRow head
          pure (cellAt row tcol)
      if val = some v then pure true
      else existsValue sameTable exclude cells tcol v rest

/-- The check of one foreign key. -/
def checkFk (cat : List CatEntry) (ti : Nat) (t : Table) (cells : Row)
    (exclude : Option RowId) (fk : ForeignKey) : PageQuery Unit := do
  let fi ← orElse (.corrupt "fk source column") (t.columnIndex fk.fromCol)
  match ← at! cells fi with
  | none => pure ()
  | some v =>
      let tj ← catIndex cat fk.toTable
      let te ← at! cat tj
      let tt ← schemaOf te
      let tcol ← orElse (.corrupt "fk target column") (tt.columnIndex fk.toCol)
      let rows ← indexCollect te.dataHead
      if ← existsValue (tj == ti) exclude cells tcol v rows then pure ()
      else Query.fail (.foreignKeyViolation fk.name)

/-- `validate`: type, `NOT NULL`, `UNIQUE`, foreign keys, in that order. -/
def validate (cat : List CatEntry) (ti : Nat) (t : Table) (cells : Row)
    (exclude : Option RowId) : PageQuery Unit := do
  if cells.length ≠ t.columns.length then
    Query.fail (.parse ("row has " ++ toString cells.length ++
      " cells, table has " ++ toString t.columns.length ++ " columns"))
  else do
    forM (t.columns.zip cells) fun (c, cell) =>
      (liftM (checkCell c cell) : PageQuery Unit)
    forM t.columns.zipIdx fun (c, ci) =>
      if !c.unique then pure () else do
        match ← at! cells ci with
        | none => pure ()
        | some v => do
            let e ← at! cat ti
            let rows ← indexCollect e.dataHead
            checkUnique rows exclude ci c v
    forM t.fks fun fk => checkFk cat ti t cells exclude fk

/-! ## Schema operations

A public operation asks its preliminary questions first, and either they give
the answer or the rest of it is one transaction. -/

/-- What is left of an operation once its preliminary reads are done. -/
inductive Call (α : Type) where
  | ret (a : α)
  | tx (body : PageProg α)

/-- `create_table` -/
def createTable (name : String) : PageQuery (Call Unit) :=
  if name.isEmpty then Query.fail (.schemaRejected "table name is empty")
  else pure <| .tx do
    let cat ← loadCatalog
    if cat.any (·.name == name) then
      Prog.fail (.duplicate ("table '" ++ name ++ "'"))
    else do
      let schemaHead ← writeChain (Table.new name).encode
      let dataHead ← writeChain []
      storeCatalog (cat ++ [⟨name, schemaHead, dataHead, 0⟩])

/-- The check of `drop_table`: no other table may have a key into this one. -/
def checkNotReferenced (name : String) (i : Nat) (cat : List CatEntry) :
    PageQuery Unit :=
  forM cat.zipIdx fun (e, j) =>
    if j = i then pure () else do
      let ot ← schemaOf e
      if ot.fks.any (·.toTable == name) then
        Query.fail (.schemaRejected ("table '" ++ name ++
          "' is referenced by a foreign key in '" ++ e.name ++ "'"))
      else pure ()

/-- `drop_table` -/
def dropTable (name : String) : PageQuery (Call Unit) := pure <| .tx do
  let cat ← loadCatalog
  let i ← catIndex cat name
  checkNotReferenced name i cat
  let e ← at! cat i
  let rows ← indexCollect e.dataHead
  forM rows fun (_, head) => freeChain head
  freeChain e.dataHead
  freeChain e.schemaHead
  storeCatalog (cat.eraseIdx i)

/-- The row loop of `put_schema`. -/
def rewriteRows (map : Row → Row) : List (RowId × Nat) → PageProg Unit
  | [] => pure ()
  | (id, head) :: rest => do
      let cells ← readRow head
      freeChain head
      let nh ← writeChain (encodeRow (map cells))
      indexSet id.indexPage id.slot nh
      rewriteRows map rest

/-- `put_schema`, as the body of its transaction. -/
def putSchema (name : String) (mutate : Table → Outcome StoreError Table)
    (rewrite : Option (Row → Row)) : PageProg Unit := do
  let cat ← loadCatalog
  let i ← catIndex cat name
  let e ← at! cat i
  let t ← schemaOf e
  let t ← mutate t
  match rewrite with
  | some map => do
      let rows ← indexCollect e.dataHead
      rewriteRows map rows
  | none => pure ()
  let head ← writeChain t.encode
  freeChain e.schemaHead
  storeCatalog (cat.set i { e with schemaHead := head })

/-- The closure of `add_column`. -/
def pushColumn (col : Column) (t : Table) : Outcome StoreError Table :=
  if (t.column col.name).isSome then
    .err (.duplicate ("column '" ++ col.name ++ "'"))
  else .ok { t with columns := t.columns ++ [col] }

/-- `add_column` -/
def addColumn (table : String) (col : Column) : PageQuery (Call Unit) := do
  if !col.nullable then do
    let cat ← loadCatalog
    let i ← catIndex cat table
    let e ← at! cat i
    if 0 < e.rowCount then
      Query.fail (.schemaRejected
        "table has rows; a new column must be nullable (existing rows receive NULL)")
    else pure ()
  else pure ()
  pure <| .tx (putSchema table (pushColumn col) (some (· ++ [none])))

/-- `Vec::remove`, without the removed element: out of range panics. -/
def remove {α : Type} (v : List α) (i : Nat) : Outcome StoreError (List α) :=
  if i < v.length then .ok (v.eraseIdx i) else .panic

/-- Some foreign key of `t` points at `table.col`. -/
def targets (t : Table) (table col : String) : Bool :=
  t.fks.any fun f => f.toTable == table && f.toCol == col

/-- Refuse with `why` if any table has a foreign key to `table.col`. -/
def checkNotTarget (cat : List CatEntry) (table col : String)
    (why : CatEntry → String) : PageQuery Unit :=
  forM cat fun e => do
    let ot ← schemaOf e
    if targets ot table col then Query.fail (.schemaRejected (why e)) else pure ()

/-- The closure of `drop_column` on the schema. -/
def removeColumn (idx : Nat) (col : String) (t : Table) : Outcome StoreError Table := do
  let columns ← remove t.columns idx
  .ok { t with columns, refCols := t.refCols.filter (· ≠ col) }

/-- `drop_column` -/
def dropColumn (table col : String) : PageQuery (Call Unit) := do
  let cat ← loadCatalog
  let i ← catIndex cat table
  let t ← schemaOf (← at! cat i)
  let idx ← orElse (.notFound ("column '" ++ col ++ "'")) (t.columnIndex col)
  if t.fks.any (·.fromCol == col) then
    Query.fail (.schemaRejected ("column '" ++ col ++ "' carries a foreign key"))
  else do
    checkNotTarget cat table col fun e =>
      "column '" ++ col ++ "' is targeted by a foreign key in '" ++ e.name ++ "'"
    pure <| .tx (putSchema table (removeColumn idx col) (some (·.eraseIdx idx)))

/-- `let c = v.remove(old); v.insert(new, c)` -/
def moveAt {α : Type} (old new : Nat) (v : List α) : Outcome StoreError (List α) := do
  let c ← at! v old
  let v ← remove v old
  if new ≤ v.length then .ok (v.insertIdx new c) else .panic

/-- The closure of `move_column` on a row: cell `k` of the new row is cell
`perm[k]` of the old one. -/
def permute (n : Nat) (perm : List Nat) (cells : Row) : Row :=
  perm.map fun k => cellAt (fit n cells) k

/-- The closure of `move_column` on the schema. -/
def reorderColumns (old new : Nat) (t : Table) : Outcome StoreError Table := do
  let columns ← moveAt old new t.columns
  .ok { t with columns }

/-- `move_column` -/
def moveColumn (table col : String) (newIndex : Nat) : PageQuery (Call Unit) := do
  let cat ← loadCatalog
  let i ← catIndex cat table
  let t ← schemaOf (← at! cat i)
  let n := t.columns.length
  let old ← orElse (.notFound ("column '" ++ col ++ "'")) (t.columnIndex col)
  if n ≤ newIndex then
    Query.fail (.schemaRejected ("new column index " ++ toString newIndex ++
      " out of range (0.." ++ toString n ++ ")"))
  else if newIndex = old then pure (.ret ())
  else do
    let perm ← moveAt old newIndex (List.range n)
    pure <| .tx (putSchema table (reorderColumns old newIndex)
      (some (permute n perm)))

/-- The edit of one schema in `rename_column`. -/
def renameIn (table old new : String) (owns : Bool) (t : Table) : Table :=
  { t with
    columns := if owns then t.columns.map fun c =>
        if c.name = old then { c with name := new } else c
      else t.columns
    refCols := if owns then t.refCols.map fun c => if c = old then new else c
      else t.refCols
    fks := t.fks.map fun fk =>
      let fk := if owns && fk.fromCol == old then { fk with fromCol := new } else fk
      if fk.toTable == table && fk.toCol == old then { fk with toCol := new }
      else fk }

/-- `changed` -/
def mentions (table old : String) (owns : Bool) (t : Table) : Bool :=
  owns && (t.columns.any (·.name == old) || t.refCols.contains old ||
    t.fks.any (·.fromCol == old)) || targets t table old

/-- The loop of `rename_column`: every schema that mentions the column is
written anew. -/
def renameAll (table old new : String) : List CatEntry → PageProg (List CatEntry)
  | [] => pure []
  | e :: rest => do
      let t ← schemaOf e
      let owns := e.name == table
      let e ← if mentions table old owns t then do
          let head ← writeChain (renameIn table old new owns t).encode
          freeChain e.schemaHead
          pure { e with schemaHead := head }
        else pure e
      let rest ← renameAll table old new rest
      pure (e :: rest)

/-- `rename_column` -/
def renameColumn (table old new : String) : PageQuery (Call Unit) :=
  if new.isEmpty then Query.fail (.schemaRejected "column name is empty")
  else if old = new then pure (.ret ())
  else pure <| .tx do
    let cat ← loadCatalog
    let i ← catIndex cat table
    let t ← schemaOf (← at! cat i)
    if (t.column old).isNone then
      Prog.fail (.notFound ("column '" ++ old ++ "'"))
    else if (t.column new).isSome then
      Prog.fail (.duplicate ("column '" ++ new ++ "'"))
    else do
      let cat ← renameAll table old new cat
      storeCatalog cat

/-- The duplicate search of `set_unique`. -/
def hasDuplicate : List Value → List (Option Value) → Bool
  | _, [] => false
  | seen, none :: vals => hasDuplicate seen vals
  | seen, some v :: vals => seen.contains v || hasDuplicate (seen ++ [v]) vals

/-- `t.columns[ci].f = ..`: out of range panics. -/
def setColumn (f : Column → Column) (ci : Nat) (t : Table) : Outcome StoreError Table :=
  if ci < t.columns.length then .ok { t with columns := t.columns.modify ci f }
  else .panic

/-- `set_unique` -/
def setUnique (table col : String) (unique : Bool) : PageQuery (Call Unit) := do
  let cat ← loadCatalog
  let i ← catIndex cat table
  let e ← at! cat i
  let t ← schemaOf e
  let ci ← orElse (.notFound ("column '" ++ col ++ "'")) (t.columnIndex col)
  if !unique then
    checkNotTarget cat table col fun _ =>
      "'" ++ col ++ "' is a foreign-key target and must stay UNIQUE"
  else do
    let vals ← allValuesIn e ci
    if hasDuplicate [] vals then
      Query.fail (.schemaRejected ("column '" ++ col ++
        "' already contains duplicate values"))
    else pure ()
  pure <| .tx (putSchema table (setColumn (fun c => { c with unique }) ci) none)

/-- The loop over existing values in `add_fk`. -/
def checkExisting (toTable toCol : String) (targets : List (Option Value)) :
    List (Option Value) → Outcome StoreError Unit
  | [] => .ok ()
  | none :: vals => checkExisting toTable toCol targets vals
  | some v :: vals =>
      if targets.contains (some v) then checkExisting toTable toCol targets vals
      else .err (.schemaRejected ("existing value " ++ v.display ++
        " has no match in " ++ toTable ++ "." ++ toCol))

/-- The naming loop of `add_fk`: `{from}_fk`, `{from}_fk2`, `{from}_fk3`, ..
The candidates are all different, so it ends within `existing.len()` rounds. -/
def freshFkName (existing : List String) (fromCol : String) :
    Nat → Nat → String → Outcome StoreError String
  | 0, _, _ => .diverge
  | fuel + 1, n, base =>
      if existing.contains base then
        freshFkName existing fromCol fuel (n + 1) (fromCol ++ "_fk" ++ toString n)
      else .ok base

/-- The closure of `add_fk`. -/
def pushFk (fk : ForeignKey) (t : Table) : Outcome StoreError Table :=
  .ok { t with fks := t.fks ++ [fk] }

/-- `add_fk` -/
def addFk (table fromCol toTable toCol : String) : PageQuery (Call Unit) := do
  let cat ← loadCatalog
  let i ← catIndex cat table
  let e ← at! cat i
  let t ← schemaOf e
  let fc ← orElse (.notFound ("column '" ++ fromCol ++ "'")) (t.column fromCol)
  let j ← catIndex cat toTable
  let te ← at! cat j
  let tt ← schemaOf te
  let tc ← orElse (.notFound ("column '" ++ toTable ++ "." ++ toCol ++ "'"))
    (tt.column toCol)
  if !tc.unique then
    Query.fail (.schemaRejected ("foreign-key target '" ++ toTable ++ "." ++
      toCol ++ "' must be UNIQUE"))
  else if fc.ty ≠ tc.ty then
    Query.fail (.schemaRejected "foreign-key column and target must share a type")
  else do
    let targets ← allValuesIn te (← unwrap (tt.columnIndex toCol))
    let vals ← allValuesIn e (← unwrap (t.columnIndex fromCol))
    checkExisting toTable toCol targets vals
    let existing := t.fks.map (·.name)
    let name ← freshFkName existing fromCol (existing.length + 1) 2
      (fromCol ++ "_fk")
    pure <| .tx (putSchema table (pushFk ⟨name, fromCol, toTable, toCol⟩) none)

/-- The closure of `drop_fk`. -/
def removeFk (fkName : String) (t : Table) : Outcome StoreError Table :=
  let fks := t.fks.filter (·.name ≠ fkName)
  if fks.length = t.fks.length then
    .err (.notFound ("foreign key '" ++ fkName ++ "'"))
  else .ok { t with fks }

/-- `drop_fk` -/
def dropFk (table fkName : String) : PageQuery (Call Unit) :=
  pure <| .tx (putSchema table (removeFk fkName) none)

/-- The loop of `set_reference_columns`. -/
def checkRefCols (t : Table) : List String → List String → Outcome StoreError Unit
  | _, [] => .ok ()
  | seen, c :: cols =>
      if (t.column c).isNone then .err (.notFound ("column '" ++ c ++ "'"))
      else if seen.contains c then
        .err (.duplicate ("reference column '" ++ c ++ "'"))
      else checkRefCols t (seen ++ [c]) cols

/-- The closure of `set_reference_columns`. -/
def putRefCols (cols : List String) (t : Table) : Outcome StoreError Table := do
  checkRefCols t [] cols
  .ok { t with refCols := cols }

/-- `set_reference_columns` -/
def setReferenceColumns (table : String) (cols : List String) : PageQuery (Call Unit) :=
  pure <| .tx (putSchema table (putRefCols cols) none)

/-- The closure of `set_display_width`. -/
def putDisplayWidth (col : String) (width : Option UInt16) (t : Table) :
    Outcome StoreError Table := do
  let ci ← orElse (.notFound ("column '" ++ col ++ "'")) (t.columnIndex col)
  setColumn (fun c => { c with displayWidth := width }) ci t

/-- `set_display_width` -/
def setDisplayWidth (table col : String) (width : Option UInt16) : PageQuery (Call Unit) :=
  pure <| .tx (putSchema table (putDisplayWidth col width) none)

/-! ## Data operations -/

/-- `insert` -/
def insert (table : String) (cells : Row) : PageQuery (Call RowId) := pure <| .tx do
  let cat ← loadCatalog
  let i ← catIndex cat table
  let e ← at! cat i
  let t ← schemaOf e
  validate cat i t cells none
  let head ← writeChain (encodeRow cells)
  let id ← indexAppend e.dataHead head
  storeCatalog (cat.set i { e with rowCount := e.rowCount + 1 })
  pure id

/-- The rows of one table against the key of the row being changed or
removed, which is itself row `id` of table `i`. -/
def checkRows (skip : Bool) (id : RowId) (fk : ForeignKey) (fci : Nat)
    (key : Value) (rows : List (RowId × Nat)) : PageQuery Unit :=
  forM rows fun (rid, rh) =>
    if skip && rid == id then pure () else do
      let orow ← readRow rh
      if cellAt orow fci = some key then
        Query.fail (.foreignKeyViolation fk.name)
      else pure ()

/-- The restrict loop of `update` and `delete`: no live row may reference the
key of `row`. `kept` says of a target column and its old key that the new row
still has it; a deleted row keeps nothing. -/
def restrict (cat : List CatEntry) (i : Nat) (t : Table) (id : RowId) (row : Row)
    (table : String) (kept : Nat → Value → Bool) : PageQuery Unit :=
  forM cat.zipIdx fun (e, j) => do
    let ot ← schemaOf e
    forM ot.fks fun fk =>
      if fk.toTable ≠ table then pure () else do
        let tci ← unwrap (t.columnIndex fk.toCol)
        match cellAt row tci with
        | none => pure ()
        | some key =>
            if kept tci key then pure () else do
              let fci ← unwrap (ot.columnIndex fk.fromCol)
              let rows ← indexCollect e.dataHead
              checkRows (j == i) id fk fci key rows

/-- `update` -/
def update (table : String) (id : RowId) (cells : Row) : PageQuery (Call Unit) :=
  pure <| .tx do
    let cat ← loadCatalog
    let i ← catIndex cat table
    let t ← schemaOf (← at! cat i)
    validate cat i t cells (some id)
    let old ← rowHeadAt id
    let oldRow ← decodeRowFitted old t.columns.length
    restrict cat i t id oldRow table fun tci key => cellAt cells tci == some key
    let new ← writeChain (encodeRow cells)
    indexSet id.indexPage id.slot new
    freeChain old

/-- `delete` -/
def delete (table : String) (id : RowId) : PageQuery (Call Unit) := pure <| .tx do
  let cat ← loadCatalog
  let i ← catIndex cat table
  let e ← at! cat i
  let t ← schemaOf e
  let head ← rowHeadAt id
  let row ← decodeRowFitted head t.columns.length
  restrict cat i t id row table fun _ _ => false
  freeChain head
  indexSet id.indexPage id.slot 0
  storeCatalog (cat.set i { e with rowCount := e.rowCount - 1 })

/-! ## Relationship navigation -/

/-- The rows of a table, fitted to its schema. -/
def fittedRows (e : CatEntry) (t : Table) : PageQuery (List (RowId × Row)) := do
  let rows ← indexCollect e.dataHead
  rows.mapM fun (id, head) => do
    let row ← decodeRowFitted head t.columns.length
    pure (id, row)

/-- `follow_fk` -/
def followFk (table : String) (id : RowId) (fkName : String) :
    PageQuery (String × List (RowId × Row)) := do
  let cat ← loadCatalog
  let i ← catIndex cat table
  let t ← schemaOf (← at! cat i)
  let fk ← orElse (.notFound ("foreign key '" ++ fkName ++ "'"))
    (t.fks.find? (·.name == fkName))
  let fci ← unwrap (t.columnIndex fk.fromCol)
  let head ← rowHeadAt id
  let row ← decodeRowFitted head t.columns.length
  match cellAt row fci with
  | none => pure (fk.toTable, [])
  | some key => do
      let j ← catIndex cat fk.toTable
      let te ← at! cat j
      let tt ← schemaOf te
      let tci ← unwrap (tt.columnIndex fk.toCol)
      let rows ← fittedRows te tt
      pure (fk.toTable, rows.filter fun r => cellAt r.2 tci = some key)

/-- The rows of table `e` that reference `row` through `fk`. -/
def referencingThrough (t : Table) (row : Row) (table : String) (e : CatEntry)
    (ot : Table) (fk : ForeignKey) :
    PageQuery (List (String × String × RowId × Row)) :=
  if fk.toTable ≠ table then pure [] else do
    let tci ← unwrap (t.columnIndex fk.toCol)
    match cellAt row tci with
    | none => pure []
    | some key => do
        let fci ← unwrap (ot.columnIndex fk.fromCol)
        let rows ← fittedRows e ot
        pure ((rows.filter fun r => cellAt r.2 fci = some key).map fun r =>
          (e.name, fk.name, r.1, r.2))

/-- `referencing_rows` -/
def referencingRows (table : String) (id : RowId) :
    PageQuery (List (String × String × RowId × Row)) := do
  let cat ← loadCatalog
  let i ← catIndex cat table
  let t ← schemaOf (← at! cat i)
  let head ← rowHeadAt id
  let row ← decodeRowFitted head t.columns.length
  let out ← cat.mapM fun e => do
    let ot ← schemaOf e
    let refs ← ot.fks.mapM fun fk => referencingThrough t row table e ot fk
    pure refs.flatten
  pure out.flatten

end Store

end TablesOS
