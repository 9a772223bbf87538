import TablesOS.Engine.Block

/-!
# The write-ahead log (`journal.rs`)

Pages over sectors, the control record, and the two protocols: `commit`
stages a set of page images and installs it, `recover` replays a committed
set on the next mount. The sector of a page is taken modulo `2 ^ 64`; on the
pages of a volume the product does not overflow.
-/

namespace TablesOS

/-- `PAGE` -/
abbrev pageSize : Nat := 4096

/-- `PAGE_SECTORS` -/
abbrev pageSectors : Nat := 8

/-- A page image. -/
abbrev Page := Buf pageSize

/-- `&data[i * SECTOR..(i + 1) * SECTOR]` -/
def Page.sector (data : Page) (i : Nat) : Sector :=
  fun j => data.get (i * sectorSize + j)

namespace Journal

/-- `JCTRL_PAGES` -/
abbrev jctrlPages : Nat := 4

/-- `HEADER_LEN` -/
abbrev headerLen : Nat := 32

/-- `JCAP`: entries in control page 1 after the header, and in the three
following pages. -/
abbrev jcap : Nat := (pageSize - headerLen) / 8 + 3 * (pageSize / 8)

/-- `JDATA_START_PAGE` -/
abbrev jdataStartPage : Nat := 1 + jctrlPages

/-- `JDATA_PAGES` -/
abbrev jdataPages : Nat := jcap

/-- `FIRST_DATA_PAGE` -/
abbrev firstDataPage : Nat := jdataStartPage + jdataPages

/-- `MAGIC` -/
abbrev magic : Nat := 0x4a4c4254

/-- `STATE_EMPTY` -/
abbrev stateEmpty : Nat := 0

/-- `STATE_COMMITTED` -/
abbrev stateCommitted : Nat := 1

/-- The four control pages in one buffer. -/
abbrev ctrlSize : Nat := jctrlPages * pageSize

variable {D : Type} [BlockDevice D]

/-- `page * PAGE_SECTORS + i` -/
def sectorOf (page i : Nat) : Nat := (page * pageSectors + i) % 2 ^ 64

/-- `read_page`, into the buffer the caller passes. -/
def readPage (page : Nat) (out : Page) : DevM D Page :=
  (List.range pageSectors).foldlM (fun out i => do
    let sec ← BlockDevice.readSector (sectorOf page i)
    pure (out.put (i * sectorSize) sec.toList)) out

/-- `write_page`: sectors go out in order. -/
def writePage (page : Nat) (data : Page) : DevM D Unit :=
  (List.range pageSectors).forM fun i =>
    BlockDevice.writeSector (sectorOf page i) (data.sector i)

/-- One step of `crc32`: the bit loop over one byte. -/
def crcByte (crc : UInt32) (b : Byte) : UInt32 :=
  (List.range 8).foldl (fun crc _ =>
    let mask := 0 - (crc &&& 1)
    (crc >>> 1) ^^^ (0xEDB88320 &&& mask)) (crc ^^^ b.toUInt32)

/-- `crc32` -/
def crc32 (bytes : List Byte) : Nat :=
  (~~~ bytes.foldl crcByte 0xFFFFFFFF).toNat

/-- What the control CRC covers: `txid`, `count` and the entries, never the
state. -/
def crcInput (txid count : Nat) (entries : List Nat) : List Byte :=
  leBytes 8 txid ++ leBytes 8 count ++ entries.flatMap (leBytes 8)

/-- The entries, packed right after the header. -/
def putEntries (entries : List Nat) (buf : Buf ctrlSize) : Buf ctrlSize :=
  entries.zipIdx.foldl (fun buf e => buf.putLe 8 (headerLen + e.2 * 8) e.1) buf

/-- `render_ctrl` -/
def renderCtrl (entries : List Nat) (txid state : Nat) : Buf ctrlSize :=
  let buf := putEntries entries (Buf.zero ctrlSize)
  let crc := crc32 (crcInput txid entries.length entries)
  let buf := buf.putLe 4 0 magic
  let buf := buf.putLe 4 4 1
  let buf := buf.putLe 4 8 state
  let buf := buf.putLe 4 12 crc
  let buf := buf.putLe 8 16 txid
  buf.putLe 8 24 entries.length

/-- `struct Ctrl` -/
structure Ctrl where
  state : Nat
  count : Nat
  entries : List Nat
  deriving DecidableEq, Repr

/-- The second half of `read_ctrl`: what the four pages say. `none` for a
journal never initialised, an impossible count or a torn body. -/
def decodeCtrl (buf : Buf ctrlSize) : Option Ctrl :=
  if buf.getLe 4 0 ≠ magic then none else
  let state := buf.getLe 4 8
  let storedCrc := buf.getLe 4 12
  let txid := buf.getLe 8 16
  let count := buf.getLe 8 24
  if jcap < count then none else
  let entries := (List.range count).map fun i => buf.getLe 8 (headerLen + i * 8)
  if crc32 (crcInput txid count entries) ≠ storedCrc then none else
  some ⟨state, count, entries⟩

/-- `read_ctrl` -/
def readCtrl : DevM D (Option Ctrl) := do
  let buf ← (List.range jctrlPages).foldlM (fun (buf : Buf ctrlSize) p => do
    let pg ← readPage (1 + p) (Buf.zero pageSize)
    pure (buf.put (p * pageSize) pg.toList)) (Buf.zero ctrlSize)
  pure (decodeCtrl buf)

/-- `&buf[p * PAGE..(p + 1) * PAGE]` -/
def ctrlPage (buf : Buf ctrlSize) (p : Nat) : Page :=
  fun j => buf.get (p * pageSize + j)

/-- `write_ctrl` -/
def writeCtrl (buf : Buf ctrlSize) : DevM D Unit :=
  (List.range jctrlPages).forM fun p => writePage (1 + p) (ctrlPage buf p)

/-- `init` -/
def init : DevM D Unit := do
  writeCtrl (renderCtrl [] 0 stateEmpty)
  BlockDevice.flush

/-- The redo loop of `recover`, over the entries with their positions. -/
def redo (entries : List (Nat × Nat)) : DevM D Unit :=
  entries.forM fun (target, i) => do
    let page ← readPage (jdataStartPage + i) (Buf.zero pageSize)
    writePage target page

/-- `recover`: replay a committed transaction that was not released. The
answer is whether a redo happened. -/
def recover : DevM D Bool := do
  match ← readCtrl with
  | none => pure false
  | some ctrl =>
      if ctrl.state ≠ stateCommitted then pure false else do
        redo ctrl.entries.zipIdx
        BlockDevice.flush
        writeCtrl (renderCtrl ctrl.entries 0 stateEmpty)
        BlockDevice.flush
        pure true

/-- The staging loop of `commit`: images to journal data pages. -/
def stage (images : List (Page × Nat)) : DevM D Unit :=
  images.forM fun (img, i) => writePage (jdataStartPage + i) img

/-- The install loop of `commit`: images to their home pages. -/
def install (dirty : List (Nat × Page)) : DevM D Unit :=
  dirty.forM fun (target, img) => writePage target img

/-- `commit`: make a set of `(target, image)` pairs durable as one. -/
def commit (txid : Nat) (dirty : List (Nat × Page)) : DevM D Unit :=
  if jcap < dirty.length then Fallible.throw .outOfSpace else do
    let entries := dirty.map (·.1)
    -- 1. Stage images, then the EMPTY control body.
    stage (dirty.map (·.2)).zipIdx
    writeCtrl (renderCtrl entries txid stateEmpty)
    BlockDevice.flush
    -- 2. Commit point.
    writeCtrl (renderCtrl entries txid stateCommitted)
    BlockDevice.flush
    -- 3. Install at home.
    install dirty
    BlockDevice.flush
    -- 4. Release the journal.
    writeCtrl (renderCtrl entries txid stateEmpty)
    BlockDevice.flush

end Journal

end TablesOS
