import TablesOS.Base.Program
import TablesOS.Engine.Journal

/-!
# The pager (`pager.rs`)

The superblock, the staging set of the one transaction in flight, the cache of
clean pages, and commit and rollback through the journal. The allocator is
written as programs over pages and the superblock: `allocPage` and `freePage`
touch nothing else.

The commit counter is a `u64`. `commit` takes it modulo `2 ^ 64`, so that runs
of any length have a next state; the kernel's build checks the sum and panics
where it overflows, which is `commitChecked`. The two differ at that commit
alone.
-/

namespace TablesOS

/-- `struct Superblock` -/
structure Superblock where
  totalPages : Nat
  /-- Next never-used page. -/
  hwm : Nat
  /-- Head of the free-page list, 0 for none. -/
  freeHead : Nat
  /-- Head of the catalog chain, 0 for no tables. -/
  catalogHead : Nat
  generation : Nat
  deriving DecidableEq, Repr

namespace Superblock

/-- `SB_MAGIC` -/
abbrev sbMagic : Nat := 0x534c4254

/-- `SB_VERSION` -/
abbrev sbVersion : Nat := 1

/-- The fields of `encode`, before the checksum is filled in. -/
def encodeFields (sb : Superblock) : Page :=
  let p := Buf.zero pageSize
  let p := p.putLe 4 0 sbMagic
  let p := p.putLe 4 4 sbVersion
  let p := p.putLe 4 8 pageSize
  let p := p.putLe 8 16 sb.totalPages
  let p := p.putLe 8 24 sb.hwm
  let p := p.putLe 8 32 sb.freeHead
  let p := p.putLe 8 40 sb.catalogHead
  p.putLe 8 48 sb.generation

/-- `Superblock::encode` -/
def encode (sb : Superblock) : Page :=
  let p := sb.encodeFields
  p.putLe 4 12 (Journal.crc32 (p.slice 16 40))

/-- `Superblock::decode` -/
def decode (p : Page) : Except StoreError Superblock :=
  if p.getLe 4 0 ≠ sbMagic then .error (.corrupt "not a TablesOS volume")
  else if Journal.crc32 (p.slice 16 40) ≠ p.getLe 4 12 then
    .error (.corrupt "superblock checksum")
  else .ok
    { totalPages := p.getLe 8 16
      hwm := p.getLe 8 24
      freeHead := p.getLe 8 32
      catalogHead := p.getLe 8 40
      generation := p.getLe 8 48 }

end Superblock

/-- A page is overwritten or read whole. -/
abbrev PageMap := Std.TreeMap Nat Page

/-- `zeroed_page` -/
def zeroedPage : Page := Buf.zero pageSize

/-- `struct Pager` -/
structure Pager (D : Type) where
  dev : D
  sb : Superblock
  dirty : PageMap
  cache : PageMap

namespace Pager

open Journal

variable {D : Type} [BlockDevice D]

/-- `CACHE_MAX` -/
abbrev cacheMax : Nat := 8192

abbrev PagerM (D α : Type) := Fallible StoreError (Pager D) α

/-- A device operation, on the pager's device. -/
def onDev {α : Type} (m : DevM D α) : PagerM D α := fun pg =>
  let (r, dev) := m pg.dev
  (r, { pg with dev })

/-- Insert into the clean cache, dropping it first when it is full. -/
def cacheInsert (cache : PageMap) (page : Nat) (img : Page) : PageMap :=
  (if cacheMax ≤ cache.size then ∅ else cache).insert page img

/-- `Pager::format` -/
def format : Fallible StoreError D (Pager D) := do
  let totalPages ← Fallible.gets fun dev : D =>
    BlockDevice.sectorCount dev / pageSectors
  if totalPages ≤ firstDataPage + 1 then Fallible.throw .outOfSpace else do
    Journal.init
    let sb : Superblock :=
      { totalPages, hwm := firstDataPage, freeHead := 0, catalogHead := 0,
        generation := 1 }
    Journal.writePage 0 sb.encode
    BlockDevice.flush
    Fallible.gets fun dev => ⟨dev, sb, ∅, ∅⟩

/-- Read and check the superblock. -/
def readSuperblock : DevM D Superblock := do
  let p ← Journal.readPage 0 zeroedPage
  match Superblock.decode p with
  | .ok sb => pure sb
  | .error e => Fallible.throw e

/-- `Pager::mount` -/
def mount : Fallible StoreError D (Pager D) := do
  let _ ← recover
  let sb ← readSuperblock
  Fallible.gets fun dev => ⟨dev, sb, ∅, ∅⟩

/-- `read_page`: the staged image, the clean cache, then the device. -/
def readPage (page : Nat) : PagerM D Page := fun pg =>
  match pg.dirty[page]? with
  | some p => (.ok p, pg)
  | none =>
      match pg.cache[page]? with
      | some p => (.ok p, pg)
      | none =>
          if pg.sb.totalPages ≤ page then
            (.error (.corrupt "page out of range"), pg)
          else
            match onDev (Journal.readPage page zeroedPage) pg with
            | (.ok buf, pg) =>
                (.ok buf, { pg with cache := cacheInsert pg.cache page buf })
            | (.error e, pg) => (.error e, pg)

/-- `write_page` -/
def writePage (pg : Pager D) (page : Nat) (data : Page) : Pager D :=
  { pg with dirty := pg.dirty.insert page data }

/-- The write-set of a commit: the superblock, then the staged pages. -/
def batch (sb : Superblock) (dirty : PageMap) : List (Nat × Page) :=
  (0, sb.encode) :: dirty.toList

/-- `commit`, with the counter modulo `2 ^ 64`. -/
def commit : PagerM D Unit := fun pg =>
  if pg.dirty.isEmpty then (.ok (), pg) else
  let txid := (pg.sb.generation + 1) % 2 ^ 64
  let sb := { pg.sb with generation := txid }
  match onDev (Journal.commit txid (batch sb pg.dirty)) pg with
  | (.error e, pg) => (.error e, pg)
  | (.ok (), pg) =>
      let cache := pg.dirty.toList.foldl (fun cache p =>
        cacheInsert cache p.1 p.2) pg.cache
      (.ok (), { pg with sb, cache, dirty := ∅ })

/-- `commit` as the kernel is built: `self.sb.generation + 1` is checked. -/
def commitChecked (pg : Pager D) : Outcome StoreError Unit × Pager D :=
  if pg.dirty.isEmpty = false ∧ 2 ^ 64 ≤ pg.sb.generation + 1 then (.panic, pg)
  else (Outcome.ofExcept (commit pg).1, (commit pg).2)

/-- `rollback` -/
def rollback : PagerM D Unit := fun pg =>
  match onDev readSuperblock { pg with dirty := ∅ } with
  | (.ok sb, pg) => (.ok (), { pg with sb })
  | (.error e, pg) => (.error e, pg)

end Pager

/-! ## Programs over pages -/

abbrev PageQuery (α : Type) := Query Superblock Page StoreError α

abbrev PageProg (α : Type) := Prog Superblock Page StoreError α

namespace Pager

variable {D : Type} [BlockDevice D] {α : Type}

/-- A program on the pager: every read is a `read_page`, every write a
`write_page`, and the control record is `pager.sb`. -/
def runProg : PageProg α → Pager D → Outcome StoreError α × Pager D
  | .done o, pg => (o, pg)
  | .read a k, pg => match readPage a pg with
      | (.ok x, pg) => runProg (k x) pg
      | (.error e, pg) => (.err e, pg)
  | .ctl k, pg => runProg (k pg.sb) pg
  | .write a x p, pg => runProg p (pg.writePage a x)
  | .setCtl sb p, pg => runProg p { pg with sb }

/-- `self.sb` -/
def getSb : PageQuery Superblock := Query.control

/-- `self.read_page(page)?` -/
def getPage (page : Nat) : PageQuery Page := Query.fetch page

/-- `alloc_page`: reuse a freed page if there is one, else extend the
high-water mark. The page is staged as zeros. -/
def allocPage : PageProg Nat := do
  let sb ← getSb
  if sb.freeHead ≠ 0 then do
    let img ← getPage sb.freeHead
    Prog.setControl { sb with freeHead := img.getLe 8 0 }
    Prog.stage sb.freeHead zeroedPage
    pure sb.freeHead
  else if sb.hwm < sb.totalPages then do
    Prog.setControl { sb with hwm := sb.hwm + 1 }
    Prog.stage sb.hwm zeroedPage
    pure sb.hwm
  else Prog.fail .outOfSpace

/-- `free_page`: link the page in front of the free list. -/
def freePage (page : Nat) : PageProg Unit := do
  let sb ← getSb
  Prog.stage page (zeroedPage.putLe 8 0 sb.freeHead)
  Prog.setControl { sb with freeHead := page }

end Pager

end TablesOS
