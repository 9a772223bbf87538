import TablesOS.Engine.Pager

/-!
# A pager without a clean cache

What the pager is for, said without its cache: a read goes to the staged
images and beneath them always to the device. `PageOp` lists what a caller of
a pager can do; `Pager.perform` does it on the pager of the source and
`PlainPager.perform` on this one.
-/

namespace TablesOS

/-- The operations on a pager. -/
inductive PageOp where
  | read (page : Nat)
  | write (page : Nat) (data : Page)
  | alloc
  | free (page : Nat)
  | commit
  | rollback

/-- What they answer. -/
inductive PageReply where
  | image (data : Page)
  | page (page : Nat)
  | done

structure PlainPager (D : Type) where
  dev : D
  sb : Superblock
  dirty : PageMap

namespace PlainPager

variable {D α : Type} [BlockDevice D]

def onDev (m : DevM D α) : Fallible StoreError (PlainPager D) α := fun pl =>
  let (r, dev) := m pl.dev
  (r, { pl with dev })

def readPage (page : Nat) : Fallible StoreError (PlainPager D) Page := fun pl =>
  match pl.dirty[page]? with
  | some p => (.ok p, pl)
  | none =>
      if pl.sb.totalPages ≤ page then (.error (.corrupt "page out of range"), pl)
      else onDev (Journal.readPage page zeroedPage) pl

def writePage (pl : PlainPager D) (page : Nat) (data : Page) : PlainPager D :=
  { pl with dirty := pl.dirty.insert page data }

def runProg : PageProg α → PlainPager D → Outcome StoreError α × PlainPager D
  | .done o, pl => (o, pl)
  | .read a k, pl => match readPage a pl with
      | (.ok x, pl) => runProg (k x) pl
      | (.error e, pl) => (.err e, pl)
  | .ctl k, pl => runProg (k pl.sb) pl
  | .write a x p, pl => runProg p (pl.writePage a x)
  | .setCtl sb p, pl => runProg p { pl with sb }

def commit : Fallible StoreError (PlainPager D) Unit := fun pl =>
  if pl.dirty.isEmpty then (.ok (), pl) else
  let txid := (pl.sb.generation + 1) % 2 ^ 64
  let sb := { pl.sb with generation := txid }
  match onDev (Journal.commit txid (Pager.batch sb pl.dirty)) pl with
  | (.error e, pl) => (.error e, pl)
  | (.ok (), pl) => (.ok (), { pl with sb, dirty := ∅ })

def rollback : Fallible StoreError (PlainPager D) Unit := fun pl =>
  match onDev Pager.readSuperblock { pl with dirty := ∅ } with
  | (.ok sb, pl) => (.ok (), { pl with sb })
  | (.error e, pl) => (.error e, pl)

/-- One operation. -/
def perform : PageOp → PlainPager D → Outcome StoreError PageReply × PlainPager D
  | .read page, pl => match readPage page pl with
      | (r, pl) => (PageReply.image <$> Outcome.ofExcept r, pl)
  | .write page data, pl => (.ok .done, pl.writePage page data)
  | .alloc, pl => match runProg Pager.allocPage pl with
      | (o, pl) => (PageReply.page <$> o, pl)
  | .free page, pl => match runProg (Pager.freePage page) pl with
      | (o, pl) => ((fun _ => PageReply.done) <$> o, pl)
  | .commit, pl => match commit pl with
      | (r, pl) => ((fun _ => PageReply.done) <$> Outcome.ofExcept r, pl)
  | .rollback, pl => match rollback pl with
      | (r, pl) => ((fun _ => PageReply.done) <$> Outcome.ofExcept r, pl)

/-- A sequence of operations, and what each of them answered. -/
def performAll : List PageOp → PlainPager D →
    List (Outcome StoreError PageReply) × PlainPager D
  | [], pl => ([], pl)
  | op :: ops, pl =>
      let (r, pl) := pl.perform op
      let (rs, pl) := performAll ops pl
      (r :: rs, pl)

end PlainPager

namespace Pager

variable {D : Type} [BlockDevice D]

/-- The same pager without its cache. -/
def plain (pg : Pager D) : PlainPager D := ⟨pg.dev, pg.sb, pg.dirty⟩

/-- One operation. -/
def perform : PageOp → Pager D → Outcome StoreError PageReply × Pager D
  | .read page, pg => match readPage page pg with
      | (r, pg) => (PageReply.image <$> Outcome.ofExcept r, pg)
  | .write page data, pg => (.ok .done, pg.writePage page data)
  | .alloc, pg => match runProg allocPage pg with
      | (o, pg) => (PageReply.page <$> o, pg)
  | .free page, pg => match runProg (freePage page) pg with
      | (o, pg) => ((fun _ => PageReply.done) <$> o, pg)
  | .commit, pg => match commit pg with
      | (r, pg) => ((fun _ => PageReply.done) <$> Outcome.ofExcept r, pg)
  | .rollback, pg => match rollback pg with
      | (r, pg) => ((fun _ => PageReply.done) <$> Outcome.ofExcept r, pg)

/-- A sequence of operations, and what each of them answered. -/
def performAll : List PageOp → Pager D → List (Outcome StoreError PageReply) × Pager D
  | [], pg => ([], pg)
  | op :: ops, pg =>
      let (r, pg) := pg.perform op
      let (rs, pg) := performAll ops pg
      (r :: rs, pg)

open Journal in
/-- The pages an operation takes or stages are data pages of the volume. A
read may name any page from the first data page on. -/
def OnData (pg : Pager D) : PageOp → Prop
  | .read page => firstDataPage ≤ page
  | .write page _ => firstDataPage ≤ page ∧ page < pg.sb.totalPages
  | .alloc => if pg.sb.freeHead = 0 then firstDataPage ≤ pg.sb.hwm
      else firstDataPage ≤ pg.sb.freeHead
  | .free page => firstDataPage ≤ page ∧ page < pg.sb.totalPages
  | .commit => True
  | .rollback => True

/-- Every operation of a sequence is on data pages, when its turn comes. -/
def AllOnData : List PageOp → Pager D → Prop
  | [], _ => True
  | op :: ops, pg => pg.OnData op ∧ AllOnData ops (pg.perform op).2

end Pager

end TablesOS
