import TablesOS.Spec.History

/-!
# Lives with faults and restarts

An operation may meet a device that fails: some of its calls report an error,
or from one call on all of them do, which is a power cut. Then the machine
starts again. Of the writes since the last flush each may be on the medium or
not; the mount may fail in the same way, any number of times, until one
completes. A life is what a store goes through in this manner, and what it
tells is a list of chapters.

The model has no faults. An operation that was cut off has happened or it has
not, and it is told as one or the other.
-/

namespace TablesOS

/-- An event on a device that works, or an operation that a restart followed,
each with its answer. -/
inductive Chapter (ι : Type) where
  | event (e : StoreEvent ι) (o : Outcome StoreError (Reply ι))
  | cut (op : Op ι) (o : Outcome StoreError (Reply ι))

namespace Store

open Disk

/-- The handle, with another plan of faults from here on. -/
def withPlan (pg : Pager Disk) (plan : Nat → Bool) : Pager Disk :=
  { pg with dev := { pg.dev with plan } }

/-- Mounts of the medium that survived: each may fail and be cut off, and the
last one completes on a device that works. -/
inductive Restarts (n : Nat) (h : n < 2 ^ 64) : (Nat → Sector) → Pager Disk → Prop where
  | again {W W' : Nat → Sector} {plan : Nat → Bool} {r : Except StoreError (Pager Disk)} {d : Disk}
      {pg : Pager Disk} (hrun : openStore (attach n h W plan) = (r, d))
      (hs : d.medium.Survives W') (hr : Restarts n h W' pg) : Restarts n h W pg
  | mounted {W : Nat → Sector} {pg : Pager Disk} {d : Disk}
      (hrun : openStore (attach n h W noFaults) = (.ok pg, d)) : Restarts n h W pg

/-- The row ids that the scans of a handle's tables list. -/
def listed (pg : Pager Disk) : Ledger RowId :=
  match (run .listTables pg).1 with
  | .ok (.tables infos) => infos.flatMap fun info =>
      match (run (.scan info.name) pg).1 with
      | .ok (.rows rows) => rows.map fun r => (info.name, r.1)
      | _ => []
  | _ => []

/-- What a handle, with the row ids that its caller knows, goes through. After
a restart the caller knows the ids that are listed. -/
inductive Lives :
    Ledger RowId → Pager Disk → List (Chapter RowId) → Ledger RowId → Pager Disk → Prop where
  | here (led : Ledger RowId) (pg : Pager Disk) : Lives led pg [] led pg
  | event {led led' : Ledger RowId} {pg pg' : Pager Disk} {cs : List (Chapter RowId)}
      (e : StoreEvent RowId) (he : led.Covers e)
      (h : Lives (led.after e (happen e pg).1) (happen e pg).2 cs led' pg') :
      Lives led pg (.event e (happen e pg).1 :: cs) led' pg'
  | cut {led led' : Ledger RowId} {pg pg₁ pg₂ pg' : Pager Disk} {cs : List (Chapter RowId)}
      (op : Op RowId) (plan : Nat → Bool) {o : Outcome StoreError (Reply RowId)}
      {W : Nat → Sector} (he : led.Covers (.call op)) (hrun : run op (withPlan pg plan) = (o, pg₁))
      (hs : pg₁.dev.medium.Survives W) (hr : Restarts pg.dev.sectors pg.dev.sectors_lt W pg₂)
      (h : Lives (listed pg₂) pg₂ cs led' pg') : Lives led pg (.cut op o :: cs) led' pg'

end Store

namespace Database

variable {ι : Type} [DecidableEq ι]

/-- What the model tells. An operation that answered `Ok` has happened; one that
answered `Err` before a restart has happened or not. -/
inductive Tells : Database ι → List (Chapter ι) → Database ι → Prop where
  | here (db : Database ι) : Tells db [] db
  | event {db db' : Database ι} {cs : List (Chapter ι)} {e : StoreEvent ι} {fresh : Option ι}
      {o : Outcome StoreError (Reply ι)} (hn : db.New e fresh)
      (ho : o = Outcome.ofExcept (db.happen fresh e).1) (h : Tells (db.happen fresh e).2 cs db') :
      Tells db (.event e o :: cs) db'
  | undone {db db' : Database ι} {cs : List (Chapter ι)} {op : Op ι} {e : StoreError}
      (h : Tells db cs db') : Tells db (.cut op (.err e) :: cs) db'
  | done {db db₁ db' : Database ι} {cs : List (Chapter ι)} {op : Op ι} {fresh : ι} {a : Reply ι}
      {o : Outcome StoreError (Reply ι)} (hn : db.New (.call op) (some fresh))
      (hstep : db.step fresh op = (.ok a, db₁)) (ho : o = .ok a ∨ ∃ e, o = .err e)
      (h : Tells db₁ cs db') : Tells db (.cut op o :: cs) db'

end Database

end TablesOS
