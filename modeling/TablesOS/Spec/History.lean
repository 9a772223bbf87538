import TablesOS.Spec.Database

/-!
# Histories

A store lives through calls on its handle and through mounts of its device, and
what it answers is its history. The ledger beside it lists the row ids that the
store has handed out for the tables that are there. A caller that keeps to its
ledger never names a row of one table as a row of another, and never makes up
an id; the pages that a made-up id names are not checked by the code.
-/

namespace TablesOS

/-- What happens to a store: an operation on its handle, or `Store::open` on
its device. -/
inductive StoreEvent (ι : Type) where
  | call (op : Op ι)
  | remount

/-- The row ids an event names are good ones for the table it names. -/
def StoreEvent.Uses {ι : Type} (good : String → ι → Prop) : StoreEvent ι → Prop
  | .call op => op.Uses good
  | .remount => True

/-- Row ids, each with the table it was handed out for. -/
abbrev Ledger (ι : Type) := List (String × ι)

namespace Ledger

variable {ι : Type}

/-- After an answer. The id of a deleted row stays, those of a dropped table go
with it. -/
def note (led : Ledger ι) : StoreEvent ι → Reply ι → Ledger ι
  | .call (.insert table _), .inserted id => led ++ [(table, id)]
  | .call (.dropTable name), _ => led.filter (·.1 ≠ name)
  | _, _ => led

/-- After an event that failed there is nothing to note. -/
def after {ε : Type} (led : Ledger ι) (e : StoreEvent ι) : Outcome ε (Reply ι) → Ledger ι
  | .ok a => led.note e a
  | _ => led

/-- The event names rows by the ids that were handed out for them. -/
abbrev Covers (led : Ledger ι) (e : StoreEvent ι) : Prop :=
  e.Uses fun table id => (table, id) ∈ led

end Ledger

/-! ## The store -/

namespace Store

variable {D : Type} [BlockDevice D]

/-- One event. -/
def happen (e : StoreEvent RowId) (pg : Pager D) : Outcome StoreError (Reply RowId) × Pager D :=
  match e with
  | .call op => run op pg
  | .remount => match openStore pg.dev with
      | (.ok pg', _) => (.ok .done, pg')
      | (.error err, dev) => (.err err, { pg with dev })

/-- What the events of a history answer, one after the other. -/
def history : List (StoreEvent RowId) → Pager D → List (Outcome StoreError (Reply RowId)) × Pager D
  | [], pg => ([], pg)
  | e :: es, pg =>
      let (o, pg) := happen e pg
      let (os, pg) := history es pg
      (o :: os, pg)

theorem history_cons (e : StoreEvent RowId) (es : List (StoreEvent RowId)) (pg : Pager D) :
    history (e :: es) pg = ((happen e pg).1 :: (history es (happen e pg).2).1,
      (history es (happen e pg).2).2) := rfl

/-- Every event of a history keeps to the ledger at its time. -/
def HandedOut : List (StoreEvent RowId) → Ledger RowId → Pager D → Prop
  | [], _, _ => True
  | e :: es, led, pg =>
      led.Covers e ∧ HandedOut es (led.after e (happen e pg).1) (happen e pg).2

/-- The ledger after a history. -/
def ledger : List (StoreEvent RowId) → Ledger RowId → Pager D → Ledger RowId
  | [], led, _ => led
  | e :: es, led, pg => ledger es (led.after e (happen e pg).1) (happen e pg).2

/-- The handles, each with its ledger, that come from formatting the device. -/
inductive Reachable (d : D) : Ledger RowId → Pager D → Prop where
  | format {pg : Pager D} {d' : D} (h : formatStore d = (.ok pg, d')) : Reachable d [] pg
  | event {led : Ledger RowId} {pg : Pager D} (h : Reachable d led pg) (e : StoreEvent RowId)
      (he : led.Covers e) : Reachable d (led.after e (happen e pg).1) (happen e pg).2

end Store

/-! ## The model -/

namespace Database

variable {ι : Type} [DecidableEq ι]

/-- One event. `fresh` is the id that an insert is to use; without one, the
store has found no room for the operation. -/
def happen (fresh : Option ι) (e : StoreEvent ι) (db : Database ι) :
    Except StoreError (Reply ι) × Database ι :=
  match e, fresh with
  | .remount, _ => (.ok .done, db)
  | .call op, some id => db.step id op
  | .call _, none => (.error .outOfSpace, db)

def history : List (StoreEvent ι × Option ι) → Database ι →
    List (Except StoreError (Reply ι)) × Database ι
  | [], db => ([], db)
  | (e, fresh) :: es, db =>
      let (r, db) := db.happen fresh e
      let (rs, db) := history es db
      (r :: rs, db)

theorem history_cons (e : StoreEvent ι) (fresh : Option ι) (es : List (StoreEvent ι × Option ι))
    (db : Database ι) : history ((e, fresh) :: es) db =
      ((db.happen fresh e).1 :: (history es (db.happen fresh e).2).1,
        (history es (db.happen fresh e).2).2) := rfl

/-- Only an operation that writes, and to which the model has no objection, finds
no room; and the id is not one that the table of an insert has given out
before. -/
structure New (db : Database ι) (e : StoreEvent ι) (fresh : Option ι) : Prop where
  room : fresh = none → ∃ op, e = .call op ∧ op.writes = true ∧
    ∀ id, ∃ a db', db.step id op = (.ok a, db')
  id : ∀ id, fresh = some id → ∀ table cells, e = .call (.insert table cells) →
    ∀ t ∈ db, t.schema.name = table → id ∉ t.issued

/-- Every id of a history is new at its time. -/
def AllNew : List (StoreEvent ι × Option ι) → Database ι → Prop
  | [], _ => True
  | (e, fresh) :: es, db => db.New e fresh ∧ AllNew es (db.happen fresh e).2

/-- Every id that a table has given out, with the name of the table. -/
def ids (db : Database ι) : Ledger ι :=
  db.flatMap fun t => t.issued.map fun id => (t.schema.name, id)

end Database

end TablesOS
