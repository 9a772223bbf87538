import TablesOS.Proofs.BrowserRows

/-!
# Reads that leave the store where it was

What a screen sees of the store is told by `Sees`; that it leaves even the
commit counter alone takes a word more. A reading call comes to what the model
answers and leaves the handle where it stood, and so does anything put together
from reading calls.
-/

namespace TablesOS

open Store Pager

namespace Asking

variable {led : Ledger RowId} {db : Database RowId} {α β : Type}

theorem bind_run {D : Type} [BlockDevice D] {m : Asking D α} {pg pg' : Pager D} {a : α}
    (h : m pg = .ok (a, pg')) (f : α → Asking D β) : (m >>= f) pg = f a pg' := by
  show (m pg >>= fun r => f r.1 r.2) = _
  rw [h]
  rfl

/-- Wherever the screen comes to an end, on a handle that stores `db`, it has
come to something with the property, and the handle is where it was. -/
def Peeks (led : Ledger RowId) (db : Database RowId) (m : Asking Disk α) (P : α → Prop) : Prop :=
  ∀ pg, Mirrored led pg db → ∀ a pg', m pg = .ok (a, pg') → Still pg pg' ∧ pg'.Clean ∧ P a

theorem peeks_pure {a : α} {P : α → Prop} (h : P a) : Peeks led db (pure a) P := by
  intro pg hpg a' pg' hrun
  cases hrun
  exact ⟨Still.refl pg, hpg.clean, h⟩

theorem Peeks.bind {m : Asking Disk α} {P : α → Prop} {f : α → Asking Disk β} {Q : β → Prop}
    (hm : Peeks led db m P) (hf : ∀ a, P a → Peeks led db (f a) Q) :
    Peeks led db (m >>= f) Q := by
  intro pg hpg b pg₂ hrun
  change (m pg >>= fun r => f r.1 r.2) = _ at hrun
  rcases hfirst : m pg with r | e | _ | _
  · obtain ⟨a, pg₁⟩ := r
    rw [hfirst] at hrun
    obtain ⟨hstill, hclean, hp⟩ := hm pg hpg a pg₁ hfirst
    obtain ⟨hstill', hclean', hq⟩ := hf a hp pg₁ (hpg.still hstill hclean) b pg₂ hrun
    exact ⟨hstill.trans hstill', hclean', hq⟩
  · exact e.elim
  · rw [hfirst] at hrun
    cases hrun
  · rw [hfirst] at hrun
    cases hrun

/-- A loop over a list whose rounds all peek. -/
theorem peeks_mapM {P : β → Prop} {xs : List α} {f : α → Asking Disk β}
    (h : ∀ x ∈ xs, Peeks led db (f x) P) : Peeks led db (xs.mapM f) (∀ y ∈ ·, P y) := by
  induction xs with
  | nil => exact peeks_pure fun y hy => absurd hy List.not_mem_nil
  | cons x xs ih =>
      rw [List.mapM_cons]
      refine (h x List.mem_cons_self).bind fun y hy => ?_
      refine (ih fun z hz => h z (List.mem_cons_of_mem _ hz)).bind fun ys hys => ?_
      refine peeks_pure fun z hz => ?_
      rcases List.mem_cons.mp hz with rfl | hz
      · exact hy
      · exact hys z hz

/-! ## Reads that come to an end -/

/-- On every handle that stores `db` the screen comes to `a`, and leaves the handle
where it was. -/
def Reads (led : Ledger RowId) (db : Database RowId) (m : Asking Disk α) (a : α) : Prop :=
  ∀ pg, Mirrored led pg db → ∃ pg', m pg = .ok (a, pg') ∧ Still pg pg' ∧ pg'.Clean

theorem reads_pure (a : α) : Reads led db (pure a) a :=
  fun pg h => ⟨pg, rfl, Still.refl pg, h.clean⟩

theorem Reads.bind {m : Asking Disk α} {a : α} {f : α → Asking Disk β} {b : β}
    (hm : Reads led db m a) (hf : Reads led db (f a) b) : Reads led db (m >>= f) b := by
  intro pg h
  obtain ⟨pg₁, hrun₁, hstill₁, hclean₁⟩ := hm pg h
  obtain ⟨pg₂, hrun₂, hstill₂, hclean₂⟩ := hf pg₁ (h.still hstill₁ hclean₁)
  exact ⟨pg₂, (bind_run hrun₁ f).trans hrun₂, hstill₁.trans hstill₂, hclean₂⟩

theorem Reads.peeks {m : Asking Disk α} {a : α} (h : Reads led db m a) :
    Peeks led db m (· = a) := by
  intro pg hpg b pg' hrun
  obtain ⟨pg₁, hrun₁, hstill, hclean⟩ := h pg hpg
  rw [hrun₁] at hrun
  cases hrun
  exact ⟨hstill, hclean, rfl⟩

/-- A reading call leaves the handle where it is. -/
theorem still_of_reads {op : Op RowId} (hr : op.writes = false) {pg : Pager Disk}
    (h : Mirrored led pg db) (he : led.Covers (.call op)) :
    Still pg (run op pg).2 ∧ (run op pg).2.Clean := by
  obtain ⟨f, -, -, hnext, -⟩ := happen_mirrored h (.call op) he
  refine ⟨(h.commits he).resolve_right fun hw => ?_, hnext.clean⟩
  rw [hr] at hw
  cases hw.1

/-- A call that reads. -/
theorem reads_ask {op : Op RowId} (hr : op.writes = false) (he : led.Covers (.call op)) :
    Reads led db (ask op) (db.step ⟨0, 0⟩ op).1 := by
  intro pg h
  obtain ⟨hstill, hclean⟩ := still_of_reads hr h he
  have hans : (run op pg).1 = Outcome.ofExcept (db.step ⟨0, 0⟩ op).1 := h.reads hr he ⟨0, 0⟩
  refine ⟨(run op pg).2, ?_, hstill, hclean⟩
  unfold ask
  rcases hop : run op pg with ⟨o, pg₁⟩
  rw [hop] at hans
  rw [show o = _ from hans]
  cases (db.step ⟨0, 0⟩ op).1 <;> rfl

/-! ## Tables and rows -/

/-- The table of that name, where there is one. -/
def tableOf (db : Database RowId) (table : String) : Option (TableState RowId) :=
  (db.lookup table).toOption

theorem tableOf_mem {table : String} {t : TableState RowId} (h : tableOf db table = some t) :
    t ∈ db ∧ t.schema.name = table := by
  unfold tableOf at h
  cases hlook : db.lookup table with
  | error e =>
      rw [hlook] at h
      cases h
  | ok u =>
      rw [hlook] at h
      cases h
      exact Database.lookup_mem hlook

theorem tableOf_of_mem (hi : db.Intact) {t : TableState RowId} (ht : t ∈ db) :
    tableOf db t.schema.name = some t := by
  rw [tableOf, Database.lookup_of_mem hi.names ht]
  rfl

theorem reads_scan (table : String) :
    Reads led db (scan table) ((tableOf db table).map (·.rows)) := by
  refine (@reads_ask led db (.scan table) rfl trivial).bind ?_
  have hstep : (db.step ⟨0, 0⟩ (.scan table)).1 = Reply.rows <$> (·.rows) <$> db.lookup table := rfl
  rw [hstep, tableOf]
  cases db.lookup table with
  | ok t => exact reads_pure _
  | error e => exact reads_pure _

theorem reads_getTable (table : String) :
    Reads led db (getTable table) ((tableOf db table).map (·.schema)) := by
  refine (@reads_ask led db (.getTable table) rfl trivial).bind ?_
  have hstep : (db.step ⟨0, 0⟩ (.getTable table)).1 =
      Reply.schema <$> (·.schema) <$> db.lookup table := rfl
  rw [hstep, tableOf]
  cases db.lookup table with
  | ok t => exact reads_pure _
  | error e => exact reads_pure _

end Asking

namespace Views

open Asking

variable {led : Ledger RowId} {db : Database RowId}

/-- Rows in the order of a sort. -/
def sortedBy (sort : Option (ℕ × Bool)) (rs : List (RowId × Row)) : List (RowId × Row) :=
  match sort with
  | some (ci, asc) => sortRows ci asc rs
  | none => rs

/-- Rows of a table with that schema that a filter keeps. -/
def filtered (t : Option Table) (filter : Option (String × Value)) (rs : List (RowId × Row)) :
    List (RowId × Row) :=
  match filter with
  | none => rs
  | some (col, val) => match t.bind (·.columnIndex col) with
    | some ci => rs.filter fun r => cellAt r.2 ci == some val
    | none => rs

/-- The rows of a query, of any table and any filter. -/
def queried (db : Database RowId) (table : String) (filter : Option (String × Value))
    (sort : Option (ℕ × Bool)) : List (RowId × Row) :=
  sortedBy sort (filtered ((tableOf db table).map (·.schema)) filter
    (((tableOf db table).map (·.rows)).getD []))

theorem reads_rows (table : String) (filter : Option (String × Value)) (sort : Option (ℕ × Bool)) :
    Reads led db (rows table filter sort) (queried db table filter sort) := by
  refine (reads_scan table).bind ?_
  have hkept : Reads led db
      (filterRows table filter (((tableOf db table).map (·.rows)).getD []))
      (filtered ((tableOf db table).map (·.schema)) filter
        (((tableOf db table).map (·.rows)).getD [])) := by
    cases filter with
    | none => exact reads_pure _
    | some f => exact (reads_getTable table).bind (reads_pure _)
  refine hkept.bind ?_
  cases sort with
  | none => exact reads_pure _
  | some s => exact reads_pure _

end Views

end TablesOS
