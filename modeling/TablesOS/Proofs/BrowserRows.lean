import TablesOS.Base.Sorting
import TablesOS.Kernel.Browser
import TablesOS.Proofs.RowIds
import TablesOS.Proofs.ValueOrder
import Mathlib.Data.List.Permutation

/-!
# The rows of a browser

A screen reads the store through calls, and what it comes to is told by the
model (`Sees`): each call answers what the model answers and leaves a handle
that stores the same tables. With that, the rows of a browser are those of the
model, filtered and then sorted by a comparison that is a total preorder, so
that what is known of stable sorting applies.
-/

namespace TablesOS

open Store

/-! ## What a screen sees of the store -/

namespace Asking

variable {led : Ledger RowId} {db : Database RowId} {α β : Type}

/-- On every handle that stores `db` the screen comes to `a`, and the handle still
does. -/
def Sees (led : Ledger RowId) (db : Database RowId) (m : Asking Disk α) (a : α) : Prop :=
  ∀ pg, Mirrored led pg db → ∃ pg', m pg = .ok (a, pg') ∧ Mirrored led pg' db

theorem sees_pure (a : α) : Sees led db (pure a) a := fun pg h => ⟨pg, rfl, h⟩

theorem Sees.bind {m : Asking Disk α} {a : α} {f : α → Asking Disk β} {b : β}
    (hm : Sees led db m a) (hf : Sees led db (f a) b) : Sees led db (m >>= f) b := by
  intro pg h
  obtain ⟨pg₁, hrun₁, h₁⟩ := hm pg h
  obtain ⟨pg₂, hrun₂, h₂⟩ := hf pg₁ h₁
  refine ⟨pg₂, ?_, h₂⟩
  show (m pg >>= fun r => f r.1 r.2) = _
  rw [hrun₁]
  exact hrun₂

/-- A call that reads. -/
theorem sees_ask {op : Op RowId} (hr : op.writes = false) (he : led.Covers (.call op)) :
    Sees led db (ask op) (db.step ⟨0, 0⟩ op).1 := by
  intro pg h
  have hreads := h.reads hr he ⟨0, 0⟩
  obtain ⟨f, -, -, hnext, -⟩ := happen_mirrored h (.call op) he
  have hsame : (db.happen f (.call op)).2 = db := by
    cases f with
    | none => rfl
    | some id => cases op <;> first | rfl | cases hr
  have hled : led.after (.call op) (happen (.call op) pg).1 = led := by
    cases (happen (.call op) pg).1 with
    | ok a => cases op <;> first | rfl | cases hr
    | _ => rfl
  rw [hsame, hled] at hnext
  refine ⟨(run op pg).2, ?_, hnext⟩
  unfold ask
  rcases hrun : run op pg with ⟨o, pg'⟩
  rw [hrun] at hreads
  rw [show o = _ from hreads]
  cases (db.step ⟨0, 0⟩ op).1 <;> rfl

variable {t : TableState RowId}

theorem sees_scan (hi : db.Intact) (ht : t ∈ db) :
    Sees led db (scan t.schema.name) (some t.rows) := by
  have hstep : (db.step ⟨0, 0⟩ (.scan t.schema.name)).1 = .ok (.rows t.rows) := by
    show Reply.rows <$> ((·.rows) <$> db.lookup t.schema.name) = _
    rw [Database.lookup_of_mem hi.names ht]
    rfl
  refine (@sees_ask _ db (.scan t.schema.name) rfl trivial).bind ?_
  rw [hstep]
  exact sees_pure _

theorem sees_getTable (hi : db.Intact) (ht : t ∈ db) :
    Sees led db (getTable t.schema.name) (some t.schema) := by
  have hstep : (db.step ⟨0, 0⟩ (.getTable t.schema.name)).1 = .ok (.schema t.schema) := by
    show Reply.schema <$> ((·.schema) <$> db.lookup t.schema.name) = _
    rw [Database.lookup_of_mem hi.names ht]
    rfl
  refine (@sees_ask _ db (.getTable t.schema.name) rfl trivial).bind ?_
  rw [hstep]
  exact sees_pure _

end Asking

namespace Views

open Asking

variable {led : Ledger RowId} {pg : Pager Disk} {db : Database RowId} {t : TableState RowId}

/-! ## The comparison -/

instance valueCmp_trans : Std.TransCmp Value.cmp where
  eq_swap {a b} := Value.cmp_swap b a
  isLE_trans {a b c} hab hbc := by
    rw [Ordering.isLE_iff_ne_gt] at hab hbc ⊢
    exact Value.cmp_trans hab hbc

theorem compareCells_eq (asc : Bool) : compareCells asc =
    Sorting.absentLast (if asc then Value.cmp else fun x y => y.cmp x) := by
  funext a b
  cases asc <;> cases a <;> cases b <;> rfl

instance compareCells_trans (asc : Bool) : Std.TransCmp (compareCells asc) := by
  rw [compareCells_eq]
  cases asc with
  | true => exact @Sorting.absentLast_trans _ Value.cmp _
  | false => exact @Sorting.absentLast_trans _ (fun x y : Value => y.cmp x) Std.TransCmp.opposite

theorem compareCells_self (asc : Bool) (x : Option Value) : compareCells asc x x = .eq :=
  Std.ReflCmp.compare_self

/-! ## Filter and sort -/

/-- The row passes the filter of a browser. -/
def passes (t : Table) (filter : Option (String × Value)) (r : RowId × Row) : Bool :=
  match filter with
  | none => true
  | some (col, val) => t.cell r.2 col == some val

/-- The rows are in the order of column `ci`: those with a value first, the values
ascending or descending, and rows with the same cell as they were scanned. -/
structure InOrder (ci : Nat) (asc : Bool) (scanned rs : List (RowId × Row)) : Prop where
  ordered : rs.Pairwise fun a b => ∀ y, cellAt b.2 ci = some y →
    ∃ x, cellAt a.2 ci = some x ∧ if asc then x.cmp y ≠ .gt else y.cmp x ≠ .gt
  stable : ∀ x, rs.filter (fun r => cellAt r.2 ci == x) = scanned.filter fun r => cellAt r.2 ci == x

theorem sortRows_inOrder (ci : Nat) (asc : Bool) (rs : List (RowId × Row)) :
    InOrder ci asc rs (sortRows ci asc rs) := by
  constructor
  · refine (Sorting.byKey_pairwise (fun r : RowId × Row => cellAt r.2 ci) rs).imp ?_
    intro a b hab y hy
    rw [hy] at hab
    cases hx : cellAt a.2 ci with
    | none =>
        rw [hx] at hab
        cases hab
    | some x =>
        rw [hx] at hab
        refine ⟨x, rfl, ?_⟩
        cases asc with
        | true => exact Ordering.isLE_iff_ne_gt.mp hab
        | false => exact Ordering.isLE_iff_ne_gt.mp hab
  · intro x
    refine Sorting.byKey_stable (fun r : RowId × Row => cellAt r.2 ci) rs fun a b ha hb => ?_
    rw [eq_of_beq ha, eq_of_beq hb, compareCells_self]
    rfl

/-- The rows a browser shows of the table. -/
def shownRows (t : TableState RowId) (filter : Option (String × Value))
    (sort : Option (Nat × Bool)) : List (RowId × Row) :=
  let kept := t.rows.filter (passes t.schema filter)
  sort.elim kept fun s => sortRows s.1 s.2 kept

theorem sees_rows (hi : db.Intact) (ht : t ∈ db) {filter : Option (String × Value)}
    (hf : ∀ f, filter = some f → f.1 ∈ t.schema.names) (sort : Option (Nat × Bool)) :
    Sees led db (rows t.schema.name filter sort) (shownRows t filter sort) := by
  have hkept : Sees led db (filterRows t.schema.name filter t.rows)
      (t.rows.filter (passes t.schema filter)) := by
    cases filter with
    | none =>
        rw [show passes t.schema none = fun _ => true from rfl, List.filter_true]
        exact sees_pure _
    | some f =>
        obtain ⟨c, hc, hname⟩ := List.mem_map.mp (hf f rfl)
        obtain ⟨ci, hci⟩ := Table.columnIndex_of_mem hc
        rw [hname] at hci
        refine (sees_getTable hi ht).bind ?_
        rw [Option.bind_some, hci]
        have hpass : (fun r : RowId × Row => cellAt r.2 ci == some f.2) =
            passes t.schema (some f) := by
          funext r
          rw [passes, Table.cell_eq hci]
        exact hpass ▸ sees_pure _
  refine (sees_scan hi ht).bind (hkept.bind ?_)
  cases sort with
  | none => exact sees_pure _
  | some s => exact sees_pure _

theorem shownRows_perm (t : TableState RowId) (filter : Option (String × Value))
    (sort : Option (Nat × Bool)) :
    (shownRows t filter sort).Perm (t.rows.filter (passes t.schema filter)) := by
  cases sort with
  | none => exact List.Perm.refl _
  | some s => exact Sorting.byKey_perm _ _ _

/-- The rows of a browser are the scanned ones that pass its filter, in the order
of its sort. -/
theorem browser_rows {d : Disk} (hq : d.Quiet) (h : Reachable d led pg) :
    (∀ asc, Std.TransCmp (compareCells asc) ∧
      ∀ x y, compareCells asc x y = .eq ↔ x = y) ∧
    ∃ db, Mirrored led pg db ∧ ∀ t ∈ db, ∀ filter : Option (String × Value),
      (∀ f, filter = some f → f.1 ∈ t.schema.names) → ∀ sort : Option (Nat × Bool),
        (run (.scan t.schema.name) pg).1 = .ok (.rows t.rows) ∧
        ∃ rs pg', rows t.schema.name filter sort pg = .ok (rs, pg') ∧
          rs.Perm (t.rows.filter (passes t.schema filter)) ∧
          (sort = none → rs = t.rows.filter (passes t.schema filter)) ∧
          ∀ ci asc, sort = some (ci, asc) →
            InOrder ci asc (t.rows.filter (passes t.schema filter)) rs := by
  refine ⟨fun asc => ⟨compareCells_trans asc, fun x y => ?_⟩, ?_⟩
  · constructor
    · intro heq
      cases x with
      | none => cases y <;> first | rfl | cases heq
      | some x =>
          cases y with
          | none => cases heq
          | some y =>
              cases asc with
              | true => exact congrArg some ((Value.cmp_eq x y).mp heq)
              | false => exact congrArg some ((Value.cmp_eq y x).mp heq).symm
    · rintro rfl
      exact compareCells_self asc x
  · obtain ⟨db, hdb⟩ := h.mirrored hq
    refine ⟨db, hdb, fun t ht filter hf sort => ⟨hdb.scan ht, ?_⟩⟩
    obtain ⟨pg', hrun, -⟩ := sees_rows hdb.intact ht hf sort pg hdb
    refine ⟨_, pg', hrun, shownRows_perm t filter sort, ?_, ?_⟩
    · rintro rfl
      rfl
    · rintro ci asc rfl
      exact sortRows_inOrder ci asc _

theorem browser_rows_family : ∃ (ann bob : RowId) (pg pg' : Pager Disk)
    (rs : List (RowId × Row)), rows "people" none (some (0, false)) pg = .ok (rs, pg') ∧
      rs = [(bob, [some (.str "Bob"), some (.str "Ann")]), (ann, [some (.str "Ann"), none])] := by
  obtain ⟨ann, bob, pg, h⟩ := family_seated
  obtain ⟨-, db, hdb, hall⟩ := browser_rows wideDisk_quiet h.reach
  obtain ⟨t, ht, hname, hrows⟩ := hdb.of_scan (h.mirrored.scan (List.mem_singleton_self _))
  obtain ⟨-, rs, pg', hrun, hperm, -, horder⟩ := hall t ht none (fun f hf => by cases hf)
    (some (0, false))
  rw [show t.schema.name = "people" from hname] at hrun
  refine ⟨ann, bob, pg, pg', rs, hrun, ?_⟩
  have hkept : t.rows.filter (passes t.schema none) =
      [(ann, [some (.str "Ann"), none]), (bob, [some (.str "Bob"), some (.str "Ann")])] := by
    rw [hrows]
    rfl
  rw [hkept] at hperm
  rcases List.perm_pair.mp hperm with hrs | hrs
  · -- ascending order is refused: `Ann` stands before `Bob`
    have hpair := (horder 0 false rfl).ordered
    rw [hrs] at hpair
    obtain ⟨x, hx, hle⟩ := List.rel_of_pairwise_cons hpair (List.mem_singleton_self _) _ rfl
    cases hx
    exact absurd (by decide) hle
  · exact hrs

end Views

end TablesOS
