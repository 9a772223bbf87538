import TablesOS.Proofs.CodecRoundTrip
import TablesOS.Proofs.Heap
import TablesOS.Spec.Database
import Mathlib.Algebra.BigOperators.Group.Multiset.Basic
import Mathlib.Data.List.ReduceOption

/-!
# How a database lies on the pages

A stored table is a schema chain, an index chain and one chain for each live
row; a slot of the index holds the head of a row or 0 where the row is gone.
The catalog chain lists the tables. `Stored.state` reads off the table of the
model, and `Readable` says that the pages hold the catalog and the tables of a
list and nothing else. In a readable state every query answers what the model
answers.
-/

namespace TablesOS

open Prog Codec Journal

namespace Store

open Pager

/-! ## Stored tables -/

/-- A table and the pages it lies on. A slot is empty once its row is
deleted. -/
structure Stored where
  schema : Table
  schemaPages : List Nat
  indexPages : List Nat
  slots : List (Option (List Nat × Row))

namespace Stored

/-- What the slot of a row holds. -/
def headOf : Option (List Nat × Row) → Nat
  | none => 0
  | some r => r.1.headD 0

/-- The slots as the index chain has them. -/
def heads (t : Stored) : List Nat := t.slots.map headOf

def rowObj (r : List Nat × Row) : Obj := .blob r.1 (encodeRow r.2)

/-- The chains of the rows. -/
def rowObjs (slots : List (Option (List Nat × Row))) : Multiset Obj :=
  ((slots.reduceOption.map rowObj : List Obj) : Multiset Obj)

def objs (t : Stored) : Multiset Obj :=
  .blob t.schemaPages t.schema.encode ::ₘ .index t.indexPages t.heads ::ₘ rowObjs t.slots

/-- The live rows: id, pages and cells. -/
def live (t : Stored) : List (RowId × List Nat × Row) :=
  (List.range t.slots.length).filterMap fun k =>
    (t.slots.getD k none).map fun r => (rowIdAt t.indexPages k, r)

/-- The catalog entry. -/
def entry (t : Stored) : CatEntry :=
  ⟨t.schema.name, t.schemaPages.headD 0, t.indexPages.headD 0, t.live.length⟩

/-- The table of the model. -/
def state (t : Stored) : TableState RowId :=
  ⟨t.schema, t.live.map fun r => (r.1, r.2.2),
    (List.range t.slots.length).map (rowIdAt t.indexPages)⟩

@[simp] theorem state_schema (t : Stored) : t.state.schema = t.schema := rfl

@[simp] theorem entry_name (t : Stored) : t.entry.name = t.schema.name := rfl

end Stored

/-- The catalog chain; there is none before the first table. -/
def catalogObjs (cat : List Nat) (L : List Stored) : Multiset Obj :=
  if cat = [] then 0 else {.blob cat (encodeCatalog (L.map Stored.entry))}

/-- All chains of the tables. -/
def tableObjs (L : List Stored) : Multiset Obj := (L.map Stored.objs).sum

@[simp] theorem tableObjs_nil : tableObjs [] = 0 := rfl

@[simp] theorem tableObjs_cons (t : Stored) (L : List Stored) :
    tableObjs (t :: L) = t.objs + tableObjs L := by
  rw [tableObjs, List.map_cons, List.sum_cons]
  rfl

@[simp] theorem tableObjs_append (A B : List Stored) :
    tableObjs (A ++ B) = tableObjs A + tableObjs B := by
  rw [tableObjs, List.map_append, List.sum_append]
  rfl

theorem objs_le_tableObjs {t : Stored} {L : List Stored} (h : t ∈ L) :
    t.objs ≤ tableObjs L := by
  obtain ⟨A, B, rfl⟩ := List.append_of_mem h
  rw [tableObjs_append, tableObjs_cons]
  exact le_trans (Multiset.le_add_right _ _) (Multiset.le_add_left _ _)

/-- The tables as the model has them. -/
def dbOf (L : List Stored) : Database RowId := L.map Stored.state

/-- The pages hold the catalog and the tables of `L`, and every byte string on
them is one that a `u64` can measure. -/
structure Readable (V : Volume) (s : Staged Superblock Page) (avail cat : List Nat)
    (L : List Stored) : Prop where
  holds : Holds V s avail (catalogObjs cat L + tableObjs L)
  catalog : s.ctl.catalogHead = cat.headD 0
  empty : cat = [] → L = []
  small : ∀ ps bytes, Obj.blob ps bytes ∈ catalogObjs cat L + tableObjs L →
    bytes.length < 2 ^ 64

/-! ## Counting -/

theorem foot_ne_nil {V : Volume} {s : Staged Superblock Page} {avail : List Nat}
    {objs : Multiset Obj} (h : Holds V s avail objs) {o : Obj} (ho : o ∈ objs)
    (hraw : ∀ ps, o ≠ .raw ps) : objects.foot o ≠ [] := by
  have hok := h.owned.ok o ho
  cases o with
  | raw ps => exact absurd rfl (hraw ps)
  | blob ps bytes => exact Linked.ne_nil hok
  | index ps slots => exact Linked.ne_nil hok

/-- There are no more chains than pages. -/
theorem card_le_total {V : Volume} {s : Staged Superblock Page} {avail : List Nat}
    {objs : Multiset Obj} (h : Holds V s avail objs) {M : Multiset Obj} (hM : M ≤ objs)
    (hraw : ∀ o ∈ M, ∀ ps, o ≠ .raw ps) : Multiset.card M ≤ V.total := by
  have hfeet : Multiset.card M ≤ Multiset.card (objects.feet M) := by
    have hne : ∀ o ∈ M, objects.foot o ≠ [] := fun o ho =>
      foot_ne_nil h (Multiset.mem_of_le hM ho) (hraw o ho)
    clear hraw hM
    induction M using Multiset.induction with
    | empty => simp
    | cons o M ih =>
        have hpos := List.length_pos_of_ne_nil (hne o (Multiset.mem_cons_self _ _))
        have hrest := ih fun x hx => hne x (Multiset.mem_cons_of_mem hx)
        rw [Objects.feet_cons, Multiset.card_cons, Multiset.card_add, Multiset.coe_card]
        omega
  have hle : objects.feet M ≤ dataPages V.total := by
    obtain ⟨N, rfl⟩ := Multiset.le_iff_exists_add.mp hM
    rw [← h.owned.cover, Objects.feet_add]
    exact le_trans (Multiset.le_add_right _ _) (Multiset.le_add_left _ _)
  have hcard := Multiset.card_le_card hle
  rw [dataPages, Multiset.coe_card, List.length_range'] at hcard
  omega

theorem card_rowObjs (slots : List (Option (List Nat × Row))) :
    Multiset.card (Stored.rowObjs slots) = slots.reduceOption.length := by
  rw [Stored.rowObjs, Multiset.coe_card, List.length_map]

/-- The slots with a row in them. -/
theorem filterMap_range_getD {α β : Type} (f : Nat → α → β) (xs : List (Option α)) :
    ((List.range xs.length).filterMap fun k => (xs.getD k none).map (f k)).length =
      xs.reduceOption.length := by
  induction xs generalizing f with
  | nil => rfl
  | cons x xs ih =>
      rw [List.length_cons, List.range_succ_eq_map, List.filterMap_cons, List.filterMap_map]
      have hrest := ih fun k => f (k + 1)
      cases x with
      | none =>
          rw [List.reduceOption_cons_of_none]
          exact hrest
      | some a =>
          rw [List.reduceOption_cons_of_some]
          exact congrArg (· + 1) hrest

theorem length_live (t : Stored) : t.live.length = t.slots.reduceOption.length :=
  filterMap_range_getD (fun k r => (rowIdAt t.indexPages k, r)) t.slots

/-! ## The catalog -/

theorem reads_catEntry {e : CatEntry} (hlen : (putCatEntry e).length < 2 ^ 64)
    (h : e.schemaHead < 2 ^ 64 ∧ e.dataHead < 2 ^ 64 ∧ e.rowCount < 2 ^ 64) :
    Decoder.Reads getCatEntry (putCatEntry e) e := by
  simp only [putCatEntry, List.length_append] at hlen
  exact (reads_str_of_put (by omega)).bind ((reads_uvarint h.1).bind
    ((reads_uvarint h.2.1).bind ((reads_uvarint h.2.2).bind_last (Decoder.reads_pure e))))

theorem length_putCatEntry_pos (e : CatEntry) : 0 < (putCatEntry e).length := by
  have hpos := length_putStr_pos e.name
  rw [putCatEntry, List.length_append]
  omega

/-- The catalog comes back as it was written. -/
theorem decodeCatalog_encode {es : List CatEntry} (hlen : (encodeCatalog es).length < 2 ^ 64)
    (h : ∀ e ∈ es, e.schemaHead < 2 ^ 64 ∧ e.dataHead < 2 ^ 64 ∧ e.rowCount < 2 ^ 64) :
    decodeCatalog (encodeCatalog es) = .ok es :=
  (reads_vec length_putCatEntry_pos hlen fun e he hle => reads_catEntry hle (h e he)).run'

/-- `load_catalog` reads the blob that the superblock points to. -/
theorem loadCatalog_blob {V : Volume} {s : Staged Superblock Page} {avail cat : List Nat}
    {objs : Multiset Obj} (h : Holds V s avail objs) {es : List CatEntry}
    (ho : Obj.blob cat (encodeCatalog es) ∈ objs) (hhead : s.ctl.catalogHead = cat.headD 0)
    (hlen : (encodeCatalog es).length < 2 ^ 64)
    (hes : ∀ e ∈ es, e.schemaHead < 2 ^ 64 ∧ e.dataHead < 2 ^ 64 ∧ e.rowCount < 2 ^ 64) :
    loadCatalog.eval (s.read V.base) s.ctl = .ok es := by
  have hne : cat.headD 0 ≠ 0 := by
    cases cat with
    | nil => exact absurd rfl (foot_ne_nil h ho fun _ => nofun)
    | cons p cat =>
        exact ne_zero_of_data (h.mem_range_of_foot ho (p := p) List.mem_cons_self).1
  rw [loadCatalog, Query.eval_bind_ok _ _ (eval_getSb _ _), hhead, if_neg hne,
    Query.eval_bind_ok _ _ (readChain_run h ho), Query.eval_lift, decodeCatalog_encode hlen hes]
  rfl

namespace Readable

variable {V : Volume} {s : Staged Superblock Page} {avail cat : List Nat} {L : List Stored}
  {t : Stored}

theorem objs_mem (ht : t ∈ L) {o : Obj} (ho : o ∈ t.objs) :
    o ∈ catalogObjs cat L + tableObjs L :=
  Multiset.mem_add.mpr (Or.inr (Multiset.mem_of_le (objs_le_tableObjs ht) ho))

theorem schema_mem (ht : t ∈ L) :
    Obj.blob t.schemaPages t.schema.encode ∈ catalogObjs cat L + tableObjs L :=
  objs_mem ht (Multiset.mem_cons_self _ _)

theorem index_mem (ht : t ∈ L) :
    Obj.index t.indexPages t.heads ∈ catalogObjs cat L + tableObjs L :=
  objs_mem ht (Multiset.mem_cons_of_mem (Multiset.mem_cons_self _ _))

theorem row_mem (ht : t ∈ L) {r : List Nat × Row} (hr : some r ∈ t.slots) :
    Obj.blob r.1 (encodeRow r.2) ∈ catalogObjs cat L + tableObjs L := by
  refine objs_mem ht (Multiset.mem_cons_of_mem (Multiset.mem_cons_of_mem ?_))
  exact Multiset.mem_coe.mpr (List.mem_map_of_mem (List.reduceOption_mem_iff.mpr hr))

/-- The head of a chain is a data page. -/
theorem head_mem (h : Readable V s avail cat L) {o : Obj}
    (ho : o ∈ catalogObjs cat L + tableObjs L) (hraw : ∀ ps, o ≠ .raw ps) :
    firstDataPage ≤ (objects.foot o).headD 0 ∧ (objects.foot o).headD 0 < V.total := by
  have hne := foot_ne_nil h.holds ho hraw
  refine h.holds.mem_range_of_foot ho ?_
  cases hf : objects.foot o with
  | nil => exact absurd hf hne
  | cons p ps => exact List.mem_cons_self

theorem length_live_le (h : Readable V s avail cat L) (ht : t ∈ L) :
    t.live.length ≤ V.total := by
  rw [length_live, ← card_rowObjs]
  refine card_le_total h.holds (le_trans ?_ (le_trans (objs_le_tableObjs ht)
    (Multiset.le_add_left _ _))) ?_
  · exact le_trans (Multiset.le_cons_self _ _) (Multiset.le_cons_self _ _)
  · intro o ho ps heq
    obtain ⟨r, -, rfl⟩ := List.mem_map.mp (Multiset.mem_coe.mp ho)
    cases heq

theorem entry_small (h : Readable V s avail cat L) (ht : t ∈ L) :
    t.entry.schemaHead < 2 ^ 64 ∧ t.entry.dataHead < 2 ^ 64 ∧ t.entry.rowCount < 2 ^ 64 := by
  have hT := V.total_lt
  have hs := (h.head_mem (schema_mem ht) fun _ => nofun).2
  have hi := (h.head_mem (index_mem ht) fun _ => nofun).2
  have hr := h.length_live_le ht
  exact ⟨Nat.lt_trans hs hT, Nat.lt_trans hi hT, Nat.lt_of_le_of_lt hr hT⟩

/-- `load_catalog` lists the tables. -/
theorem loadCatalog_run (h : Readable V s avail cat L) :
    loadCatalog.eval (s.read V.base) s.ctl = .ok (L.map Stored.entry) := by
  by_cases hcat : cat = []
  · rw [loadCatalog, Query.eval_bind_ok _ _ (eval_getSb _ _), h.catalog, h.empty hcat, hcat]
    rfl
  · have ho : Obj.blob cat (encodeCatalog (L.map Stored.entry)) ∈
        catalogObjs cat L + tableObjs L := by
      rw [catalogObjs, if_neg hcat]
      exact Multiset.mem_add.mpr (Or.inl (Multiset.mem_singleton_self _))
    refine loadCatalog_blob h.holds ho h.catalog (h.small _ _ ho) fun e he => ?_
    obtain ⟨t, ht, rfl⟩ := List.mem_map.mp he
    exact h.entry_small ht

/-- `schema_of` reads the schema of a table. -/
theorem schemaOf_run (h : Readable V s avail cat L) (ht : t ∈ L) :
    (schemaOf t.entry).eval (s.read V.base) s.ctl = .ok t.schema := by
  have ho : _ ∈ catalogObjs cat L + tableObjs L := schema_mem ht
  have hread : (readChain t.entry.schemaHead).eval (s.read V.base) s.ctl =
      .ok t.schema.encode := readChain_run h.holds ho
  rw [schemaOf, Query.eval_bind_ok _ _ hread, Query.eval_lift,
    Table.decode_encode (h.small _ _ ho)]
  rfl

theorem readRow_run (h : Readable V s avail cat L) (ht : t ∈ L) {r : List Nat × Row}
    (hr : some r ∈ t.slots) :
    (readRow (r.1.headD 0)).eval (s.read V.base) s.ctl = .ok r.2 := by
  have ho : _ ∈ catalogObjs cat L + tableObjs L := row_mem ht hr
  rw [readRow, Query.eval_bind_ok _ _ (readChain_run h.holds ho), Query.eval_lift,
    decodeRow_encodeRow (h.small _ _ ho)]
  rfl

end Readable

theorem headOf_ne_zero {V : Volume} {s : Staged Superblock Page} {avail cat : List Nat}
    {L : List Stored} {t : Stored} (h : Readable V s avail cat L) (ht : t ∈ L)
    {x : Option (List Nat × Row)} (hx : x ∈ t.slots) : Stored.headOf x = 0 ↔ x = none := by
  cases x with
  | none => simp [Stored.headOf]
  | some r =>
      have hd := (h.head_mem (Readable.row_mem ht hx) fun _ => nofun).1
      simp only [Stored.headOf, reduceCtorEq, iff_false]
      exact ne_zero_of_data hd

/-- The live slots of the index chain are the live rows. -/
theorem liveRows_eq {V : Volume} {s : Staged Superblock Page} {avail cat : List Nat}
    {L : List Stored} {t : Stored} (h : Readable V s avail cat L) (ht : t ∈ L) :
    liveRows t.indexPages t.heads = t.live.map fun r => (r.1, r.2.1.headD 0) := by
  unfold liveRows Stored.live Stored.heads
  rw [List.length_map, List.map_filterMap]
  refine List.filterMap_congr fun k hk => ?_
  rw [List.mem_range] at hk
  have hget : (t.slots.map Stored.headOf).getD k 0 = Stored.headOf (t.slots.getD k none) := by
    rw [List.getD_eq_getElem?_getD, List.getElem?_map, List.getD_eq_getElem?_getD,
      List.getElem?_eq_getElem hk]
    rfl
  have hmem : t.slots.getD k none ∈ t.slots := by
    rw [List.getD_eq_getElem?_getD, List.getElem?_eq_getElem hk]
    exact List.getElem_mem hk
  rw [hget]
  cases hx : t.slots.getD k none with
  | none => rfl
  | some r =>
      rw [hx] at hmem
      rw [if_pos ((headOf_ne_zero h ht hmem).not.mpr (by simp))]
      rfl

/-- `index_collect` lists the live rows of a table. -/
theorem collect_run {V : Volume} {s : Staged Superblock Page} {avail cat : List Nat}
    {L : List Stored} {t : Stored} (h : Readable V s avail cat L) (ht : t ∈ L) :
    (indexCollect t.entry.dataHead).eval (s.read V.base) s.ctl =
      .ok (t.live.map fun r => (r.1, r.2.1.headD 0)) := by
  rw [← liveRows_eq h ht]
  exact indexCollect_run h.holds (Readable.index_mem ht)

end Store

end TablesOS
