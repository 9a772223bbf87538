import TablesOS.Proofs.Integrity
import TablesOS.Proofs.RowEdits

/-!
# The store refines the database

`Stores pg L` says of a handle between two operations that its device holds the
tables `L` and nothing else, and that the model finds them intact. An operation
on such a handle either finds no room and leaves everything as it was, or it
answers what the model answers and leaves the tables of the model
(`run_refines`). Row ids are the same on both sides: the id that an insert
gives out is the fresh id of the model.
-/

namespace TablesOS

open Prog Medium Journal

namespace Store

open Pager

/-! ## From the stage of a body to the volume after its commit -/

/-- The committed pages of a clean handle. -/
def volumeOf (pg : Pager Disk) (h : pg.Clean) : Volume where
  total := pg.sb.totalPages
  pages := image pg.dev.view
  load := pg.load
  total_lt := h.pages_lt
  load_eq _ _ hlt := h.load_eq hlt

/-- A question to the handle is one to its committed pages. -/
theorem ask_of_eval {pg : Pager Disk} (hc : pg.Clean) {α : Type} {q : PageQuery α}
    {o : Outcome StoreError α}
    (h : q.eval ((Staged.mk pg.sb ∅).read (volumeOf pg hc).base) pg.sb = o) : pg.ask q = o := by
  rw [← h, Pager.ask, ← read_nothing_staged]
  rfl

theorem volumeOf_still {pg pg' : Pager Disk} (h : Still pg pg') (hc : pg.Clean)
    (hc' : pg'.Clean) : volumeOf pg' hc' = volumeOf pg hc := by
  obtain ⟨k, hk⟩ := h.dev
  have htotal : pg'.sb.totalPages = pg.sb.totalPages := by rw [h.sb]
  have hpages : image pg'.dev.view = image pg.dev.view := by rw [hk]; rfl
  have hload := h.load
  unfold volumeOf
  congr

/-- A handle that stores the tables `L`. -/
structure Stores (pg : Pager Disk) (L : List Stored) : Prop where
  clean : pg.Clean
  quiet : pg.dev.Quiet
  readable : ∃ avail cat, Readable (volumeOf pg clean) ⟨pg.sb, ∅⟩ avail cat L
  intact : (dbOf L).Intact

namespace Stores

variable {pg pg' : Pager Disk} {L : List Stored}

theorem still (h : Stores pg L) (hs : Still pg pg') (hc : pg'.Clean) : Stores pg' L := by
  obtain ⟨avail, cat, hr⟩ := h.readable
  refine ⟨hc, hs.quiet h.quiet, ⟨avail, cat, ?_⟩, h.intact⟩
  rw [volumeOf_still hs h.clean hc, hs.sb]
  exact hr

theorem arity (h : Stores pg L) : Arity L := fun t ht =>
  (h.intact.tables t.state (List.mem_map_of_mem ht)).fitted.arity

end Stores

section Commit

variable {V V' : Volume} {s s' : Staged Superblock Page} {avail : List Nat} {objs : Multiset Obj}

/-- Another view of the same data pages. -/
theorem Holds.transfer (h : Holds V s avail objs) (htotal : V'.total = V.total)
    (hsize : s'.ctl.totalPages = V.total) (hhwm : s'.ctl.hwm = s.ctl.hwm)
    (hfree : s'.ctl.freeHead = s.ctl.freeHead)
    (hview : ∀ p, firstDataPage ≤ p → V'.view s' p = V.view s p) : Holds V' s' avail objs := by
  refine ⟨hsize.trans htotal.symm, hhwm.symm ▸ h.low, ?_, ?_, ?_⟩
  · rw [hhwm, htotal]
    exact h.high
  · obtain ⟨F, hF, havail⟩ := h.free
    refine ⟨F, ?_, by rw [havail, hhwm, hsize, h.size]⟩
    rw [hfree]
    refine hF.frame fun p hp => hview p (h.mem_range_of_avail ?_).1
    rw [havail]
    exact List.mem_append_left _ hp
  · rw [htotal]
    refine ⟨fun o ho => ?_, h.owned.cover⟩
    exact objects.frame (fun p hp => hview p (h.mem_range_of_foot ho hp).1) (h.owned.ok o ho)

/-- No chain on staged pages is longer than the staging set. -/
theorem Stage.bytes_lt {s₀ : Staged Superblock Page} {ps : List Nat}
    (h : Stage V s₀ ps s avail objs) (hcount : s.dirty.size < jcap)
    {qs : List Nat} {bytes : List Byte} (ho : Obj.blob qs bytes ∈ objs) :
    bytes.length < 2 ^ 64 := by
  rcases h.bounded qs bytes ho with hlt | hstaged
  · exact hlt
  · have hnd : qs.Nodup := h.holds.foot_nodup ho
    have hlinked : Linked blobLayout (V.view s) qs bytes := h.holds.owned.ok _ ho
    have hsub : qs ⊆ s.dirty.toList.map (·.1) := by
      intro q hq
      have hmem := (h.moves.staged q).mpr (Or.inr (hstaged q hq))
      rw [Std.TreeMap.mem_iff_isSome_getElem?, Option.isSome_iff_exists] at hmem
      obtain ⟨x, hx⟩ := hmem
      exact List.mem_map.mpr ⟨(q, x), Std.TreeMap.mem_toList_iff_getElem?_eq_some.mpr hx, rfl⟩
    have hle := (hnd.subperm hsub).length_le
    rw [List.length_map, Std.TreeMap.length_toList] at hle
    have hbytes := hlinked.length_le
    rw [cap_blobLayout] at hbytes
    have hcap : jcap * chainCap < 2 ^ 64 := by decide
    calc bytes.length ≤ qs.length * chainCap := hbytes
      _ ≤ jcap * chainCap := Nat.mul_le_mul_right _ (by omega)
      _ < 2 ^ 64 := hcap

end Commit

/-- A stage with something to commit can be committed, as long as the journal has
room. -/
theorem Stage.committable {V : Volume} {s₀ s : Staged Superblock Page} {head : Nat}
    {ps avail : List Nat} {objs : Multiset Obj}
    (h : Stage V (Store.withCatalog s₀ head) ps s avail objs)
    (hstart : s₀.dirty = ∅) (hps : ps ≠ []) (hhead : head < 2 ^ 64)
    (hcount : s.dirty.size < jcap) : Committable V.total s := by
  have hstaged : ∀ q, q ∈ s.dirty ↔ q ∈ ps := fun q => by
    rw [h.moves.staged, Store.withCatalog, hstart]
    simp
  have hctl : s.ctl.catalogHead = head := h.moves.catalog
  refine ⟨?_, hcount, fun p hp => h.data p ((hstaged p).mp hp), ?_, h.holds.freeHead_lt, ?_⟩
  · obtain ⟨q, hq⟩ := List.exists_mem_of_ne_nil ps hps
    rw [Std.TreeMap.isEmpty_eq_false_iff_exists_mem]
    exact ⟨q, (hstaged q).mpr hq⟩
  · exact Nat.lt_of_le_of_lt h.holds.high V.total_lt
  · rw [hctl]
    exact hhead

theorem Stage.catalog_lt {V : Volume} {s₀ s : Staged Superblock Page} {ps avail cat : List Nat}
    {L : List Stored} (h : Stage V s₀ ps s avail (catalogObjs cat L + tableObjs L)) :
    cat.headD 0 < 2 ^ 64 := by
  by_cases hnil : cat = []
  · rw [hnil]
    decide
  · have hmem : Obj.blob cat (encodeCatalog (L.map Stored.entry)) ∈
        catalogObjs cat L + tableObjs L := by
      rw [catalogObjs, if_neg hnil]
      exact Multiset.mem_add.mpr (Or.inl (Multiset.mem_singleton_self _))
    exact h.head_lt hmem

/-- What a body leaves can be committed, as long as the journal has room. -/
theorem Leaves.committable {V : Volume} {s₀ s : Staged Superblock Page} {L : List Stored}
    (h : Leaves V s₀ s L) (hstart : s₀.dirty = ∅) (hcount : s.dirty.size < jcap) :
    Committable V.total s := by
  obtain ⟨ps, avail, cat, hps, hcat, hs⟩ := h
  exact hs.committable hstart hps hs.catalog_lt hcount

/-- The chains of a stage are there after its commit. -/
theorem Stage.settled {pg pg' : Pager Disk} (hc : pg.Clean) (hc' : pg'.Clean)
    {s₀ s : Staged Superblock Page} {ps avail : List Nat} {objs : Multiset Obj}
    (h : Stage (volumeOf pg hc) s₀ ps s avail objs)
    (hsb : pg'.sb = { s.ctl with generation := (s.ctl.generation + 1) % 2 ^ 64 })
    (hview : ∀ p, firstDataPage ≤ p →
      image pg'.dev.view p = (s.dirty[p]?).getD (image pg.dev.view p)) :
    Holds (volumeOf pg' hc') ⟨pg'.sb, ∅⟩ avail objs := by
  refine h.holds.transfer ?_ ?_ ?_ ?_ fun p hp => ?_
  · show pg'.sb.totalPages = _
    rw [hsb]
    exact h.holds.size
  · rw [hsb]
    exact h.holds.size
  · rw [hsb]
  · rw [hsb]
  · unfold Volume.view
    rw [Std.TreeMap.getElem?_emptyc]
    exact hview p hp

/-- The tables a body has left are readable after its commit. -/
theorem Leaves.readable {pg pg' : Pager Disk} (hc : pg.Clean) (hc' : pg'.Clean)
    {s : Staged Superblock Page} {L : List Stored}
    (h : Leaves (volumeOf pg hc) ⟨pg.sb, ∅⟩ s L) (hcount : s.dirty.size < jcap)
    (hsb : pg'.sb = { s.ctl with generation := (s.ctl.generation + 1) % 2 ^ 64 })
    (hview : ∀ p, firstDataPage ≤ p →
      image pg'.dev.view p = (s.dirty[p]?).getD (image pg.dev.view p)) :
    ∃ avail cat, Readable (volumeOf pg' hc') ⟨pg'.sb, ∅⟩ avail cat L := by
  obtain ⟨ps, avail, cat, hps, hcat, hs⟩ := h
  refine ⟨avail, cat, hs.settled hc hc' hsb hview, ?_, hcat, fun qs bytes ho =>
    hs.bytes_lt hcount ho⟩
  rw [hsb]
  exact hs.moves.catalog

/-! ## One operation -/

/-- An operation on the tables `L`, by its program: refused, answered, or one
transaction, which is refused, finds no free page, or leaves the tables of the
model. -/
def Settles (V : Volume) (s : Staged Superblock Page) (L : List Stored)
    (q : PageQuery (Call (Reply RowId))) (op : Op RowId) : Prop :=
  (∃ e, q.eval (s.read V.base) s.ctl = .err e ∧
    ∀ fresh, (dbOf L).step fresh op = (.error e, dbOf L)) ∨
  (∃ a, q.eval (s.read V.base) s.ctl = .ok (.ret a) ∧
    ∃ fresh, (dbOf L).step fresh op = (.ok a, dbOf L)) ∨
  ∃ body, op.writes = true ∧ q.eval (s.read V.base) s.ctl = .ok (.tx body) ∧
    ((∃ e, body.eval V.base s = (.err e, s) ∧
      ∀ fresh, (dbOf L).step fresh op = (.error e, dbOf L)) ∨
    (∀ fresh, ∃ a db, (dbOf L).step fresh op = (.ok a, db)) ∧
      Finds V body s fun a s' => ∃ L', Leaves V s s' L' ∧
        ∃ fresh, (dbOf L).step fresh op = (.ok a, dbOf L'))

section Settles

variable {V : Volume} {s : Staged Superblock Page} {avail cat : List Nat} {L : List Stored}
  {op : Op RowId}

/-- An editing method, with its answer as a `Reply`. -/
theorem Edits.settles {α : Type} {q : PageQuery (Call α)}
    {m : α → Except StoreError (Database RowId)} {f : α → Reply RowId} (hw : op.writes = true)
    (h : Edits V s L q m)
    (herr : ∀ e, (∀ a, m a = .error e) → ∀ fresh, (dbOf L).step fresh op = (.error e, dbOf L))
    (hok : ∀ a db, m a = .ok db → ∃ fresh, (dbOf L).step fresh op = (.ok (f a), db))
    (hall : (∀ a, ∃ db, m a = .ok db) → ∀ fresh, ∃ a db, (dbOf L).step fresh op = (.ok a, db)) :
    Settles V s L (do let c ← q; pure (c.map f)) op := by
  unfold Settles
  rcases h with ⟨e, hq, hm⟩ | ⟨a, hq, hm⟩ | ⟨body, hq, hbody⟩
  · left
    refine ⟨e, ?_, herr e hm⟩
    rw [Query.eval_bind, hq]
    rfl
  · right
    left
    refine ⟨f a, ?_, hok a _ hm⟩
    rw [Query.eval_bind_ok _ _ hq]
    rfl
  · right
    right
    refine ⟨f <$> body, hw, ?_, ?_⟩
    · rw [Query.eval_bind_ok _ _ hq]
      rfl
    · rcases hbody with ⟨e, he, hm⟩ | ⟨hm, hfinds⟩
      · exact Or.inl ⟨e, eval_bind_err _ he, herr e hm⟩
      · refine Or.inr ⟨hall hm, hfinds.bind ?_⟩
        rintro a s' ⟨L', hl, hm⟩
        exact ends_pure ⟨L', hl, hok a _ hm⟩

/-- A method that answers `()`. -/
theorem silent_settles {q : PageQuery (Call Unit)} {m : Except StoreError (Database RowId)}
    (hw : op.writes = true) (h : Edits V s L q fun _ => m)
    (hstep : ∀ fresh, (dbOf L).step fresh op = (dbOf L).edited .done m) :
    Settles V s L (silent q) op := by
  refine Edits.settles hw h (fun e he fresh => ?_) (fun _ db hm => ⟨⟨0, 0⟩, ?_⟩)
    fun hm fresh => ?_
  · rw [hstep, he ()]
    rfl
  · rw [hstep, hm]
    rfl
  · obtain ⟨db, hm⟩ := hm ()
    rw [hstep, hm]
    exact ⟨_, _, rfl⟩

/-- A reading method. -/
theorem answer_settles {α : Type} {q : PageQuery α} {r : Except StoreError α}
    {f : α → Reply RowId} (hq : q.eval (s.read V.base) s.ctl = Outcome.ofExcept r)
    (hstep : ∀ fresh, (dbOf L).step fresh op = (dbOf L).answered f r) :
    Settles V s L (answer f q) op := by
  unfold Settles answer
  cases r with
  | error e =>
      refine Or.inl ⟨e, ?_, fun fresh => hstep fresh⟩
      rw [Query.eval_bind, hq]
      rfl
  | ok a =>
      refine Or.inr (Or.inl ⟨f a, ?_, ⟨0, 0⟩, hstep _⟩)
      rw [Query.eval_bind_ok _ _ hq]
      rfl

theorem method_settles (h : Readable V s avail cat L) (hi : (dbOf L).Intact) (op : Op RowId)
    (hid : op.Uses fun table id => ∀ t ∈ dbOf L, t.schema.name = table → id ∈ t.issued) :
    Settles V s L (method op) op := by
  have hc := hi.closed
  have ha : Arity L := fun t ht => (hi.tables t.state (List.mem_map_of_mem ht)).fitted.arity
  have hids : ∀ {table : String} {id : RowId},
      (∀ t ∈ dbOf L, t.schema.name = table → id ∈ t.issued) →
      ∀ t ∈ L, t.schema.name = table → id ∈ t.state.issued :=
    fun hid t ht => hid t.state (List.mem_map_of_mem ht)
  cases op with
  | createTable name => exact silent_settles rfl (createTable_edits h name) fun _ => rfl
  | dropTable name => exact silent_settles rfl (dropTable_edits h hc name) fun _ => rfl
  | addColumn table col => exact silent_settles rfl (addColumn_edits h hc table col) fun _ => rfl
  | dropColumn table col => exact silent_settles rfl (dropColumn_edits h hc table col) fun _ => rfl
  | moveColumn table col newIndex =>
      exact silent_settles rfl (moveColumn_edits h hc ha table col newIndex) fun _ => rfl
  | renameColumn table old new =>
      exact silent_settles rfl (renameColumn_edits h hc table old new) fun _ => rfl
  | setUnique table col unique =>
      exact silent_settles rfl (setUnique_edits h hc table col unique) fun _ => rfl
  | addFk table fromCol toTable toCol =>
      exact silent_settles rfl (addFk_edits h hc table fromCol toTable toCol) fun _ => rfl
  | dropFk table fkName => exact silent_settles rfl (dropFk_edits h hc table fkName) fun _ => rfl
  | setReferenceColumns table cols =>
      exact silent_settles rfl (setReferenceColumns_edits h hc table cols) fun _ => rfl
  | setDisplayWidth table col width =>
      exact silent_settles rfl (setDisplayWidth_edits h hc table col width) fun _ => rfl
  | insert table cells =>
      refine Edits.settles rfl (insert_edits h hc table cells) (fun e he fresh => ?_)
        (fun id db hm => ⟨id, ?_⟩) fun hm fresh => ?_
      · show (dbOf L).edited _ _ = _
        rw [he fresh]
        rfl
      · show (dbOf L).edited _ _ = _
        rw [hm]
        rfl
      · obtain ⟨db, hm⟩ := hm fresh
        refine ⟨.inserted fresh, db, ?_⟩
        show (dbOf L).edited _ _ = _
        rw [hm]
        rfl
  | update table id cells =>
      exact silent_settles rfl (update_edits h hc ha table id cells (hids hid)) fun _ => rfl
  | delete table id =>
      exact silent_settles rfl (delete_edits h hc ha table id (hids hid)) fun _ => rfl
  | listTables =>
      exact answer_settles (r := .ok (dbOf L).listTables) (listTables_run h) fun _ => rfl
  | getTable name => exact answer_settles (getTable_run h name) fun _ => rfl
  | scan name => exact answer_settles (scan_run h ha name) fun _ => rfl
  | getRow name id => exact answer_settles (getRow_run h ha (hids hid)) fun _ => rfl
  | followFk table id fkName =>
      exact answer_settles (followFk_run h hc ha fkName (hids hid)) fun _ => rfl
  | referencingRows table id =>
      exact answer_settles (referencingRows_run h hc ha (hids hid)) fun _ => rfl

end Settles

/-- The ids of a table are all different. -/
theorem issued_nodup {V : Volume} {s : Staged Superblock Page} {avail : List Nat}
    {objs : Multiset Obj} (h : Holds V s avail objs) {t : Stored}
    (ho : Obj.index t.indexPages t.heads ∈ objs) : t.state.issued.Nodup := by
  have hlinked : Linked indexLayout (V.view s) t.indexPages t.heads := h.owned.ok _ ho
  have hle := hlinked.length_le
  rw [Stored.heads, List.length_map, cap_indexLayout] at hle
  have hnd : t.indexPages.Nodup := h.foot_nodup ho
  refine List.Nodup.map_on (fun j hj k hk heq => ?_) List.nodup_range
  rw [List.mem_range] at hj hk
  exact rowIdAt_inj hnd (by omega) (by omega) heq

theorem Leaves.issued_nodup {V : Volume} {s₀ s : Staged Superblock Page} {L : List Stored}
    (h : Leaves V s₀ s L) : ∀ t ∈ L, t.state.issued.Nodup := by
  obtain ⟨ps, avail, cat, -, -, hs⟩ := h
  exact fun t ht => Store.issued_nodup hs.holds (Readable.index_mem ht)

/-- What an operation answers on the tables `db`, and the tables after it: no
room, if it writes and the model has no objection, or what the model says, with
an id that the table never gave out. -/
def Answers (db : Database RowId) (op : Op RowId) (o : Outcome StoreError (Reply RowId))
    (db' : Database RowId) : Prop :=
  (op.writes = true ∧ ∀ fresh, ∃ a db'', db.step fresh op = (.ok a, db'')) ∧
    o = .err .outOfSpace ∧ db' = db ∨
  ∃ fresh, (∀ table cells, op = .insert table cells →
      ∀ t ∈ db, t.schema.name = table → fresh ∉ t.issued) ∧
    (Outcome.ofExcept (db.step fresh op).1, (db.step fresh op).2) = (o, db')

/-- An id that an insert used is a new one. -/
theorem insert_fresh {L L' : List Stored} (hn : ((dbOf L).map (·.schema.name)).Nodup)
    (hnd : ∀ t ∈ L', t.state.issued.Nodup) {fresh : RowId} {op : Op RowId} {a : Reply RowId}
    (hstep : (dbOf L).step fresh op = (.ok a, dbOf L')) :
    ∀ table cells, op = .insert table cells →
      ∀ t ∈ dbOf L, t.schema.name = table → fresh ∉ t.issued := by
  rintro table cells rfl t ht rfl
  cases hins : (dbOf L).insert fresh t.schema.name cells with
  | error e =>
      have herr : (dbOf L).step fresh (.insert t.schema.name cells) = (.error e, dbOf L) :=
        congrArg ((dbOf L).edited (.inserted fresh)) hins
      rw [herr] at hstep
      cases hstep
  | ok db' =>
      have hok : (dbOf L).step fresh (.insert t.schema.name cells) =
          (.ok (.inserted fresh), db') := congrArg ((dbOf L).edited (.inserted fresh)) hins
      rw [hok] at hstep
      injection hstep with _ hdb
      obtain ⟨-, -, -, hreplace⟩ := Database.insert_ok hins
      have hmem : { t with
          rows := t.rows ++ [(fresh, cells)], issued := t.issued ++ [fresh] } ∈ dbOf L' := by
        rw [← hdb, hreplace]
        exact (Database.mem_replace hn ht).mpr (Or.inl rfl)
      obtain ⟨t', ht', hst⟩ := List.mem_map.mp hmem
      have hissued := hnd t' ht'
      rw [hst, List.nodup_append] at hissued
      exact fun hold => hissued.2.2 _ hold _ (List.mem_singleton_self _) rfl

/-- There is always a new id. -/
theorem exists_fresh (db : Database RowId) : ∃ fresh, ∀ t ∈ db, fresh ∉ t.issued := by
  have hbound : ∀ ids : List RowId, ∃ n, ∀ id ∈ ids, id.indexPage < n := by
    intro ids
    induction ids with
    | nil => exact ⟨0, by simp⟩
    | cons id ids ih =>
        obtain ⟨n, hn⟩ := ih
        refine ⟨id.indexPage + 1 + n, fun x hx => ?_⟩
        rcases List.mem_cons.mp hx with rfl | hx
        · omega
        · have hlt := hn x hx
          omega
  obtain ⟨n, hn⟩ := hbound (db.flatMap (·.issued))
  refine ⟨⟨n, 0⟩, fun t ht hmem => ?_⟩
  exact Nat.lt_irrefl n (hn _ (List.mem_flatMap.mpr ⟨t, ht, hmem⟩))

/-- A refusal of the model. -/
theorem answers_error {db : Database RowId} {op : Op RowId} {e : StoreError}
    (h : ∀ fresh, db.step fresh op = (.error e, db)) : Answers db op (.err e) db := by
  obtain ⟨fresh, hfresh⟩ := exists_fresh db
  refine Or.inr ⟨fresh, fun _ _ _ t ht _ => hfresh t ht, ?_⟩
  rw [h fresh]
  rfl

/-- One operation, on a device that works. It leaves the handle where it was, or it
is one that writes and has committed once; with its sum checked the commit panics
at the end of the counter. -/
theorem run_commits {pg : Pager Disk} {L : List Stored} (h : Stores pg L) (op : Op RowId)
    (hid : op.Uses fun table id => ∀ t ∈ dbOf L, t.schema.name = table → id ∈ t.issued) :
    ∃ o pg' L', run op pg = (o, pg') ∧ Stores pg' L' ∧ Answers (dbOf L) op o (dbOf L') ∧
      (∀ e, o = .err e → Still pg pg' ∧ L' = L) ∧
      (Still pg pg' ∨ op.writes = true ∧
        pg'.sb.generation = (pg.sb.generation + 1) % 2 ^ 64 ∧
        (runChecked op pg).1 = if 2 ^ 64 ≤ pg.sb.generation + 1 then .panic else o) := by
  obtain ⟨avail, cat, hr⟩ := h.readable
  have hsteady := steady_method (T := pg.sb.totalPages) op
  have hask : ∀ o, (method op).eval ((Staged.mk pg.sb ∅).read (volumeOf pg h.clean).base)
      pg.sb = o → pg.ask (method op) = o := fun o ho => ask_of_eval h.clean ho
  -- an operation that answers an error changes nothing
  have hfail : ∀ e, (∃ pg', run op pg = (.err e, pg')) →
      Answers (dbOf L) op (.err e) (dbOf L) →
      ∃ o pg' L', run op pg = (o, pg') ∧ Stores pg' L' ∧ Answers (dbOf L) op o (dbOf L') ∧
        (∀ e, o = .err e → Still pg pg' ∧ L' = L) ∧
        (Still pg pg' ∨ op.writes = true ∧
          pg'.sb.generation = (pg.sb.generation + 1) % 2 ^ 64 ∧
          (runChecked op pg).1 = if 2 ^ 64 ≤ pg.sb.generation + 1 then .panic else o) := by
    rintro e ⟨pg', hrun⟩ hans
    obtain ⟨hstill, hclean⟩ := call_err h.clean h.quiet hsteady hrun
    exact ⟨_, pg', L, hrun, h.still hstill hclean, hans, fun _ _ => ⟨hstill, rfl⟩, .inl hstill⟩
  rcases method_settles hr h.intact op hid with
    ⟨e, hq, hstep⟩ | ⟨a, hq, fresh, hstep⟩ | ⟨body, hw, hq, hbody⟩
  · exact hfail e (call_ask_err h.clean h.quiet hsteady (hask _ hq)) (answers_error hstep)
  · obtain ⟨pg', hrun, hstill, hclean⟩ := call_ret h.clean h.quiet hsteady (hask _ hq)
    refine ⟨_, pg', L, hrun, h.still hstill hclean, Or.inr ⟨fresh, ?_, ?_⟩, fun e he => ?_,
      .inl hstill⟩
    · exact insert_fresh h.intact.names (fun t ht =>
        issued_nodup hr.holds (Readable.index_mem ht)) hstep
    · rw [hstep]
      rfl
    · cases he
  · obtain ⟨hsize, pg₁, hcall, hstill, hclean, hcheck⟩ :=
      call_tx h.clean h.quiet hsteady (hask _ hq)
    have hquiet := hstill.quiet h.quiet
    have hsize₁ : KeepsSize pg₁.sb.totalPages (fun _ => True) body := by
      rw [hstill.sb]
      exact hsize
    have hatt : ∀ o s, body.eval (volumeOf pg h.clean).base ⟨pg.sb, ∅⟩ = (o, s) →
        pg₁.attempt body = (o, s) := by
      intro o s hb
      rw [hstill.attempt]
      exact hb
    have hrun : ∀ o, (∃ pg', tx body pg₁ = (o, pg')) → ∃ pg', run op pg = (o, pg') := by
      rintro o ⟨pg', htx⟩
      exact ⟨pg', hcall.trans htx⟩
    rcases hbody with ⟨e, he, hstep⟩ | ⟨hall, ⟨s, hb⟩ | ⟨a, s, hb, L', hl, fresh, hstep⟩⟩
    · exact hfail e (hrun _ (tx_attempt_err hclean hquiet hsize₁ (hatt _ _ he)))
        (answers_error hstep)
    · exact hfail _ (hrun _ (tx_attempt_err hclean hquiet hsize₁ (hatt _ _ hb)))
        (Or.inl ⟨⟨hw, hall⟩, rfl, rfl⟩)
    · by_cases hcount : jcap ≤ s.dirty.size
      · exact hfail _ (hrun _ (tx_full hclean hquiet hsize₁ (hatt _ _ hb) hcount))
          (Or.inl ⟨⟨hw, hall⟩, rfl, rfl⟩)
      · have hcount' : s.dirty.size < jcap := by omega
        have hcommit := hl.committable rfl hcount'
        have htotal : pg₁.sb.totalPages = (volumeOf pg h.clean).total := by
          rw [hstill.sb]
          rfl
        rw [← htotal] at hcommit
        obtain ⟨pg', htx, hclean', hquiet', -, hsb, -, hview⟩ :=
          tx_ok hclean hquiet hsize₁ (hatt _ _ hb) hcommit
        have hfresh := insert_fresh h.intact.names hl.issued_nodup hstep
        have hgen : s.ctl.generation = pg.sb.generation := by
          obtain ⟨ps, avail, cat, -, -, hs⟩ := hl
          exact hs.moves.generation
        refine ⟨_, pg', L', hcall.trans htx, ⟨hclean', hquiet', ?_, ?_⟩,
          Or.inr ⟨fresh, hfresh, ?_⟩, fun e he => ?_, .inr ⟨hw, ?_, ?_⟩⟩
        · refine hl.readable h.clean hclean' hcount' hsb fun p hp => ?_
          obtain ⟨k, hk⟩ := hstill.dev
          rw [hview p hp, hk]
          rfl
        · have hnext := Database.step_intact h.intact op hfresh
          rw [hstep] at hnext
          exact hnext
        · rw [hstep]
          rfl
        · cases he
        · rw [hsb, ← hgen]
        · have hanswer := txChecked_answer hclean hquiet hsize₁ (hatt _ _ hb) hcommit.nonempty
          rw [htx, hgen] at hanswer
          exact (congrArg Prod.fst hcheck).trans hanswer

/-- One operation refines that of the model. -/
theorem run_refines {pg : Pager Disk} {L : List Stored} (h : Stores pg L) (op : Op RowId)
    (hid : op.Uses fun table id => ∀ t ∈ dbOf L, t.schema.name = table → id ∈ t.issued) :
    ∃ o pg' L', run op pg = (o, pg') ∧ Stores pg' L' ∧ Answers (dbOf L) op o (dbOf L') ∧
      ∀ e, o = .err e → Still pg pg' ∧ L' = L := by
  obtain ⟨o, pg', L', hrun, hL', hans, herr, -⟩ := run_commits h op hid
  exact ⟨o, pg', L', hrun, hL', hans, herr⟩

end Store

end TablesOS
