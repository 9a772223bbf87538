import TablesOS.Proofs.DataIntegrity

/-!
# Every page has one owner

The pages of a volume below the high-water mark, from the first data page on,
are the free list, the catalog chain and, table by table, the schema chain, the
index chain and a chain for each live row. `Partitioned` says so of what is on
the pages of a handle: each page is in one of the chains and there once, and
each chain ends. It holds in every state that is reached with row ids the store
has handed out for the table they are used on (`pages_partitioned`). A made-up
id can name a page of a record as if it were a page of an index, and a text in
the record names the row that is deleted then, of which the index keeps the head
(`record_as_index`).
-/

namespace TablesOS

open Prog Codec Journal Medium

namespace Store

open Pager

/-! ## The chains of a handle -/

/-- The chain that starts at `head` lies on the pages `ps`, in order. -/
abbrev Chain (pg : Pager Disk) (head : Nat) (ps : List Nat) : Prop :=
  FreeList linkOf (image pg.dev.view) head ps

/-- The pages of a table: those of its schema, of its index, of its live rows. -/
structure TablePages where
  schema : List Nat
  index : List Nat
  rows : List (List Nat)

/-- All of them. -/
def TablePages.all (t : TablePages) : List Nat := t.schema ++ t.index ++ t.rows.flatten

/-- The chains of the table of a catalog entry. -/
structure LiesOn (pg : Pager Disk) (e : CatEntry) (t : TablePages) : Prop where
  schema : Chain pg e.schemaHead t.schema
  index : Chain pg e.dataHead t.index
  rows : ∃ slots, pg.ask (indexCollect e.dataHead) = .ok slots ∧
    List.Forall₂ (fun slot ps => Chain pg slot.2 ps) slots t.rows

/-- The data pages below the high-water mark are the chains, each page in one of
them and once. -/
structure Partition (pg : Pager Disk) (es : List CatEntry) (free catalog : List Nat)
    (tables : List TablePages) : Prop where
  entries : pg.ask loadCatalog = .ok es
  freeList : Chain pg pg.sb.freeHead free
  catalogChain : Chain pg pg.sb.catalogHead catalog
  laid : List.Forall₂ (LiesOn pg) es tables
  cover : (free ++ catalog ++ tables.flatMap TablePages.all).Perm
    (List.range' firstDataPage (pg.sb.hwm - firstDataPage))
  low : firstDataPage ≤ pg.sb.hwm
  high : pg.sb.hwm ≤ pg.sb.totalPages

def Partitioned (pg : Pager Disk) : Prop :=
  ∃ es free catalog tables, Partition pg es free catalog tables

/-! ## Where stored tables lie -/

namespace Stored

/-- The pages of a stored table. -/
def tablePages (t : Stored) : TablePages :=
  ⟨t.schemaPages, t.indexPages, t.live.map fun r => r.2.1⟩

theorem feet_rowObjs (rs : List (List Nat × Row)) :
    objects.feet ((rs.map rowObj : List Obj) : Multiset Obj) =
      ((rs.map (·.1)).flatten : Multiset Nat) := by
  induction rs with
  | nil => rfl
  | cons r rs ih =>
      rw [List.map_cons, ← Multiset.cons_coe, Objects.feet_cons, ih, List.map_cons,
        List.flatten_cons, ← Multiset.coe_add]
      rfl

theorem feet_objs (t : Stored) : objects.feet t.objs = (t.tablePages.all : Multiset Nat) := by
  have hrows : (t.live.map fun r => r.2.1) = t.slots.reduceOption.map (·.1) := by
    rw [← live_rows, List.map_map]
    rfl
  rw [objs, Objects.feet_cons, Objects.feet_cons, rowObjs, feet_rowObjs, TablePages.all, tablePages,
    hrows, ← Multiset.coe_add, ← Multiset.coe_add, add_assoc]
  rfl

end Stored

theorem feet_tableObjs (L : List Stored) :
    objects.feet (tableObjs L) =
      ((L.map Stored.tablePages).flatMap TablePages.all : Multiset Nat) := by
  induction L with
  | nil => rfl
  | cons t L ih =>
      rw [tableObjs_cons, Objects.feet_add, Stored.feet_objs, ih, List.map_cons, List.flatMap_cons,
        ← Multiset.coe_add]

theorem feet_catalogObjs (cat : List Nat) (L : List Stored) :
    objects.feet (catalogObjs cat L) = (cat : Multiset Nat) := by
  rw [catalogObjs]
  split
  · next hnil =>
      rw [hnil]
      rfl
  · exact Objects.feet_singleton _ _

/-! ## Reachable states -/

theorem view_clean {pg : Pager Disk} (hc : pg.Clean) :
    (volumeOf pg hc).view ⟨pg.sb, ∅⟩ = image pg.dev.view := by
  funext p
  rw [Volume.view, Std.TreeMap.getElem?_emptyc]
  rfl

section Readable

variable {pg : Pager Disk} (hc : pg.Clean) {avail cat : List Nat} {L : List Stored}

include hc

theorem chain_of_obj (h : Readable (volumeOf pg hc) ⟨pg.sb, ∅⟩ avail cat L) {o : Obj}
    (ho : o ∈ catalogObjs cat L + tableObjs L) (hraw : ∀ ps, o ≠ .raw ps) :
    Chain pg ((objects.foot o).headD 0) (objects.foot o) := by
  rw [Chain, ← view_clean hc]
  exact h.holds.threaded ho hraw

theorem liesOn_stored (h : Readable (volumeOf pg hc) ⟨pg.sb, ∅⟩ avail cat L) {t : Stored}
    (ht : t ∈ L) : LiesOn pg t.entry t.tablePages := by
  refine ⟨chain_of_obj hc h (Readable.schema_mem ht) blob_ne_raw,
    chain_of_obj hc h (Readable.index_mem ht) index_ne_raw, _,
    ask_of_eval hc (collect_run h ht), ?_⟩
  rw [Stored.tablePages, List.forall₂_map_left_iff, List.forall₂_map_right_iff]
  exact List.forall₂_same.mpr fun r hr =>
    chain_of_obj hc h (Readable.row_mem ht (slot_of_live hr)) blob_ne_raw

theorem partition_of_readable (h : Readable (volumeOf pg hc) ⟨pg.sb, ∅⟩ avail cat L) :
    ∃ F, avail = F ++ List.range' pg.sb.hwm (pg.sb.totalPages - pg.sb.hwm) ∧
      Partition pg (L.map Stored.entry) F cat (L.map Stored.tablePages) := by
  obtain ⟨F, hF, havail⟩ := h.holds.free
  have hcat : Chain pg pg.sb.catalogHead cat := by
    rw [show pg.sb.catalogHead = cat.headD 0 from h.catalog]
    by_cases hnil : cat = []
    · subst hnil
      exact .nil
    · refine chain_of_obj hc h (o := .blob cat (encodeCatalog (L.map Stored.entry))) ?_ blob_ne_raw
      rw [catalogObjs, if_neg hnil]
      exact Multiset.mem_add.mpr (.inl (Multiset.mem_singleton_self _))
  rw [view_clean hc] at hF
  have hlow : firstDataPage ≤ pg.sb.hwm := h.holds.low
  have hhigh : pg.sb.hwm ≤ pg.sb.totalPages := h.holds.high
  refine ⟨F, havail, ask_of_eval hc h.loadCatalog_run, hF, hcat, ?_, ?_, hlow, hhigh⟩
  · rw [List.forall₂_map_left_iff, List.forall₂_map_right_iff]
    exact List.forall₂_same.mpr fun t ht => liesOn_stored hc h ht
  · -- what is above the mark is handed out after the free list
    have hcover := h.holds.owned.cover
    have hrange : List.range' firstDataPage (pg.sb.totalPages - firstDataPage) =
        List.range' firstDataPage (pg.sb.hwm - firstDataPage) ++
          List.range' pg.sb.hwm (pg.sb.totalPages - pg.sb.hwm) := by
      rw [show pg.sb.totalPages - firstDataPage =
        pg.sb.hwm - firstDataPage + (pg.sb.totalPages - pg.sb.hwm) by omega,
        ← List.range'_append_1,
        show firstDataPage + (pg.sb.hwm - firstDataPage) = pg.sb.hwm by omega]
    rw [havail, Objects.feet_add, feet_catalogObjs, feet_tableObjs, dataPages] at hcover
    have htotal : (volumeOf pg hc).total = pg.sb.totalPages := rfl
    rw [htotal, hrange, ← Multiset.coe_add, ← Multiset.coe_add, add_right_comm,
      add_left_inj] at hcover
    refine Multiset.coe_eq_coe.mp ?_
    rw [← hcover, List.append_assoc, ← Multiset.coe_add, ← Multiset.coe_add]

end Readable

/-! ## A record read as a page of an index -/

/-- The slots of an index page, on a page of a record. -/
theorem blob_word {v : Nat → Page} {q : Nat} {bytes : List Byte}
    (h : Linked blobLayout v [q] bytes) {i : Nat} (hi : i * 8 + 8 ≤ bytes.length) :
    rdU64 (v q) 8 = bytes.length ∧
      rdU64 (v q) (idxHdr + i * 8) = ofLe ((bytes.drop (i * 8)).take 8) := by
  cases h with
  | last _ hh =>
      obtain ⟨-, hcount, hslice⟩ := hh
      refine ⟨hcount, ?_⟩
      rw [← hslice, Buf.take_drop_slice hi]
      rfl

theorem partner_of_mem {α β : Type} {R : α → β → Prop} {as : List α} {bs : List β}
    (h : List.Forall₂ R as bs) {a : α} (ha : a ∈ as) : ∃ b ∈ bs, R a b := by
  induction h with
  | nil => cases ha
  | @cons a' b as bs hr _ ih =>
      rcases List.mem_cons.mp ha with rfl | ha
      · exact ⟨b, List.mem_cons_self, hr⟩
      · obtain ⟨c, hc, hrc⟩ := ih ha
        exact ⟨c, List.mem_cons_of_mem _ hc, hrc⟩

/-- A page that is the head of the catalog and of a live row. -/
theorem not_partitioned {pg : Pager Disk} {es : List CatEntry} (hcat : pg.ask loadCatalog = .ok es)
    {e : CatEntry} (he : e ∈ es) {slots : List (RowId × Nat)}
    (hslots : pg.ask (indexCollect e.dataHead) = .ok slots) {id : RowId} {p : Nat}
    (hid : (id, p) ∈ slots) (hp : p ≠ 0) (hhead : pg.sb.catalogHead = p) : ¬ Partitioned pg := by
  rintro ⟨es', free, catalog, tables, hpart⟩
  have hmem : ∀ {ps : List Nat}, Chain pg p ps → p ∈ ps := by
    intro ps hps
    cases hps with
    | nil => exact absurd rfl hp
    | cons _ _ => exact List.mem_cons_self
  have hentries := hpart.entries
  rw [hcat] at hentries
  injection hentries with hes
  subst hes
  -- once in the catalog
  have hc : p ∈ catalog := hmem (hhead ▸ hpart.catalogChain)
  -- once in the table
  obtain ⟨t, ht, hlies⟩ := partner_of_mem hpart.laid he
  obtain ⟨slots', hslots', hrows⟩ := hlies.rows
  rw [hslots] at hslots'
  injection hslots' with hs
  subst hs
  obtain ⟨ps, hps, hchain⟩ := partner_of_mem hrows hid
  have hall : p ∈ tables.flatMap TablePages.all := by
    refine List.mem_flatMap.mpr ⟨t, ht, ?_⟩
    exact List.mem_append_right _ (List.mem_flatten.mpr ⟨ps, hps, hmem hchain⟩)
  have hnodup := hpart.cover.nodup_iff.mpr List.nodup_range'
  rw [List.nodup_append'] at hnodup
  exact hnodup.2.2 (List.mem_append_right _ hc) hall

/-- A chain of one chunk lies on one page. -/
theorem one_page {v : Nat → Page} {ps : List Nat} {bytes : List Byte}
    (h : Linked blobLayout v ps bytes) (hn : nchunks bytes ≤ 1) : ∃ p, ps = [p] := by
  have hlen : ps.length = nchunks bytes := by
    rw [nchunks_eq]
    exact h.length_blocks
  have hpos := nchunks_pos bytes
  exact List.length_eq_one_iff.mp (by omega)

/-- A record of one chunk does. -/
theorem row_one_page {V : Volume} {s : Staged Superblock Page} {avail cat : List Nat}
    {L : List Stored} (h : Readable V s avail cat L) {t : Stored} (ht : t ∈ L) {k : Nat}
    {r : List Nat × Row} (hr : t.slots.getD k none = some r)
    (hlen : (encodeRow r.2).length ≤ chainCap) : ∃ p, r.1 = [p] :=
  one_page (h.holds.owned.ok _ (Readable.row_mem ht (hr ▸ getD_mem_slots (lt_of_slot hr))))
    (nchunks_le hlen).le

/-! ## One table, page by page -/

/-- The catalog entry of a table of `n` rows whose schema is on the page `s`. -/
abbrev entryOf (sch : Table) (s : Nat) (ips : List Nat) (n : Nat) : CatEntry :=
  ⟨sch.name, s, ips.headD 0, n⟩

/-- The chains of one table, and `rest`. -/
abbrev spread (sch : Table) (n : Nat) (ips heads : List Nat) (rest : Multiset Obj) (c s : Nat) :
    Multiset Obj :=
  .blob [c] (encodeCatalog [entryOf sch s ips n]) ::ₘ .blob [s] sch.encode ::ₘ
    .index ips heads ::ₘ rest

/-- A handle to one table whose catalog is on the page `c` and whose schema is on the page
`s`. The index need not lead to records. -/
structure Spread (pg : Pager Disk) (sch : Table) (n : Nat) (ips heads : List Nat)
    (rest : Multiset Obj) (c s : Nat) (avail : List Nat) : Prop where
  clean : pg.Clean
  quiet : pg.dev.Quiet
  room : pg.sb.totalPages - firstDataPage < jcap
  holds : Holds (volumeOf pg clean) ⟨pg.sb, ∅⟩ avail (spread sch n ips heads rest c s)
  head : pg.sb.catalogHead = c
  count : n < 2 ^ 64
  short : ∀ qs bytes, Obj.blob qs bytes ∈ spread sch n ips heads rest c s → bytes.length < 2 ^ 64

/-- A method that answers, whatever it answers. -/
theorem run_answer {pg : Pager Disk} (hc : pg.Clean) (hq : pg.dev.Quiet) {op : Op RowId} {α : Type}
    {q : PageQuery α} {f : α → Reply RowId} {r : Except StoreError α}
    (hop : method op = answer f q) (hask : pg.ask q = Outcome.ofExcept r) :
    (run op pg).1 = Outcome.ofExcept (f <$> r) := by
  have hsteady := steady_method (T := pg.sb.totalPages) op
  rw [Pager.ask] at hask
  cases r with
  | error e =>
      have hm : pg.ask (method op) = .err e := by
        rw [hop, answer, Pager.ask, Query.eval_bind, hask]
        rfl
      obtain ⟨pg', hrun⟩ := call_ask_err hc hq hsteady hm
      exact congrArg Prod.fst hrun
  | ok a =>
      have hm : pg.ask (method op) = .ok (.ret (f a)) := by
        rw [hop, answer, Pager.ask, Query.eval_bind_ok _ _ hask]
        rfl
      obtain ⟨pg', hrun, -⟩ := call_ret hc hq hsteady hm
      exact congrArg Prod.fst hrun

namespace Spread

variable {pg : Pager Disk} {sch : Table} {n c s : Nat} {ips heads avail : List Nat}
  {rest : Multiset Obj}

theorem schema_mem : Obj.blob [s] sch.encode ∈ spread sch n ips heads rest c s :=
  Multiset.mem_cons_of_mem (Multiset.mem_cons_self _ _)

theorem index_mem : Obj.index ips heads ∈ spread sch n ips heads rest c s :=
  Multiset.mem_cons_of_mem (Multiset.mem_cons_of_mem (Multiset.mem_cons_self _ _))

theorem entry_small (h : Spread pg sch n ips heads rest c s avail) :
    s < 2 ^ 64 ∧ ips.headD 0 < 2 ^ 64 ∧ n < 2 ^ 64 := by
  have hT := (volumeOf pg h.clean).total_lt
  have hs := (h.holds.mem_range_of_foot (p := s) schema_mem List.mem_cons_self).2
  refine ⟨Nat.lt_trans hs hT, ?_, h.count⟩
  cases ips with
  | nil => decide
  | cons p ips =>
      have hp := (h.holds.mem_range_of_foot (p := p) index_mem List.mem_cons_self).2
      exact Nat.lt_trans hp hT

theorem loadCatalog_run (h : Spread pg sch n ips heads rest c s avail) :
    loadCatalog.eval ((Staged.mk pg.sb ∅).read (volumeOf pg h.clean).base) pg.sb =
      .ok [entryOf sch s ips n] := by
  have ho := Multiset.mem_cons_self (Obj.blob [c] (encodeCatalog [entryOf sch s ips n]))
    (.blob [s] sch.encode ::ₘ .index ips heads ::ₘ rest)
  refine loadCatalog_blob h.holds ho h.head (h.short _ _ ho) fun e he => ?_
  rw [List.mem_singleton.mp he]
  exact h.entry_small

theorem schemaOf_run (h : Spread pg sch n ips heads rest c s avail) :
    (schemaOf (entryOf sch s ips n)).eval
      ((Staged.mk pg.sb ∅).read (volumeOf pg h.clean).base) pg.sb = .ok sch := by
  have hread : (readChain s).eval ((Staged.mk pg.sb ∅).read (volumeOf pg h.clean).base) pg.sb =
      .ok sch.encode := readChain_run h.holds schema_mem
  rw [schemaOf, Query.eval_bind_ok _ _ hread, Query.eval_lift,
    Table.decode_encode (h.short _ _ schema_mem)]
  rfl

theorem catIndex_run : catIndex [entryOf sch s ips n] sch.name = .ok 0 := by
  rw [catIndex, List.findIdx?_cons]
  simp only [beq_self_eq_true, if_true]
  rfl

/-- A row whose head in the index is a page of the volume, whatever lies on it. -/
theorem getRow (h : Spread pg sch n ips heads rest c s avail) {k : Nat} (hk : k < heads.length)
    {bytes : List Byte}
    (ho : Obj.blob [heads.getD k 0] bytes ∈ spread sch n ips heads rest c s) :
    (run (.getRow sch.name (rowIdAt ips k)) pg).1 =
      Outcome.ofExcept ((Reply.row ∘ fit sch.columns.length) <$> decodeRow bytes) := by
  have hhead := rowHeadAt_run h.holds index_mem hk
  rw [if_neg (ne_zero_of_data (h.holds.mem_range_of_foot ho List.mem_cons_self).1)] at hhead
  have hrow : (decodeRowFitted (heads.getD k 0) sch.columns.length).eval
      ((Staged.mk pg.sb ∅).read (volumeOf pg h.clean).base) pg.sb =
        Outcome.ofExcept (fit sch.columns.length <$> decodeRow bytes) := by
    have hread : (readChain (heads.getD k 0)).eval _ pg.sb = .ok bytes := readChain_run h.holds ho
    rw [decodeRowFitted, readRow, Query.eval_bind, Query.eval_bind_ok _ _ hread, Query.eval_lift]
    cases decodeRow bytes <;> rfl
  have hask : pg.ask (Store.getRow sch.name (rowIdAt ips k)) =
      Outcome.ofExcept (fit sch.columns.length <$> decodeRow bytes) := by
    refine ask_of_eval h.clean ?_
    rw [Store.getRow, Query.eval_bind_ok _ _ h.loadCatalog_run,
      Query.eval_bind_ok _ _ ((Query.eval_lift _ _ _).trans catIndex_run),
      Query.eval_bind_ok _ _ ((Query.eval_lift _ _ _).trans
        (show at! [entryOf sch s ips n] 0 = .ok _ from rfl)),
      Query.eval_bind_ok _ _ h.schemaOf_run, Query.eval_bind_ok _ _ hhead]
    exact hrow
  rw [run_answer h.clean h.quiet rfl hask]
  cases decodeRow bytes <;> rfl

/-- Where a head in the index is the page of the catalog, the page has two owners. -/
theorem not_partitioned (h : Spread pg sch n ips heads rest c s avail) {k : Nat}
    (hk : k < heads.length) (hc : heads.getD k 0 = c) : ¬ Partitioned pg := by
  have hcat := ask_of_eval h.clean h.loadCatalog_run
  have hindex := ask_of_eval h.clean (indexCollect_run h.holds index_mem)
  have hdata := (h.holds.mem_range_of_foot (p := c) (Multiset.mem_cons_self _ _)
    List.mem_cons_self).1
  have hne := ne_zero_of_data hdata
  have hslots : (rowIdAt ips k, c) ∈ liveRows ips heads := by
    refine List.mem_filterMap.mpr ⟨k, List.mem_range.mpr hk, ?_⟩
    rw [hc, if_pos hne]
  exact Store.not_partitioned hcat (List.mem_singleton_self _) hindex hslots hne h.head

end Spread

/-! ## A row id on the page of a record -/

section Forged

variable {V : Volume} {s : Staged Superblock Page} {avail : List Nat} {u : Stored}
  {j k c sp p q i : Nat} {r r' : Row}

/-- The chains of one table, two rows of it picked out. -/
theorem tableObjs_rows {r r' : List Nat × Row} (hr : u.slots.getD j none = some r)
    (hr' : u.slots.getD k none = some r') (hne : encodeRow r.2 ≠ encodeRow r'.2)
    (cats : Multiset Obj) : ∃ rest : Multiset Obj,
    cats + tableObjs [u] = .blob r.1 (encodeRow r.2) ::ₘ .blob r'.1 (encodeRow r'.2) ::ₘ
      (cats + (.index u.indexPages u.heads ::ₘ .blob u.schemaPages u.schema.encode ::ₘ rest)) := by
  have hmem : Stored.rowObj r' ∈ Stored.rowObjs u.slots :=
    Multiset.mem_coe.mpr (List.mem_map_of_mem (List.reduceOption_mem_iff.mpr
      (hr' ▸ getD_mem_slots (lt_of_slot hr'))))
  rw [rowObjs_split hr] at hmem
  rcases Multiset.mem_cons.mp hmem with heq | hmem
  · injection heq with _ hbytes
    exact absurd hbytes.symm hne
  · obtain ⟨others, hothers⟩ := Multiset.exists_cons_of_mem hmem
    refine ⟨others + (tableObjs [] + tableObjs []), ?_⟩
    rw [show [u] = [] ++ u :: [] from rfl, tableObjs_row hr, hothers, Stored.rowObj]
    simp only [← Multiset.singleton_add]
    ac_rfl

/-- `index_set` on a page of a record leaves no record there. -/
theorem indexSet_blob {s₀ : Staged Superblock Page} {ps : List Nat} {bytes : List Byte}
    {objs : Multiset Obj} (h : Stage V s₀ ps s avail (.blob [q] bytes ::ₘ objs))
    (hi : i * 8 + 8 ≤ bytes.length) (hcap : i < idxCap) (v : Nat) :
    ∃ s', (indexSet q i v).eval V.base s = (.ok (), s') ∧
      Stage V s₀ (ps ++ [q]) s' avail (.raw [q] ::ₘ objs) := by
  have ho := Multiset.mem_cons_self (Obj.blob [q] bytes) objs
  obtain ⟨hcount, -⟩ := blob_word (h.holds.owned.ok _ ho) hi
  have hq := h.holds.mem_range_of_foot (p := q) ho List.mem_cons_self
  have hread : s.read V.base q = .ok (V.view s q) := Volume.read_eq h.holds.size hq.1 hq.2
  refine ⟨⟨s.ctl, s.dirty.insert q (wrU64 (V.view s q) (idxHdr + i * 8) v)⟩, ?_, ?_⟩
  · rw [indexSet, eval_query_bind _ ((eval_getPage _ _ _).trans hread)]
    simp only [hcount]
    rw [if_neg (by omega), if_neg (by omega), eval_stage]
  · refine h.next (h.holds.rewrite rfl rfl (fun p hp => ?_) trivial) (moves_of_ctl rfl fun p => ?_)
      (fun p hp => ?_) fun rs b hb => ?_
    · rw [Volume.view_insert, upd_other fun heq => hp (List.mem_singleton.mpr heq)]
    · rw [List.mem_singleton]
      exact mem_insert_iff
    · rw [List.mem_singleton.mp hp]
      exact hq.1
    · rcases Multiset.mem_cons.mp hb with heq | hb
      · cases heq
      · exact .inl (Multiset.mem_cons_of_mem hb)

/-- A delete with an id on the page of the record `r'`, whose slot there is the
head of the record `r`: the page of `r` is freed and taken for the catalog, and
the index still has it. -/
theorem delete_forged (h : Readable V s avail [c] [u]) (hc : (dbOf [u]).Closed)
    (hsp : u.schemaPages = [sp]) (hr : u.slots.getD j none = some ([p], r))
    (hr' : u.slots.getD k none = some ([q], r')) (hne : encodeRow r ≠ encodeRow r')
    (hi : i * 8 + 8 ≤ (encodeRow r').length) (hcap : i < idxCap)
    (hword : ofLe (((encodeRow r').drop (i * 8)).take 8) = p)
    (hkeys : ∀ o ∈ dbOf [u], ∀ fk ∈ o.schema.fks, fk.toTable ≠ u.schema.name)
    (hn : Database.catalogPages (dbOf [u]) ≤ 1) :
    ∃ body s' ps rest, (delete u.schema.name ⟨q, i⟩).eval (s.read V.base) s.ctl = .ok (.tx body) ∧
      body.eval V.base s = (.ok (), s') ∧ ps ≠ [] ∧
      Stage V (withCatalog s p) ps s' (c :: avail) (spread u.schema (u.live.length - 1)
        u.indexPages u.heads (.raw [q] ::ₘ rest) p sp) := by
  have hu : u ∈ [u] := List.mem_singleton_self u
  have hget : [u][0]? = some u := rfl
  have hblob := h.holds.owned.ok _ (Readable.row_mem hu (hr' ▸ getD_mem_slots (lt_of_slot hr')))
  obtain ⟨hcount, hslot⟩ := blob_word hblob hi
  have hq := h.holds.mem_range_of_foot (p := q)
    (Readable.row_mem hu (hr' ▸ getD_mem_slots (lt_of_slot hr'))) List.mem_cons_self
  have hp := h.holds.mem_range_of_foot (p := p)
    (Readable.row_mem hu (hr ▸ getD_mem_slots (lt_of_slot hr))) List.mem_cons_self
  have hread : s.read V.base q = .ok (V.view s q) := Volume.read_eq h.holds.size hq.1 hq.2
  have hhead : (rowHeadAt ⟨q, i⟩).eval (s.read V.base) s.ctl = .ok p := by
    rw [rowHeadAt, Query.eval_bind_ok _ _ ((eval_getPage _ _ _).trans hread)]
    simp only [hcount, hslot, hword]
    rw [if_neg (by omega), if_neg (by omega), if_neg (ne_zero_of_data hp.1)]
    rfl
  have hrow : (decodeRowFitted p u.schema.columns.length).eval (s.read V.base) s.ctl =
      .ok (fit u.schema.columns.length r) :=
    @decodeRowFitted_slot _ _ _ _ [] [] _ _ _ h hr _
  have hguard := restrict_free h hc hget hkeys ⟨q, i⟩ (fit u.schema.columns.length r)
    (fun _ _ => false) (fun _ _ => false) (fun _ _ _ _ => rfl)
  have hlowered : lowered ([u].map Stored.entry) 0 u.entry =
      [entryOf u.schema sp u.indexPages (u.live.length - 1)] := by
    rw [lowered, Stored.entry, hsp]
    rfl
  have hone : nchunks (encodeCatalog (lowered ([u].map Stored.entry) 0 u.entry)) = 1 := by
    have hle := nchunks_catalog (lowered_names [] u [])
    have hpos := nchunks_pos (encodeCatalog (lowered ([u].map Stored.entry) 0 u.entry))
    exact Nat.le_antisymm (hle.trans hn) hpos
  -- the writes
  have hs := h.stage
  obtain ⟨rest, hrest⟩ := @tableObjs_rows u j k ([p], r) ([q], r') hr hr' hne (catalogObjs [c] [u])
  rw [hrest] at hs
  obtain ⟨s₁, he₁, h₁⟩ := freeChain_ok hs blob_ne_raw
  obtain ⟨s₂, he₂, h₂⟩ := indexSet_blob h₁ hi hcap 0
  have h₂' := h₂.recast (show catalogBlob [c] (encodeCatalog ([u].map Stored.entry)) +
      (.raw [q] ::ₘ .index u.indexPages u.heads ::ₘ
        .blob u.schemaPages u.schema.encode ::ₘ rest) = _ by
    show catalogObjs [c] [u] + _ = _
    simp only [← Multiset.singleton_add]
    ac_rfl)
  obtain ⟨s₃, he₃, h₃⟩ := storeCatalog_room h₂' (h₂'.moves.catalog.trans h.catalog)
    (show nchunks (encodeCatalog (lowered ([u].map Stored.entry) 0 u.entry)) ≤
      (p :: avail).length by
        rw [hone]
        exact Nat.succ_pos _)
  rw [hone, hlowered, hsp] at h₃
  have h₃' := h₃.recast (show spread u.schema (u.live.length - 1) u.indexPages u.heads
      (.raw [q] ::ₘ rest) p sp = _ by
    simp only [← Multiset.singleton_add]
    ac_rfl)
  refine ⟨_, s₃, _, rest, rfl, ?_, ?_, h₃'⟩
  · rw [@opened_tx _ _ _ _ [] [] u _ _ h (catIndex_at hc.names hget), eval_query_bind _ hhead,
      eval_query_bind _ hrow]
    exact (eval_query_bind _ hguard).trans
      ((eval_bind_ok _ he₁).trans ((eval_bind_ok _ he₂).trans he₃))
  · simp

end Forged

/-- Run on a handle. -/
theorem run_delete_forged {pg : Pager Disk} {u : Stored} (hL : Laid pg [u])
    (hsmall : pg.sb.totalPages - firstDataPage < jcap) (hc : (dbOf [u]).Closed)
    {j k p q i : Nat} {r r' : Row} (hr : u.slots.getD j none = some ([p], r))
    (hr' : u.slots.getD k none = some ([q], r')) (hne : encodeRow r ≠ encodeRow r')
    (hi : i * 8 + 8 ≤ (encodeRow r').length) (hcap : i < idxCap)
    (hword : ofLe (((encodeRow r').drop (i * 8)).take 8) = p)
    (hkeys : ∀ o ∈ dbOf [u], ∀ fk ∈ o.schema.fks, fk.toTable ≠ u.schema.name)
    (hsch : u.schema.encode.length ≤ chainCap) (hn : Database.catalogPages (dbOf [u]) ≤ 1) :
    ∃ pg' rest c s avail, run (.delete u.schema.name ⟨q, i⟩) pg = (.ok .done, pg') ∧
      Spread pg' u.schema (u.live.length - 1) u.indexPages u.heads (.raw [q] ::ₘ rest) p s
        (c :: avail) := by
  obtain ⟨avail, cat, h⟩ := hL.readable
  have hu : u ∈ [u] := List.mem_singleton_self u
  obtain ⟨c, rfl⟩ : ∃ c, cat = [c] := by
    have hnil : cat ≠ [] := fun hnil => absurd (h.empty hnil) (List.cons_ne_nil u [])
    have ho : Obj.blob cat (encodeCatalog ([u].map Stored.entry)) ∈
        catalogObjs cat [u] + tableObjs [u] := by
      rw [catalogObjs, if_neg hnil]
      exact Multiset.mem_add.mpr (.inl (Multiset.mem_singleton_self _))
    have hle := nchunks_catalog (names_entries [u])
    exact one_page (h.holds.owned.ok _ ho) (hle.trans hn)
  obtain ⟨sp, hsp⟩ : ∃ s, u.schemaPages = [s] :=
    one_page (h.holds.owned.ok _ (Readable.schema_mem hu)) (nchunks_le hsch).le
  obtain ⟨body, s', ps, rest, hm, hb, hps, hs⟩ :=
    delete_forged h hc hsp hr hr' hne hi hcap hword hkeys hn
  have hm' : (method (.delete u.schema.name ⟨q, i⟩)).eval
      ((Staged.mk pg.sb ∅).read (volumeOf pg hL.clean).base) pg.sb =
        .ok (.tx ((fun _ => .done) <$> body)) := (Query.eval_bind_ok _ _ hm).trans rfl
  have hb' : ((fun _ => .done) <$> body : PageProg (Reply RowId)).eval
      (volumeOf pg hL.clean).base ⟨pg.sb, ∅⟩ = (.ok .done, s') := (eval_bind_ok _ hb).trans rfl
  have hp := h.holds.mem_range_of_foot (p := p)
    (Readable.row_mem hu (hr ▸ getD_mem_slots (lt_of_slot hr))) List.mem_cons_self
  obtain ⟨pg', hc', hrun, hq', htotal, hcount, hholds, hcatalog⟩ := run_staged hL.clean hL.quiet
    hsmall hm' hb' hs hps (Nat.lt_trans hp.2 (volumeOf pg hL.clean).total_lt)
  have hlive := h.length_live_le hu
  have htlt := (volumeOf pg hL.clean).total_lt
  exact ⟨pg', rest, c, sp, avail, hrun, hc', hq', htotal ▸ hsmall, hholds, hcatalog, by omega,
    fun qs bytes ho => hs.bytes_lt hcount ho⟩

/-! ## Two rows of one text -/

/-- A text whose last eight bytes name a page. -/
def naming (p : Nat) : String :=
  String.ofList (['a', 'a', 'a', 'a', Char.ofNat (p % 256), Char.ofNat (p / 256)] ++
    List.replicate 6 (Char.ofNat 0))

/-- As a record it names the page in its second slot. -/
theorem encode_naming : ∀ n < 52, (encodeRow [some (.str (naming (2048 + n)))]).length = 16 ∧
    ofLe (((encodeRow [some (.str (naming (2048 + n)))]).drop (1 * 8)).take 8) = 2048 + n := by
  decide

/-- A table with one column, of texts. -/
def oneColumn (table col : String) : Table :=
  ⟨table, [⟨col, .string, true, false, none⟩], [], []⟩

def twoRows (table col : String) (a b : RowId) : Database RowId :=
  [⟨oneColumn table col, [(a, [some (.str "a")]), (b, [some (.str "b")])], [a, b]⟩]

def rowCalls (table col : String) : List (StoreEvent RowId) :=
  [.call (.createTable table), .call (.addColumn table ⟨col, .string, true, false, none⟩),
    .call (.insert table [some (.str "a")]), .call (.insert table [some (.str "b")])]

def noteCalls : List (StoreEvent RowId) :=
  [.call (.createTable "notes"), .call (.addColumn "notes" ⟨"text", .string, true, false, none⟩),
    .call (.insert "notes" [some (.str "a")]), .call (.insert "notes" [some (.str "b")])]

theorem rows_short : nchunks (encodeRow [some (.str "a")]) = 1 ∧
    nchunks (encodeRow [some (.str "b")]) = 1 := by
  decide

theorem replace_single (t : TableState RowId) (f : TableState RowId → TableState RowId) :
    Database.replace [t] t.schema.name f = [f t] := by
  simp [Database.replace]

/-- How many pages a database of one table takes. -/
theorem pages_single (t : TableState RowId) : Database.pages [t] =
    blocks chainCap (catalogLen [t.schema.name]) + (nchunks t.schema.encode +
      blocks idxCap t.issued.length + (t.rows.map fun r => nchunks (encodeRow r.2)).sum) := by
  rw [Database.pages, Database.catalogPages, List.map_singleton, List.map_singleton,
    List.sum_singleton, TableState.pages]

/-- Two rows of one text each, after four calls. -/
theorem twoRows_seated {d : Disk} {n : Nat} {pg : Pager Disk} (h : Seated d n [] pg [])
    {table col : String} (hne : table ≠ "")
    (hcreate : nchunks (Table.new table).encode + nchunks (oneColumn table col).encode +
      2 * blocks chainCap (catalogLen [table]) + 1 ≤ n - firstDataPage)
    (hinsert : nchunks (oneColumn table col).encode + 2 * blocks chainCap (catalogLen [table]) + 4 ≤
      n - firstDataPage) : ∃ a b pg',
    history (rowCalls table col) pg =
      ([.ok .done, .ok .done, .ok (.inserted a), .ok (.inserted b)], pg') ∧
    Seated d n [(table, a), (table, b)] pg' (twoRows table col a b) := by
  obtain ⟨ha₁, hb₁⟩ := rows_short
  have hempty : blocks idxCap 0 = 1 := rfl
  have hone : blocks idxCap 1 = 1 := rfl
  have hcat : 1 ≤ blocks chainCap (catalogLen [table]) := le_max_left _ _
  have hsch : 1 ≤ nchunks (oneColumn table col).encode := nchunks_pos _
  obtain ⟨pg₁, hrun₁, h₁⟩ : ∃ pg', run (.createTable table) pg = (.ok .done, pg') ∧
      Seated d n [] pg' [⟨Table.new table, [], []⟩] := by
    obtain ⟨ha, h'⟩ := h.createTable hne (by simp) (by
      have hnil : Database.pages ([] : Database RowId) = 1 := rfl
      show nchunks (Table.new table).encode + 1 + blocks chainCap (catalogLen [table]) + _ ≤ _
      omega)
    exact ⟨_, Prod.ext ha rfl, h'⟩
  obtain ⟨pg₂, hrun₂, h₂⟩ : ∃ pg', run (.addColumn table ⟨col, .string, true, false, none⟩)
      pg₁ = (.ok .done, pg') ∧ Seated d n [] pg' [⟨oneColumn table col, [], []⟩] := by
    have hadd : Database.addColumn ([⟨Table.new table, [], []⟩] : Database RowId) table
        ⟨col, .string, true, false, none⟩ = .ok [⟨oneColumn table col, [], []⟩] := by
      have hlook : Database.lookup ([⟨Table.new table, [], []⟩] : Database RowId) table =
          .ok ⟨Table.new table, [], []⟩ :=
        Database.lookup_of_mem (t := ⟨Table.new table, [], []⟩) (by simp)
          (List.mem_singleton_self _)
      rw [Database.addColumn, hlook]
      exact congrArg Except.ok (replace_single ⟨Table.new table, [], []⟩ _)
    obtain ⟨ha, h'⟩ := @Seated.addColumn _ _ _ _ _ h₁ _ (List.mem_singleton_self _)
      ⟨col, .string, true, false, none⟩ rfl rfl rfl (by
        rw [pages_single]
        show nchunks (oneColumn table col).encode + blocks chainCap (catalogLen [table]) +
          (blocks chainCap (catalogLen [table]) + (nchunks (Table.new table).encode +
            blocks idxCap 0 + 0)) ≤ _
        omega) _ hadd
    exact ⟨_, Prod.ext ha rfl, h'⟩
  obtain ⟨a, pg₃, hrun₃, h₃⟩ : ∃ a pg', run (.insert table [some (.str "a")]) pg₂ =
      (.ok (.inserted a), pg') ∧ Seated d n [(table, a)] pg'
        [⟨oneColumn table col, [(a, [some (.str "a")])], [a]⟩] := by
    obtain ⟨a, -, ha, h'⟩ := @Seated.insert _ _ _ _ _ h₂ _ (List.mem_singleton_self _)
      [some (.str "a")] rfl (by
        rw [pages_single, ha₁]
        show 1 + 1 + blocks chainCap (catalogLen [table]) + (blocks chainCap (catalogLen [table]) +
          (nchunks (oneColumn table col).encode + blocks idxCap 0 + 0)) ≤ _
        omega)
    rw [replace_single] at h'
    exact ⟨a, _, Prod.ext ha rfl, h'⟩
  obtain ⟨b, pg₄, hrun₄, h₄⟩ : ∃ b pg', run (.insert table [some (.str "b")]) pg₃ =
      (.ok (.inserted b), pg') ∧
        Seated d n [(table, a), (table, b)] pg' (twoRows table col a b) := by
    obtain ⟨b, -, hb, h'⟩ := @Seated.insert _ _ _ _ _ h₃ _ (List.mem_singleton_self _)
      [some (.str "b")] rfl (by
        rw [pages_single, hb₁, List.map_singleton, List.sum_singleton, ha₁]
        show 1 + 1 + blocks chainCap (catalogLen [table]) + (blocks chainCap (catalogLen [table]) +
          (nchunks (oneColumn table col).encode + blocks idxCap 1 + 1)) ≤ _
        omega)
    rw [replace_single] at h'
    exact ⟨b, _, Prod.ext hb rfl, h'⟩
  refine ⟨a, b, pg₄, ?_, h₄⟩
  rw [rowCalls, history_call hrun₁, history_call hrun₂, history_call hrun₃, history_call hrun₄]
  rfl

/-- A page of a record is none that a row id of the index names. -/
theorem ne_rowIdAt {V : Volume} {s : Staged Superblock Page} {avail : List Nat}
    {objs : Multiset Obj} (h : Holds V s avail objs) {ips slots ps : List Nat} {bytes : List Byte}
    (hindex : Obj.index ips slots ∈ objs) (hblob : Obj.blob ps bytes ∈ objs) {q i k : Nat}
    (hq : q ∈ ps) (hk : k < slots.length) : (⟨q, i⟩ : RowId) ≠ rowIdAt ips k := by
  have hlinked : Linked indexLayout (V.view s) ips slots := h.owned.ok _ hindex
  have hpage : (rowIdAt ips k).indexPage ∈ ips := getD_mem (hlinked.div_lt hk)
  obtain ⟨rest, rfl⟩ := Multiset.exists_cons_of_mem hindex
  have hrest : Obj.blob ps bytes ∈ rest := (Multiset.mem_cons.mp hblob).resolve_left nofun
  have howned := h.owned
  rw [← Multiset.singleton_add] at howned
  intro heq
  rw [← congrArg RowId.indexPage heq] at hpage
  exact howned.disjoint (nodup_dataPages _)
    (Objects.mem_feet.mpr ⟨_, Multiset.mem_singleton_self _, hpage⟩)
    (Objects.mem_feet.mpr ⟨_, hrest, hq⟩)

/-- Two rows of a table that is the only one are in two slots of it. -/
theorem slots_of_two {L : List Stored} {sch : Table} {a b : RowId} {x y : Row}
    {issued : List RowId} (hL : dbOf L = [⟨sch, [(a, x), (b, y)], issued⟩]) :
    ∃ w j k r r', L = [w] ∧ w.slots.getD j none = some r ∧ w.slots.getD k none = some r' ∧
      rowIdAt w.indexPages j = a ∧ rowIdAt w.indexPages k = b ∧ r.2 = x ∧ r'.2 = y := by
  obtain ⟨w, rfl⟩ : ∃ w, L = [w] := by
    rw [← List.length_eq_one_iff, ← List.length_map (f := Stored.state)]
    exact congrArg List.length hL
  have hw : w.state = ⟨sch, [(a, x), (b, y)], issued⟩ := (List.cons.inj hL).1
  have hslot : ∀ (id : RowId) (row : Row), (id, row) ∈ w.state.rows → ∃ k r,
      w.slots.getD k none = some r ∧ rowIdAt w.indexPages k = id ∧ r.2 = row := by
    intro id row hrow
    obtain ⟨x, hx, heq⟩ := mem_rows hrow
    obtain ⟨k, -, hr, hid⟩ := mem_live.mp hx
    injection heq with hid' hrow'
    exact ⟨k, x.2, hr, hid.trans hid'.symm, hrow'.symm⟩
  obtain ⟨j, r, hr, hida, hx⟩ := hslot a x (by simp [hw])
  obtain ⟨k, r', hr', hidb, hy⟩ := hslot b y (by simp [hw])
  exact ⟨w, j, k, r, r', rfl, hr, hr', hida, hidb, hx, hy⟩

/-- A table without keys, the only one. -/
theorem closed_single {t : TableState RowId} (hcols : (t.schema.columns.map (·.name)).Nodup)
    (hfks : t.schema.fks = []) (hrefs : t.schema.refCols = []) : Database.Closed [t] := by
  refine ⟨by simp, ?_, ?_, ?_, ?_⟩ <;> simp [hcols, hfks, hrefs]

/-- Where an id on the page of a record has deleted: the second of two rows was replaced by
a text that names the page of the first, the page is the head of the catalog now, and the
index still leads to it. -/
structure Forged (table col : String) (pg : Pager Disk) (a b : RowId) (text : String) (id : RowId)
    (pg' : Pager Disk) : Prop where
  format : formatStore wideDisk = (.ok pg, pg.dev)
  calls : (history (rowCalls table col) pg).1 =
    [.ok .done, .ok .done, .ok (.inserted a), .ok (.inserted b)]
  row : (run (.getRow table a) (history (rowCalls table col) pg).2).1 =
    .ok (.row [some (.str "a")])
  apart : b ≠ a ∧ id ≠ a
  edits : history [.call (.update table b [some (.str text)]), .call (.delete table id)]
    (history (rowCalls table col) pg).2 = ([.ok .done, .ok .done], pg')
  spread : ∃ n ips heads rest k s c avail, Spread pg' (oneColumn table col) n ips heads rest
    (heads.getD k 0) s (c :: avail) ∧ rowIdAt ips k = a ∧ k < heads.length

theorem forged {table col : String} (hne : table ≠ "")
    (hnew : (Table.new table).encode.length ≤ chainCap)
    (hsch : (oneColumn table col).encode.length ≤ chainCap)
    (hcat : catalogLen [table] ≤ chainCap) :
    ∃ pg a b text id pg', Forged table col pg a b text id pg' := by
  have hdata : 2100 - firstDataPage = 51 := by decide
  have hcatalog : blocks chainCap (catalogLen [table]) = 1 :=
    Nat.le_antisymm ((blocks_mono hcat).trans (by decide)) (le_max_left _ _)
  obtain ⟨pg₀, hformat, h₀⟩ := wideDisk_seated
  obtain ⟨a, b, pg, hcalls, h⟩ := @twoRows_seated _ _ _ h₀ table col hne
    (by rw [nchunks_le hnew, nchunks_le hsch, hcatalog, hdata]; decide)
    (by rw [nchunks_le hsch, hcatalog, hdata]; decide)
  obtain ⟨L, hL, hdb⟩ := h.mirrored.stores
  obtain ⟨w, j, k, ⟨ps, _⟩, r', rfl, hr, hr', hida, hidb, rfl, hb⟩ := slots_of_two hdb
  have hstate : w.state = ⟨oneColumn table col, _, _⟩ := (List.cons.inj hdb).1
  have hkeys : ∀ t : TableState RowId, t.schema = oneColumn table col → ∀ o ∈ [t],
      ∀ fk ∈ o.schema.fks, fk.toTable ≠ t.schema.name := by
    intro t ht o ho fk hfk
    rw [List.mem_singleton.mp ho, ht] at hfk
    cases hfk
  obtain ⟨avail, cat, hread⟩ := hL.readable
  have hw : w ∈ [w] := List.mem_singleton_self w
  -- the page of the first row
  have hshort : (encodeRow [some (.str "a")]).length ≤ chainCap := by decide
  obtain ⟨p, rfl⟩ := row_one_page hread hw hr hshort
  have hrow : Obj.blob [p] (encodeRow [some (.str "a")]) ∈ catalogObjs cat [w] + tableObjs [w] :=
    Readable.row_mem hw (hr ▸ getD_mem_slots (lt_of_slot hr))
  obtain ⟨hlow, hhigh⟩ := hread.holds.mem_range_of_foot (p := p) hrow List.mem_cons_self
  have htotal : (volumeOf pg hL.clean).total = 2100 := h.total
  obtain ⟨n, rfl⟩ := Nat.exists_eq_add_of_le (Nat.le_of_succ_le hlow : 2048 ≤ p)
  obtain ⟨hlen, hword⟩ := encode_naming n (by omega)
  generalize naming (2048 + n) = text at hlen hword
  have hmem : ⟨oneColumn table col, [(a, [some (.str "a")]), (b, [some (.str "b")])], [a, b]⟩ ∈
      dbOf [w] := by
    rw [hdb]
    exact List.mem_singleton_self _
  have hgetRow := hL.laid.getRow hL.intact.names hmem List.mem_cons_self
  -- the second one is replaced
  have hroom : nchunks (encodeRow [some (.str text)]) + (dbOf [w]).pages ≤
      pg.sb.totalPages - firstDataPage := by
    rw [nchunks_le (by rw [hlen]; decide), hdb, h.total, hdata, twoRows, pages_single]
    show 1 + (blocks chainCap (catalogLen [table]) + (nchunks (oneColumn table col).encode +
      blocks idxCap 2 + (nchunks (encodeRow [some (.str "a")]) +
        (nchunks (encodeRow [some (.str "b")]) + 0)))) ≤ 51
    rw [hcatalog, nchunks_le hsch, rows_short.1, rows_short.2]
    decide
  have hvalid : (dbOf [w]).validate w.state [some (.str text)] (some (rowIdAt w.indexPages k)) =
      .ok () := by
    rw [hdb, hstate]
    rfl
  obtain ⟨pg', qs, hrun, hL', htotal'⟩ :=
    @Laid.update_slot pg [some (.str text)] [] [] [] [] w w k r' hL.laid (h.total ▸ h.small)
      hL.intact.closed rfl hr' hvalid
      (Database.restrict_unkeyed (hkeys w.state (by rw [hstate])) _ _ _) hroom
  have hjk : k ≠ j := by
    rintro rfl
    rw [hr] at hr'
    injection hr' with hr'
    rw [← hr'] at hb
    have hsame : [some (Value.str "a")] = [some (.str "b")] := hb
    exact absurd hsame (by decide)
  have hj := (getD_set_ne hjk (some (qs, [some (.str text)]))).trans hr
  have hk := getD_set_self (lt_of_slot hr') (some (qs, [some (.str text)]))
  generalize hw' : { w with slots := w.slots.set k (some (qs, [some (.str text)])) } = w' at hL'
  have hschema : w'.schema = oneColumn table col := by
    rw [← hw']
    exact congrArg TableState.schema hstate
  have hips : w'.indexPages = w.indexPages := by rw [← hw']
  have hslots : w'.slots = w.slots.set k (some (qs, [some (.str text)])) := by rw [← hw']
  rw [← hslots] at hj hk
  obtain ⟨avail', cat', hread'⟩ := hL'.readable
  obtain ⟨q, rfl⟩ := row_one_page hread' (List.mem_singleton_self w') hk (by rw [hlen]; decide)
  -- and its page read as one of the index
  have hne' : encodeRow [some (.str "a")] ≠ encodeRow [some (.str text)] := by
    intro heq
    rw [← heq] at hlen
    exact absurd hlen (by decide)
  have hpages : Database.catalogPages [w'.state] ≤ 1 := by
    rw [Database.catalogPages, List.map_singleton, Stored.state_schema, hschema]
    exact hcatalog.le
  have hclosed : Database.Closed [w'.state] :=
    closed_single (by rw [Stored.state_schema, hschema]; exact List.nodup_singleton _)
      (by rw [Stored.state_schema, hschema]; rfl) (by rw [Stored.state_schema, hschema]; rfl)
  obtain ⟨pg'', rest, c, s, avail'', hrun', hspread⟩ := @run_delete_forged pg' w' hL'
    (htotal' ▸ h.total ▸ h.small) hclosed j k (2048 + n) q 1 _ _ hj hk hne' (by rw [hlen])
    (by decide) hword (hkeys _ hschema) (hschema ▸ hsch) hpages
  have hname : w.schema.name = table := congrArg (fun t => t.schema.name) hstate
  have hhead : w'.heads.getD j 0 = 2048 + n := by
    rw [heads_getD (lt_of_slot hj), hj]
    rfl
  have hid : (⟨q, 1⟩ : RowId) ≠ a := by
    have hw' := List.mem_singleton_self w'
    rw [← hida, ← hips]
    refine ne_rowIdAt hread'.holds (Readable.index_mem hw')
      (Readable.row_mem hw' (hk ▸ getD_mem_slots (lt_of_slot hk))) (List.mem_singleton_self q) ?_
    rw [Stored.heads, List.length_map]
    exact lt_of_slot hj
  have hba : b ≠ a := by
    rw [← hida, ← hidb]
    exact fun heq => hjk (rowIdAt_slot_inj hread hw (lt_of_slot hr') (lt_of_slot hr) heq)
  rw [hidb, hname] at hrun
  rw [hschema] at hspread
  have hdelete : run (.delete table ⟨q, 1⟩) pg' = (.ok .done, pg'') := by
    rw [hschema] at hrun'
    exact hrun'
  refine ⟨pg₀, a, b, text, ⟨q, 1⟩, pg'', hformat, congrArg Prod.fst hcalls, ?_, ⟨hba, hid⟩, ?_,
    _, _, _, _, j, s, c, avail'', hhead ▸ hspread, hips ▸ hida, ?_⟩
  · rw [hcalls]
    exact hgetRow
  · rw [hcalls, history_call hrun, history_call hdelete]
    rfl
  · rw [Stored.heads, List.length_map]
    exact lt_of_slot hj

/-! ## One owner for each page -/

/-- In every reachable state each data page below the high-water mark belongs to
one chain: the free list, the catalog, or the schema, the index or a live row of
one table. -/
theorem pages_partitioned {d : Disk} (hq : d.Quiet) {led : Ledger RowId} {pg : Pager Disk}
    (h : Reachable d led pg) : Partitioned pg := by
  obtain ⟨db, hdb⟩ := h.mirrored hq
  obtain ⟨L, hL, -⟩ := hdb.stores
  obtain ⟨avail, cat, hr⟩ := hL.readable
  obtain ⟨F, -, hpart⟩ := partition_of_readable hL.clean hr
  exact ⟨_, _, _, _, hpart⟩

theorem pages_partitioned_family : ∃ ann bob pg,
    Reachable wideDisk [("people", ann), ("people", bob)] pg ∧ Partitioned pg := by
  obtain ⟨ann, bob, pg, h⟩ := family_seated
  exact ⟨ann, bob, pg, h.reach, pages_partitioned wideDisk_quiet h.reach⟩

/-- Two notes are written, and the second is replaced by a text that names the
page of the first. A row id on the page of that text deletes the first note, and
its page is the head of the catalog and of a row at once. -/
theorem record_as_index : ∃ pg a b text id, formatStore wideDisk = (.ok pg, pg.dev) ∧
    (history noteCalls pg).1 = [.ok .done, .ok .done, .ok (.inserted a), .ok (.inserted b)] ∧
    ¬ Partitioned (history (noteCalls ++ [.call (.update "notes" b [some (.str text)]),
      .call (.delete "notes" id)]) pg).2 := by
  obtain ⟨pg, a, b, text, id, pg', h⟩ := @forged "notes" "text" (by decide) (by decide) (by decide)
    (by decide)
  refine ⟨pg, a, b, text, id, h.format, h.calls, ?_⟩
  obtain ⟨n, ips, heads, rest, k, s, c, avail, hspread, -, hk⟩ := h.spread
  have hedits := congrArg Prod.snd h.edits
  rw [history_append]
  exact (congrArg Partitioned hedits).mp.mt (hspread.not_partitioned hk rfl)

end Store

end TablesOS
