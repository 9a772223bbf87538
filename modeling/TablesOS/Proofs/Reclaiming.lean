import TablesOS.Proofs.Ownership

/-!
# What a full volume gives back

To delete a row or to drop a table takes pages: the catalog is written to a
fresh chain before the old one is freed, and every page freed is a page written.
`Room` is what such a transaction needs, and it is all it needs: with the row
ids the store has handed out, a row that no other refers to is deleted and a
table that no other points to is dropped if there is room, and else the answer
is `OutOfSpace` (`space_reclaimed`). On a volume with one page free and a
catalog of three, a row of one page cannot be deleted (`delete_without_room`).
-/

namespace TablesOS

open Prog Codec Journal

namespace Store

open Pager

/-! ## Room -/

/-- A transaction that frees the pages `freed` and writes the pages `extra`, and then
puts the catalog `es` in place of the one on the pages `catalog`, finds its pages, and
the journal has room for it. -/
def Room (avail catalog freed extra : List Nat) (es : List CatEntry) : Prop :=
  nchunks (encodeCatalog es) ≤ (freed.reverse ++ avail).length ∧
    (freed ++ extra ++ ((freed.reverse ++ avail).take (nchunks (encodeCatalog es)) ++
      catalog)).dedup.length < jcap

instance (avail catalog freed extra : List Nat) (es : List CatEntry) :
    Decidable (Room avail catalog freed extra es) :=
  inferInstanceAs (Decidable (_ ∧ _))

/-- The pages the allocator hands out next. -/
def unused (pg : Pager Disk) (free : List Nat) : List Nat :=
  free ++ List.range' pg.sb.hwm (pg.sb.totalPages - pg.sb.hwm)

theorem size_of_mem {m : PageMap} {ps : List Nat} (h : ∀ q, q ∈ m ↔ q ∈ ps) :
    m.size = ps.dedup.length := by
  rw [← Std.TreeMap.length_keys]
  refine List.Perm.length_eq ?_
  rw [List.perm_ext_iff_of_nodup Std.TreeMap.nodup_keys (List.nodup_dedup ps)]
  intro q
  rw [Std.TreeMap.mem_keys, h, List.mem_dedup]

/-- A body that frees pages and then writes the catalog ends well if there is
room. -/
theorem run_reclaims {pg : Pager Disk} (hc : pg.Clean) (hq : pg.dev.Quiet) {op : Op RowId}
    {q : PageQuery (Call Unit)} (hop : method op = silent q) {body : PageProg Unit}
    (hbody : q.eval ((Staged.mk pg.sb ∅).read (volumeOf pg hc).base) pg.sb = .ok (.tx body))
    {es : List CatEntry} {s₁ : Staged Superblock Page}
    (hb : body.eval (volumeOf pg hc).base ⟨pg.sb, ∅⟩ =
      (storeCatalog es).eval (volumeOf pg hc).base s₁)
    {avail cat freed extra : List Nat} {bytes : List Byte} {objs : Multiset Obj}
    (hs : Stage (volumeOf pg hc) ⟨pg.sb, ∅⟩ (freed ++ extra) s₁ (freed.reverse ++ avail)
      (catalogBlob cat bytes + objs)) (hcat : pg.sb.catalogHead = cat.headD 0) :
    (run op pg).1 = if Room avail cat freed extra es then .ok .done else .err .outOfSpace := by
  have hm : (method op).eval ((Staged.mk pg.sb ∅).read (volumeOf pg hc).base) pg.sb =
      .ok (.tx ((fun _ => .done) <$> body)) := by
    rw [hop]
    exact (Query.eval_bind_ok _ _ hbody).trans rfl
  obtain ⟨hsize, pg₁, hcall, hstill, hclean, -⟩ :=
    call_tx hc hq (steady_method op) (ask_of_eval hc hm)
  have hquiet := hstill.quiet hq
  rw [← hstill.sb] at hsize
  have hatt : ∀ {o s}, ((fun _ => .done) <$> body : PageProg (Reply RowId)).eval
      (volumeOf pg hc).base ⟨pg.sb, ∅⟩ = (o, s) →
      pg₁.attempt ((fun _ => .done) <$> body) = (o, s) := by
    intro o s h
    rw [hstill.attempt]
    exact h
  by_cases hn : nchunks (encodeCatalog es) ≤ (freed.reverse ++ avail).length
  · obtain ⟨s, he, hs'⟩ := storeCatalog_room hs (hs.moves.catalog.trans hcat) hn
    have hdone : ((fun _ => .done) <$> body : PageProg (Reply RowId)).eval
        (volumeOf pg hc).base ⟨pg.sb, ∅⟩ = (.ok .done, s) :=
      (eval_bind_ok _ (hb.trans he)).trans rfl
    have hdirty : s.dirty.size = (freed ++ extra ++ ((freed.reverse ++ avail).take
        (nchunks (encodeCatalog es)) ++ cat)).dedup.length := by
      refine size_of_mem fun q => ?_
      rw [hs'.moves.staged]
      simp [withCatalog]
    have hpos := nchunks_pos (encodeCatalog es)
    by_cases hcount : s.dirty.size < jcap
    · obtain ⟨pg', -, hrun, -⟩ := run_committed hc hq hm hdone hs' (by
        refine List.ne_nil_of_length_pos ?_
        rw [List.length_append, List.length_append, List.length_append, List.length_take]
        omega) (hs'.head_lt (Multiset.mem_cons_self _ _)) hcount
      rw [if_pos ⟨hn, hdirty ▸ hcount⟩, hrun]
    · obtain ⟨pg', hfull⟩ := tx_full hclean hquiet hsize (hatt hdone) (Nat.le_of_not_lt hcount)
      rw [if_neg fun h => hcount (hdirty ▸ h.2), run, hcall, hfull]
  · obtain ⟨s, he⟩ := storeCatalog_full hs (Nat.lt_of_not_le hn)
    have herr : ((fun _ => .done) <$> body : PageProg (Reply RowId)).eval
        (volumeOf pg hc).base ⟨pg.sb, ∅⟩ = (.err .outOfSpace, s) :=
      eval_bind_err _ (hb.trans he)
    obtain ⟨pg', hfail⟩ := tx_attempt_err hclean hquiet hsize (hatt herr)
    rw [if_neg fun h => hn h.1, run, hcall, hfail]

section Rows

variable {pg : Pager Disk} (hclean : pg.Clean) (hq : pg.dev.Quiet) {avail cat : List Nat}
  {A B : List Stored} {t : Stored}

include hclean hq

/-- A delete that no other row forbids. -/
theorem run_delete (h : Readable (volumeOf pg hclean) ⟨pg.sb, ∅⟩ avail cat (A ++ t :: B))
    (hc : (dbOf (A ++ t :: B)).Closed) {k : Nat} {r : List Nat × Row}
    (hr : t.slots.getD k none = some r) (hlen : r.2.length = t.schema.columns.length)
    (hfree : (dbOf (A ++ t :: B)).restrict t.state (rowIdAt t.indexPages k) r.2
      (fun _ _ => false) = .ok ()) :
    (run (.delete t.schema.name (rowIdAt t.indexPages k)) pg).1 =
      if Room avail cat r.1 [(rowIdAt t.indexPages k).indexPage]
        (lowered ((A ++ t :: B).map Stored.entry) A.length t.entry)
      then .ok .done else .err .outOfSpace := by
  have hget : (A ++ t :: B)[A.length]? = some t := by simp
  obtain ⟨s₁, s₂, he₁, he₂, h₂⟩ := clear_ok h hr
  have hhead := rowHeadAt_slot h hr
  have hrow := decodeRowFitted_slot h hr t.schema.columns.length
  rw [fit_eq hlen] at hrow
  have hguard := @restrict_run _ _ _ _ _ _ _ (rowIdAt t.indexPages k) r.2 (fun _ _ => false)
    (fun _ _ => false) h hc hget fun _ _ _ _ => rfl
  rw [hfree] at hguard
  refine run_reclaims hclean hq rfl rfl ?_ h₂ h.catalog
  rw [opened_tx h (catIndex_at hc.names hget), eval_query_bind _ hhead, eval_query_bind _ hrow,
    eval_query_bind _ hguard, eval_bind_ok _ he₁, eval_bind_ok _ he₂]
  rfl

/-- Dropping a table that no other one points to. -/
theorem run_dropTable (h : Readable (volumeOf pg hclean) ⟨pg.sb, ∅⟩ avail cat (A ++ t :: B))
    (hc : (dbOf (A ++ t :: B)).Closed) (hfree : ∀ o ∈ dbOf (A ++ t :: B),
      o.schema.name ≠ t.schema.name → ∀ fk ∈ o.schema.fks, fk.toTable ≠ t.schema.name) :
    (run (.dropTable t.schema.name) pg).1 =
      if Room avail cat t.pages [] ((A ++ B).map Stored.entry)
      then .ok .done else .err .outOfSpace := by
  have hget : (A ++ t :: B)[A.length]? = some t := by simp
  obtain ⟨s₁, he₁, h₁⟩ := dropTable_frees h
  have hcheck := checkNotReferenced_run h hc hget
  have hnone : Database.refuseFirst ((dbOf (A ++ t :: B)).filter
      (·.schema.name ≠ t.schema.name)) (fun o =>
        if o.schema.fks.any (·.toTable == t.schema.name) then
          some (StoreError.schemaRejected ("table '" ++ t.schema.name ++
            "' is referenced by a foreign key in '" ++ o.schema.name ++ "'"))
        else none) = .ok () := by
    refine Database.refuseFirst_iff.mpr fun o ho => if_neg ?_
    obtain ⟨hmem, hne⟩ := List.mem_filter.mp ho
    rw [List.any_eq_true]
    rintro ⟨fk, hfk, hto⟩
    exact hfree o hmem (of_decide_eq_true hne) fk hfk (eq_of_beq hto)
  rw [hnone] at hcheck
  have h₁' : Stage (volumeOf pg hclean) ⟨pg.sb, ∅⟩ (t.pages ++ []) s₁ (t.pages.reverse ++ avail)
      (catalogBlob cat (encodeCatalog ((A ++ t :: B).map Stored.entry)) + tableObjs (A ++ B)) := by
    rw [List.append_nil]
    exact h₁
  refine run_reclaims hclean hq rfl rfl ?_ h₁' h.catalog
  rw [eval_query_bind _ h.loadCatalog_run,
    eval_bind_ok _ ((eval_outcome _ _ _).trans (congrArg (·, _) (catIndex_at hc.names hget))),
    eval_query_bind _ hcheck,
    eval_bind_ok _ ((eval_outcome _ _ _).trans (congrArg (·, _) (at_entry A t B))), he₁]

end Rows

theorem Stored.pages_eq (t : Stored) :
    t.pages = t.tablePages.rows.flatten ++ t.tablePages.index ++ t.tablePages.schema := by
  rw [Stored.pages, ← live_rows, Stored.tablePages, List.flatMap_map, ← List.flatMap_def]

/-! ## What a reachable store gives back -/

/-- No other row refers to the row `row` of `t` under that id. -/
def Unreferenced (db : Database RowId) (t : TableState RowId) (id : RowId) (row : Row) : Prop :=
  ∀ o ∈ db, ∀ fk ∈ o.schema.fks, fk.toTable = t.schema.name → ∀ key,
    t.schema.cell row fk.toCol = some key → ∀ r ∈ o.rows,
      ¬ (o.schema.name = t.schema.name ∧ r.1 = id) → o.schema.cell r.2 fk.fromCol ≠ some key

/-- No other table points to `t`. -/
def Untargeted (db : Database RowId) (t : TableState RowId) : Prop :=
  ∀ o ∈ db, o.schema.name ≠ t.schema.name → ∀ fk ∈ o.schema.fks, fk.toTable ≠ t.schema.name

/-- In every reachable state, for every table and every row of it: a delete that no
other row forbids and a drop that no other table forbids are answered `Ok` if
there is room for the pages they write, and else `OutOfSpace`. -/
theorem space_reclaimed {d : Disk} (hq : d.Quiet) {led : Ledger RowId} {pg : Pager Disk}
    (h : Reachable d led pg) : ∃ es free catalog tables db,
      Partition pg es free catalog tables ∧ OnPages pg es db ∧
      ∀ (i : Nat) e t T, es[i]? = some e → db[i]? = some t → tables[i]? = some T →
        (∀ (k : Nat) id row ps, t.rows[k]? = some (id, row) → T.rows[k]? = some ps →
          Unreferenced db t id row →
          (run (.delete t.schema.name id) pg).1 =
            if Room (unused pg free) catalog ps [id.indexPage] (lowered es i e)
            then .ok .done else .err .outOfSpace) ∧
        (Untargeted db t →
          (run (.dropTable t.schema.name) pg).1 =
            if Room (unused pg free) catalog (T.rows.flatten ++ T.index ++ T.schema) []
              (es.eraseIdx i)
            then .ok .done else .err .outOfSpace) := by
  obtain ⟨db, hdb⟩ := h.mirrored hq
  obtain ⟨L, hL, rfl⟩ := hdb.stores
  have hc := hL.intact.closed
  obtain ⟨avail, cat, hr⟩ := hL.readable
  obtain ⟨F, rfl, hpart⟩ := partition_of_readable hL.clean hr
  refine ⟨_, F, cat, _, dbOf L, hpart, onPages_of_readable hL.clean hr, ?_⟩
  intro i e t T he ht hT
  rw [List.getElem?_map, Option.map_eq_some_iff] at he hT
  obtain ⟨u, hu, rfl⟩ := he
  obtain ⟨u', hu', rfl⟩ := hT
  rw [hu] at hu'
  cases hu'
  rw [dbOf, List.getElem?_map, hu] at ht
  cases ht
  obtain ⟨hi, hget⟩ := List.getElem?_eq_some_iff.mp hu
  obtain ⟨A, B, rfl, rfl⟩ : ∃ A B, L = A ++ u :: B ∧ A.length = i := by
    refine ⟨L.take i, L.drop (i + 1), ?_, by rw [List.length_take]; omega⟩
    rw [← hget, ← List.drop_eq_getElem_cons hi, List.take_append_drop]
  have hmem : u ∈ A ++ u :: B := by simp
  refine ⟨fun k id row ps hrow hps hfree => ?_, fun hfree => ?_⟩
  · rw [Stored.state, List.getElem?_map, Option.map_eq_some_iff] at hrow
    obtain ⟨x, hx, hidrow⟩ := hrow
    cases hidrow
    rw [Stored.tablePages, List.getElem?_map, hx] at hps
    cases hps
    obtain ⟨k', -, hslot, hid⟩ := mem_live.mp (List.mem_of_getElem? hx)
    rw [← hid] at hfree ⊢
    refine run_delete hL.clean hL.quiet hr hc hslot ?_ (Database.restrict_iff.mpr ?_)
    · refine (hL.intact.tables _ (List.mem_map_of_mem hmem)).fitted.arity (x.1, x.2.2) ?_
      exact List.mem_map_of_mem (List.mem_of_getElem? hx)
    · exact fun o ho fk hfk hto key hkey _ => hfree o ho fk hfk hto key hkey
  · rw [← Stored.pages_eq, map_entry_eraseIdx]
    exact run_dropTable hL.clean hL.quiet hr hc hfree

/-- Bob is nobody's parent, and no other table points to the people. -/
theorem space_reclaimed_family : ∃ ann bob pg,
    Reachable wideDisk [("people", ann), ("people", bob)] pg ∧
    ((run (.delete "people" bob) pg).1 = .ok .done ∨
      (run (.delete "people" bob) pg).1 = .err .outOfSpace) ∧
    ((run (.dropTable "people") pg).1 = .ok .done ∨
      (run (.dropTable "people") pg).1 = .err .outOfSpace) := by
  obtain ⟨ann, bob, pg, h⟩ := family_seated
  obtain ⟨es, free, catalog, tables, db, hpart, hpages, hall⟩ :=
    space_reclaimed wideDisk_quiet h.reach
  refine ⟨ann, bob, pg, h.reach, ?_⟩
  -- the one table, its entry and its pages
  obtain ⟨es', hpages', -⟩ := h.mirrored.onPages
  obtain ⟨rfl, hdb⟩ := hpages.unique hpages'
  obtain ⟨t, rfl⟩ : ∃ t, db = [t] := by
    rw [← List.length_eq_one_iff]
    simpa [family] using congrArg List.length hdb
  have hpair := (List.cons.inj hdb).1
  have hschema : t.schema = people := congrArg Prod.fst hpair
  have hrows : t.rows = [(ann, [some (.str "Ann"), none]),
    (bob, [some (.str "Bob"), some (.str "Ann")])] := congrArg Prod.snd hpair
  have hname : t.schema.name = "people" := congrArg Table.name hschema
  obtain ⟨e, _, ⟨-, -, hstored⟩, hnil, rfl⟩ := List.forall₂_cons_right_iff.mp hpages.tables
  obtain rfl := List.forall₂_nil_right_iff.mp hnil
  obtain ⟨T, _, hlies, -, rfl⟩ := List.forall₂_cons_left_iff.mp hpart.laid
  obtain ⟨slots, hslots, hchains⟩ := hlies.rows
  have hlen : T.rows.length = 2 := by
    rw [← hchains.length_eq, ← length_storedRows hslots hstored, hrows]
    rfl
  obtain ⟨hdelete, hdrop⟩ := hall 0 e t T rfl rfl rfl
  rw [hname] at hdelete hdrop
  refine ⟨?_, ?_⟩
  · rw [hdelete 1 bob _ T.rows[1] (by rw [hrows]; rfl) (List.getElem?_eq_getElem (by omega)) ?_]
    · exact ite_eq_or_eq _ _ _
    · intro o ho fk hfk _ key hkey r hr hother
      rw [List.mem_singleton.mp ho] at hfk hr hother ⊢
      rw [hschema] at hfk hkey ⊢
      rw [hrows] at hr
      obtain rfl := List.mem_singleton.mp hfk
      rcases List.mem_cons.mp hr with rfl | hr
      · exact fun h => by cases h
      · obtain rfl := List.mem_singleton.mp hr
        exact absurd ⟨rfl, rfl⟩ hother
  · rw [hdrop fun o ho hne => (hne (by rw [List.mem_singleton.mp ho])).elim]
    exact ite_eq_or_eq _ _ _

/-! ## A long name -/

/-- A disk with room for thirteen data pages. -/
def tightDisk : Disk :=
  Disk.attach (2062 * pageSectors) (by decide) (fun _ => Buf.zero sectorSize) Disk.noFaults

theorem tightDisk_quiet : tightDisk.Quiet := fun _ => rfl

theorem nchunks_three {bytes : List Byte} (hlow : 8160 < bytes.length)
    (hhigh : bytes.length ≤ 12240) : nchunks bytes = 3 := by
  have hcap : chainCap = 4080 := rfl
  rw [nchunks_eq, hcap, blocks]
  omega

section Tight

variable {name text : String} (hname : (strBytes name).length = 8200)
  (htext : (strBytes text).length = 12300)

section Name

include hname

theorem length_name : (putStr name).length = 8202 := by
  rw [putStr, putBytes, List.length_append, hname]
  rfl

theorem schema_new : nchunks (Table.new name).encode = 3 := by
  have htail : (putVec Table.putColumn [] ++ (putVec Table.putFk [] ++
      (putVec putStr [] ++ putVec Table.putWidth []))).length = 4 := by decide
  have hlen : (Table.new name).encode.length = 8206 := by
    rw [Table.encode, List.length_append]
    exact congrArg₂ (· + ·) (length_name hname) htail
  exact nchunks_three (by omega) (by omega)

theorem schema_oneColumn : nchunks (oneColumn name "text").encode = 3 := by
  have htail : (putVec Table.putColumn [⟨"text", .string, true, false,
    none⟩] ++ (putVec Table.putFk [] ++
      (putVec putStr [] ++ putVec Table.putWidth []))).length = 12 := by decide
  have hlen : (oneColumn name "text").encode.length = 8214 := by
    rw [Table.encode, List.length_append]
    exact congrArg₂ (· + ·) (length_name hname) htail
  exact nchunks_three (by omega) (by omega)

theorem catalog_three {e : CatEntry} (he : e.name = name) : nchunks (encodeCatalog [e]) = 3 := by
  have hlow : (putStr name).length ≤ (encodeCatalog [e]).length := by
    rw [encodeCatalog, putVec, List.flatMap_singleton, putCatEntry, he]
    simp only [List.length_append]
    omega
  have hhigh := length_encodeCatalog [e]
  have hlen : catalogLen ([e].map (·.name)) = 10 + (8200 + 40 + 0) := by
    rw [List.map_singleton, he, catalogLen, List.map_singleton, List.sum_singleton, hname]
  rw [length_name hname] at hlow
  exact nchunks_three (by omega) (by omega)

theorem catalogPages_three {t : TableState RowId} (ht : t.schema.name = name) :
    Database.catalogPages [t] = 3 := by
  have hlen : catalogLen ([t].map (·.schema.name)) = 10 + (8200 + 40 + 0) := by
    rw [List.map_singleton, ht, catalogLen, List.map_singleton, List.sum_singleton, hname]
  rw [Database.catalogPages, hlen]
  rfl

theorem pages_oneColumn (rows : List (RowId × Row)) (issued : List RowId) :
    Database.pages [⟨oneColumn name "text", rows, issued⟩] =
      6 + blocks idxCap issued.length + (rows.map fun r => nchunks (encodeRow r.2)).sum := by
  rw [Database.pages, catalogPages_three hname rfl, List.map_singleton, List.sum_singleton,
    TableState.pages, schema_oneColumn hname, Nat.add_assoc, Nat.add_assoc, ← Nat.add_assoc 3]

end Name

include htext in
theorem row_text : nchunks (encodeRow [some (.str text)]) = 4 := by
  have hlen : (encodeRow [some (.str text)]).length = 12305 := by
    have hdisplay : (Value.str text).display = text := String.ofList_toList
    rw [encodeRow, putVec, List.flatMap_singleton, putCell, hdisplay, List.length_append,
      List.length_cons, List.length_cons, List.length_cons, putStr, putBytes, List.length_append,
      htext]
    rfl
  have hcap : chainCap = 4080 := rfl
  rw [nchunks_eq, hcap, hlen]
  rfl

include hname in
/-- Two short texts in a table of that name, after four calls. -/
theorem tight_seated (hne : name ≠ "") : ∃ pg a b pg', formatStore tightDisk = (.ok pg, pg.dev) ∧
    history (rowCalls name "text") pg =
      ([.ok .done, .ok .done, .ok (.inserted a), .ok (.inserted b)], pg') ∧
    Seated tightDisk 2062 [(name, a), (name, b)] pg' (twoRows name "text" a b) := by
  have hroom : firstDataPage + 1 < tightDisk.sectors / pageSectors := by decide
  have hdata : 2062 - firstDataPage = 13 := rfl
  have hcatalog : blocks chainCap (catalogLen [name]) = 3 :=
    @catalogPages_three name hname ⟨Table.new name, [], []⟩ rfl
  obtain ⟨pg, hformat, -, -, -, hsb⟩ := format_clean tightDisk_quiet hroom
  have htotal : tightDisk.sectors / pageSectors = 2062 := by decide
  rw [htotal] at hsb
  have h : Seated tightDisk 2062 [] pg [] :=
    ⟨.format hformat, format_mirrored tightDisk_quiet hformat, hsb ▸ rfl, by decide⟩
  obtain ⟨a, b, pg', hcalls, h'⟩ := twoRows_seated h hne
    (by rw [schema_new hname, schema_oneColumn hname, hcatalog, hdata])
    (by rw [schema_oneColumn hname, hcatalog, hdata])
  exact ⟨pg, a, b, pg', hformat, hcalls, h'⟩

end Tight

/-- The free pages of a volume of thirteen whose one table has a long name, a row of
four pages and one of one page. -/
theorem tight_free {V : Volume} {s : Staged Superblock Page} {avail cat : List Nat} {w : Stored}
    (h : Readable V s avail cat [w]) (htotal : V.total = 2062)
    (hcat : nchunks (encodeCatalog [w.entry]) = 3) (hschema : nchunks w.schema.encode = 3)
    {j k : Nat} {r r' : List Nat × Row} (hr : w.slots.getD j none = some r)
    (hr' : w.slots.getD k none = some r') (hfour : nchunks (encodeRow r.2) = 4)
    (hone : nchunks (encodeRow r'.2) = 1) : avail.length ≤ 1 := by
  have hne : encodeRow r.2 ≠ encodeRow r'.2 := by
    intro heq
    rw [heq, hone] at hfour
    cases hfour
  have hcount := h.holds.count
  obtain ⟨rest, hrest⟩ := @tableObjs_rows w j k r r' hr hr' hne (catalogObjs cat [w])
  have hcatalog : ((catalogObjs cat [w]).map Obj.size).sum = 3 := by
    rw [catalogObjs, if_neg fun hnil => absurd (h.empty hnil) (by simp), Multiset.map_singleton,
      Multiset.sum_singleton]
    exact hcat
  have hindex : 1 ≤ blocks idxCap w.heads.length := le_max_left _ _
  have hdata : 2062 - firstDataPage = 13 := rfl
  rw [hrest, htotal, hdata] at hcount
  simp only [Multiset.map_cons, Multiset.sum_cons, Multiset.map_add, Multiset.sum_add,
    Obj.size] at hcount
  omega

theorem length_strBytes_replicate (n : Nat) :
    (strBytes (String.ofList (List.replicate n 'a'))).length = n := by
  rw [strBytes, String.toUTF8_eq_toByteArray, String.toByteArray_ofList]
  induction n with
  | zero => rfl
  | succ n ih =>
      rw [List.replicate_succ, List.utf8Encode_cons, ByteArray.data_append, Array.toList_append,
        List.length_append, ih, Nat.add_comm]
      rfl

/-- Whatever the names: with one page free, a row of one page is not deleted if the
catalog takes three. -/
theorem tight_history {name text : String} (hname : (strBytes name).length = 8200)
    (htext : (strBytes text).length = 12300) : ∃ pg a b pg',
    formatStore tightDisk = (.ok pg, pg.dev) ∧
    history [.call (.createTable name),
      .call (.addColumn name ⟨"text", .string, true, false, none⟩),
      .call (.insert name [some (.str "a")]), .call (.insert name [some (.str "b")])] pg =
        ([.ok .done, .ok .done, .ok (.inserted a), .ok (.inserted b)], pg') ∧
    (history [.call (.update name a [some (.str text)]), .call (.delete name b)] pg').1 =
      [.ok .done, .err .outOfSpace] := by
  have hne : name ≠ "" := by
    rintro rfl
    cases hname
  obtain ⟨pg₀, a, b, pg, hformat, hcalls, h⟩ := tight_seated hname hne
  refine ⟨pg₀, a, b, pg, hformat, hcalls, ?_⟩
  obtain ⟨L, hL, hdb⟩ := h.mirrored.stores
  obtain ⟨w, j, k, r, ⟨ps, _⟩, rfl, hr, hr', rfl, rfl, ha, rfl⟩ := slots_of_two hdb
  have hstate : w.state = ⟨oneColumn name "text", _, _⟩ := (List.cons.inj hdb).1
  have hkeys : ∀ o ∈ [w.state], ∀ fk ∈ o.schema.fks, fk.toTable ≠ w.schema.name := by
    intro o ho fk hfk
    rw [List.mem_singleton.mp ho, hstate] at hfk
    cases hfk
  -- the first row grows
  have hroom : nchunks (encodeRow [some (.str text)]) + (dbOf [w]).pages ≤
      pg.sb.totalPages - firstDataPage := by
    rw [row_text htext, hdb, twoRows, pages_oneColumn hname, h.total, List.map_cons,
      List.map_singleton, List.sum_cons, List.sum_singleton]
    show 4 + (6 + blocks idxCap 2 + (nchunks (encodeRow [some (.str "a")]) +
      nchunks (encodeRow [some (.str "b")]))) ≤ 13
    rw [rows_short.1, rows_short.2]
    decide
  have hvalid : (dbOf [w]).validate w.state [some (.str text)] (some (rowIdAt w.indexPages j)) =
      .ok () := by
    rw [hdb, hstate]
    rfl
  obtain ⟨pg', qs, hrun, hL', htotal'⟩ :=
    @Laid.update_slot pg [some (.str text)] [] [] [] [] w w j r hL.laid (h.total ▸ h.small)
      hL.intact.closed rfl hr hvalid (Database.restrict_unkeyed hkeys _ _ _) hroom
  have hjk : j ≠ k := by
    rintro rfl
    rw [hr'] at hr
    injection hr with hr
    rw [← hr] at ha
    have hsame : [some (Value.str "b")] = [some (.str "a")] := ha
    exact absurd hsame (by decide)
  have hk := (getD_set_ne hjk (some (qs, [some (.str text)]))).trans hr'
  have hj := getD_set_self (lt_of_slot hr) (some (qs, [some (.str text)]))
  generalize hw' : { w with slots := w.slots.set j (some (qs, [some (.str text)])) } = w' at hL'
  have hschema : w'.state.schema = oneColumn name "text" := by
    rw [← hw']
    exact congrArg TableState.schema hstate
  have hids : w'.indexPages = w.indexPages := by rw [← hw']
  have hslots : w'.slots = w.slots.set j (some (qs, [some (.str text)])) := by rw [← hw']
  rw [← hslots] at hj hk
  obtain ⟨hc', hq', avail', cat', hread'⟩ := hL'
  -- and the second one does not go
  have htotal : (volumeOf pg' hc').total = 2062 := htotal'.trans h.total
  have hname' : w'.schema.name = name := congrArg Table.name hschema
  have hfree := tight_free hread' htotal (catalog_three hname hname')
    ((congrArg (fun t : Table => nchunks t.encode) hschema).trans (schema_oneColumn hname)) hj hk
    (row_text htext) rows_short.2
  have hshort : (encodeRow [some (.str "b")]).length ≤ chainCap := by decide
  obtain ⟨p, rfl⟩ := row_one_page hread' (List.mem_singleton_self w') hk hshort
  have hclosed : Database.Closed [w'.state] :=
    closed_single (by rw [hschema]; exact List.nodup_singleton _) (by rw [hschema]; rfl)
      (by rw [hschema]; rfl)
  have hrestrict : Database.restrict [w'.state] w'.state (rowIdAt w'.indexPages k)
      [some (.str "b")] (fun _ _ => false) = .ok () := by
    refine Database.restrict_iff.mpr fun o ho fk hfk => ?_
    rw [List.mem_singleton.mp ho, hschema] at hfk
    cases hfk
  have hdelete := @run_delete pg' hc' hq' _ _ [] [] w' hread' hclosed k _ hk
    (congrArg (fun t : Table => t.columns.length) hschema).symm hrestrict
  rw [if_neg] at hdelete
  · have hname₀ : w.schema.name = name := congrArg (fun t => t.schema.name) hstate
    rw [hname₀] at hrun
    rw [hname', hids] at hdelete
    rw [history_call hrun, history_call (Prod.ext hdelete rfl)]
    rfl
  · intro hroom'
    have hle : nchunks (encodeCatalog [{ w'.entry with rowCount := w'.entry.rowCount - 1 }]) ≤
      ([p].reverse ++ avail').length := hroom'.1
    rw [catalog_three hname hname', List.length_append, List.length_reverse,
      List.length_singleton] at hle
    omega

/-- A name and a text of a few pages. -/
def longName : String := String.ofList (List.replicate 8200 'a')
def longText : String := String.ofList (List.replicate 12300 'a')

/-- A live row that nothing refers to is not deleted. -/
theorem delete_without_room : ∃ pg a b pg', formatStore tightDisk = (.ok pg, pg.dev) ∧
    history [.call (.createTable longName),
      .call (.addColumn longName ⟨"text", .string, true, false, none⟩),
      .call (.insert longName [some (.str "a")]), .call (.insert longName [some (.str "b")])] pg =
        ([.ok .done, .ok .done, .ok (.inserted a), .ok (.inserted b)], pg') ∧
    (history [.call (.update longName a [some (.str longText)]),
      .call (.delete longName b)] pg').1 = [.ok .done, .err .outOfSpace] :=
  tight_history (length_strBytes_replicate 8200) (length_strBytes_replicate 12300)

end Store

end TablesOS
