import TablesOS.Proofs.Runs
import Mathlib.Algebra.Order.BigOperators.Group.List

/-!
# Room

How many pages the chains of a database take, and when an operation cannot
fail for want of pages. A chain is as long as its contents make it, so the free
pages of a handle are known from the database it stores. The journal takes more
pages than a small volume has, so there a transaction that finds its pages also
fits the journal.
-/

namespace TablesOS

open Prog Codec Journal

namespace Store

open Pager

theorem nchunks_eq (bytes : List Byte) : nchunks bytes = blocks chainCap bytes.length := by
  cases bytes with
  | nil => rfl
  | cons b bytes =>
      unfold nchunks blocks
      rw [if_neg (by simp)]
      refine (max_eq_right ?_).symm
      rw [Nat.le_div_iff_mul_le (by decide)]
      simp only [List.length_cons]
      omega

/-! ## Counting pages -/

namespace Obj

/-- How many pages an object takes. -/
def size : Obj → Nat
  | .raw ps => ps.length
  | .blob _ bytes => nchunks bytes
  | .index _ slots => blocks idxCap slots.length

end Obj

section Count

variable {V : Volume} {s : Staged Superblock Page} {avail cat : List Nat} {objs : Multiset Obj}
  {L : List Stored}

theorem length_foot {v : Nat → Page} {o : Obj} (h : objects.ok o v) :
    (objects.foot o).length = o.size := by
  cases o with
  | raw ps => rfl
  | blob ps bytes =>
      rw [Obj.size, nchunks_eq]
      exact Linked.length_blocks h
  | index ps slots => exact Linked.length_blocks h

/-- Every data page is free or part of a chain. -/
theorem Holds.count (h : Holds V s avail objs) :
    avail.length + (objs.map Obj.size).sum = V.total - firstDataPage := by
  have hcover := congrArg Multiset.card h.owned.cover
  rw [Multiset.card_add, Multiset.coe_card, dataPages, Multiset.coe_card, List.length_range',
    Objects.feet, Multiset.card_bind] at hcover
  rw [← hcover]
  refine congrArg (avail.length + Multiset.sum ·) (Multiset.map_congr rfl fun o ho => ?_)
  rw [Function.comp_apply, Multiset.coe_card, length_foot (h.owned.ok o ho)]

theorem length_putUvarint (v : Nat) : (putUvarint v).length ≤ 10 := by
  have hloop : ∀ n v, (putUvarintLoop n v).length ≤ n := by
    intro n
    induction n with
    | zero => exact fun _ => Nat.le_refl 0
    | succ n ih =>
        intro v
        unfold putUvarintLoop
        split
        · exact Nat.succ_le_succ (ih _)
        · exact Nat.succ_le_succ (Nat.zero_le n)
  exact hloop 10 _

/-- A bound for the catalog of tables with these names. -/
def catalogLen (names : List String) : Nat := 10 + (names.map fun n => (strBytes n).length + 40).sum

theorem length_encodeCatalog (es : List CatEntry) :
    (encodeCatalog es).length ≤ catalogLen (es.map (·.name)) := by
  have hentry : ∀ e : CatEntry, (putCatEntry e).length ≤ (strBytes e.name).length + 40 := by
    intro e
    have h₁ := length_putUvarint (strBytes e.name).length
    have h₂ := length_putUvarint e.schemaHead
    have h₃ := length_putUvarint e.dataHead
    have h₄ := length_putUvarint e.rowCount
    simp only [putCatEntry, putStr, putBytes, List.length_append]
    omega
  have hcount := length_putUvarint es.length
  have hsum : (es.flatMap putCatEntry).length ≤
      (es.map fun e => (strBytes e.name).length + 40).sum := by
    rw [List.length_flatMap]
    exact List.sum_le_sum fun e _ => hentry e
  rw [encodeCatalog, putVec, List.length_append, catalogLen, List.map_map]
  exact Nat.add_le_add hcount hsum

end Count

end Store

namespace TableState

variable {ι : Type}

/-- How many pages the chains of a table take. -/
def pages (t : TableState ι) : Nat :=
  Store.nchunks t.schema.encode + blocks Store.idxCap t.issued.length +
    (t.rows.map fun r => Store.nchunks (encodeRow r.2)).sum

end TableState

namespace Database

variable {ι : Type}

/-- How many pages the catalog takes at most. -/
def catalogPages (db : Database ι) : Nat :=
  blocks Store.chainCap (Store.catalogLen (db.map (·.schema.name)))

/-- How many pages the chains of a database take at most. -/
def pages (db : Database ι) : Nat := db.catalogPages + (db.map (·.pages)).sum

end Database

namespace Store

open Pager

section Count

variable {V : Volume} {s : Staged Superblock Page} {avail cat : List Nat} {L : List Stored}

theorem nchunks_catalog {es : List CatEntry} {db : Database RowId}
    (h : es.map (·.name) = db.map (·.schema.name)) :
    nchunks (encodeCatalog es) ≤ db.catalogPages := by
  rw [nchunks_eq, Database.catalogPages, ← h]
  exact blocks_mono (length_encodeCatalog es)

theorem names_entries (L : List Stored) :
    (L.map Stored.entry).map (·.name) = (dbOf L).map (·.schema.name) := by
  simp [dbOf]

theorem size_objs (t : Stored) : (t.objs.map Obj.size).sum = t.state.pages := by
  have hissued : t.state.issued.length = t.heads.length := by
    simp [Stored.state, Stored.heads]
  have hrows : (t.state.rows.map fun r => nchunks (encodeRow r.2)).sum =
      ((Stored.rowObjs t.slots).map Obj.size).sum := by
    have hlive : t.state.rows.map (·.2) = t.slots.reduceOption.map (·.2) := by
      rw [← live_rows, Stored.state, List.map_map, List.map_map]
      rfl
    have hsplit := congrArg (List.map fun row : Row => nchunks (encodeRow row)) hlive
    rw [List.map_map, List.map_map] at hsplit
    rw [Stored.rowObjs, Multiset.map_coe, Multiset.sum_coe, List.map_map]
    exact congrArg List.sum hsplit
  rw [Stored.objs, Multiset.map_cons, Multiset.sum_cons, Multiset.map_cons, Multiset.sum_cons,
    TableState.pages, hissued, hrows, Nat.add_assoc]
  rfl

theorem size_tableObjs (L : List Stored) :
    ((tableObjs L).map Obj.size).sum = ((dbOf L).map (·.pages)).sum := by
  induction L with
  | nil => rfl
  | cons t L ih =>
      rw [tableObjs_cons, Multiset.map_add, Multiset.sum_add, ih, size_objs]
      rfl

/-- The free pages are those that the database does not take. -/
theorem Readable.room (h : Readable V s avail cat L) :
    V.total - firstDataPage ≤ avail.length + (dbOf L).pages := by
  have hcount := h.holds.count
  rw [Multiset.map_add, Multiset.sum_add, size_tableObjs] at hcount
  have hcat : ((catalogObjs cat L).map Obj.size).sum ≤ (dbOf L).catalogPages := by
    unfold catalogObjs
    split
    · exact Nat.zero_le _
    · rw [Multiset.map_singleton, Multiset.sum_singleton]
      exact nchunks_catalog (names_entries L)
  unfold Database.pages
  omega

end Count

/-! ## Bodies that find their pages -/

/-- The operation is a transaction, and its body ends well. -/
def Ample {α : Type} (V : Volume) (s : Staged Superblock Page) (q : PageQuery (Call α)) : Prop :=
  ∃ body a s', q.eval (s.read V.base) s.ctl = .ok (.tx body) ∧ body.eval V.base s = (.ok a, s')

section Ample

variable {V : Volume} {s₀ s : Staged Superblock Page} {ps avail cat : List Nat}
  {L A B : List Stored} {t : Stored}

theorem ample_tx {α : Type} {body : PageProg α} {a : α} {s' : Staged Superblock Page}
    (h : body.eval V.base s = (.ok a, s')) : Ample V s (pure (.tx body)) :=
  ⟨body, a, s', rfl, h⟩

theorem Ample.silent {q : PageQuery (Call Unit)} (h : Ample V s q) : Ample V s (silent q) := by
  obtain ⟨body, a, s', hq, hb⟩ := h
  refine ⟨(fun _ => .done) <$> body, .done, s', ?_, ?_⟩
  · exact (Query.eval_bind_ok _ _ hq).trans rfl
  · exact (eval_bind_ok _ hb).trans rfl

/-- `store_catalog`, at the end of a body that keeps the names. -/
theorem storeCatalog_ample {bytes : List Byte} {objs : Multiset Obj} {es : List CatEntry}
    {db : Database RowId} (h : Stage V s₀ ps s avail (catalogBlob cat bytes + objs))
    (hcat : s.ctl.catalogHead = cat.headD 0) (hes : es.map (·.name) = db.map (·.schema.name))
    (hn : db.catalogPages ≤ avail.length) :
    ∃ s', (storeCatalog es).eval V.base s = (.ok (), s') := by
  have hle := nchunks_catalog hes
  obtain ⟨s', he, -⟩ := storeCatalog_room h hcat
    (show nchunks (encodeCatalog es) ≤ avail.length by omega)
  exact ⟨s', he⟩

theorem createTable_ample (h : Readable V s avail cat L) {name : String} (hname : name ≠ "")
    (hdup : ¬ ∃ u ∈ dbOf L, u.schema.name = name)
    (hn : nchunks (Table.new name).encode + 1 +
      Database.catalogPages (dbOf L ++ [⟨Table.new name, [], []⟩]) ≤ avail.length) :
    Ample V s (createTable name) := by
  obtain ⟨s₁, he₁, h₁⟩ := writeChain_room h.stage
    (show nchunks (Table.new name).encode ≤ avail.length by omega)
  have hone : nchunks [] = 1 := rfl
  obtain ⟨s₂, he₂, h₂⟩ := writeChain_room h₁
    (show nchunks [] ≤ (avail.drop (nchunks (Table.new name).encode)).length by
      rw [List.length_drop]; omega)
  generalize avail.take (nchunks (Table.new name).encode) = qs at *
  rw [List.drop_drop] at h₂
  generalize (avail.drop (nchunks (Table.new name).encode)).take (nchunks []) = is at *
  have h₃ := (emptyIndex_stage h₂).recast (show catalogBlob cat (encodeCatalog
      (L.map Stored.entry)) + (.index is [] ::ₘ .blob qs (Table.new name).encode ::ₘ
        tableObjs L) = _ by
    simp only [← Multiset.singleton_add, catalogObjs, catalogBlob]
    ac_rfl)
  have hnames :
      (L.map Stored.entry ++ [CatEntry.mk name (qs.headD 0) (is.headD 0) 0]).map (·.name) =
      (dbOf L ++ [⟨Table.new name, [], []⟩] : Database RowId).map (·.schema.name) := by
    rw [List.map_append, List.map_append, names_entries]
    rfl
  obtain ⟨s₃, he₃⟩ := storeCatalog_ample h₃ (h₃.moves.catalog.trans h.catalog) hnames
    (by rw [List.length_drop]; omega)
  unfold createTable
  rw [if_neg (by simpa using hname)]
  refine ample_tx (Eq.trans ?_ he₃)
  rw [eval_query_bind _ h.loadCatalog_run, if_neg ((any_name L name).not.mpr hdup),
    eval_bind_ok _ he₁, eval_bind_ok _ he₂]

theorem names_set {i : Nat} {es : List CatEntry} {e : CatEntry} (e' : CatEntry)
    (he : es[i]? = some e) (hname : e'.name = e.name) :
    (es.set i e').map (·.name) = es.map (·.name) := by
  obtain ⟨hlt, heq⟩ := List.getElem?_eq_some_iff.mp he
  rw [List.map_set, hname, ← heq]
  refine List.ext_getElem (by simp) fun j hj _ => ?_
  rw [List.getElem_set, List.getElem_map]
  split
  · next hij => subst hij; rfl
  · rfl

theorem entry_at (A : List Stored) (t : Stored) (B : List Stored) :
    ((A ++ t :: B).map Stored.entry)[A.length]? = some t.entry := by
  simp

/-- A schema written anew, and the catalog with it. -/
theorem replaceSchema_room {s₀ : Staged Superblock Page} {ps : List Nat} {bytes : List Byte}
    {objs : Multiset Obj} (hs : Stage V s₀ ps s avail (.blob t.schemaPages t.schema.encode ::ₘ
      (catalogBlob cat bytes + objs))) (hcat : s.ctl.catalogHead = cat.headD 0) {sch : Table}
    (hn : nchunks sch.encode + (dbOf (A ++ t :: B)).catalogPages ≤ avail.length) :
    ∃ head s₁ s₂ s₃, (writeChain sch.encode).eval V.base s = (.ok head, s₁) ∧
      (freeChain t.entry.schemaHead).eval V.base s₁ = (.ok (), s₂) ∧
      (storeCatalog (((A ++ t :: B).map Stored.entry).set A.length
        { t.entry with schemaHead := head })).eval V.base s₂ = (.ok (), s₃) := by
  have hhead := hs.moves.catalog
  obtain ⟨s₁, he₁, h₁⟩ := writeChain_room hs (show nchunks sch.encode ≤ avail.length by omega)
  generalize avail.take (nchunks sch.encode) = qs at *
  rw [Multiset.cons_swap] at h₁
  obtain ⟨s₂, he₂, h₂⟩ := freeChain_ok h₁ blob_ne_raw
  rw [← Multiset.add_cons] at h₂
  have hnames : (((A ++ t :: B).map Stored.entry).set A.length
      { t.entry with schemaHead := qs.headD 0 }).map (·.name) =
      (dbOf (A ++ t :: B)).map (·.schema.name) :=
    (names_set _ (entry_at A t B) (by rfl)).trans (names_entries _)
  obtain ⟨s₃, he₃⟩ := storeCatalog_ample h₂ (h₂.moves.catalog.trans (hhead.symm.trans hcat)) hnames
    (by rw [List.length_append, List.length_drop]; omega)
  exact ⟨_, s₁, s₂, s₃, he₁, he₂, he₃⟩

theorem replaceSchema_ample (h : Readable V s avail cat (A ++ t :: B)) {sch : Table}
    (hn : nchunks sch.encode + (dbOf (A ++ t :: B)).catalogPages ≤ avail.length) :
    ∃ head s₁ s₂ s₃, (writeChain sch.encode).eval V.base s = (.ok head, s₁) ∧
      (freeChain t.entry.schemaHead).eval V.base s₁ = (.ok (), s₂) ∧
      (storeCatalog (((A ++ t :: B).map Stored.entry).set A.length
        { t.entry with schemaHead := head })).eval V.base s₂ = (.ok (), s₃) := by
  have hs := h.stage
  rw [tableObjs_pick] at hs
  exact replaceSchema_room (hs.recast (show Obj.blob t.schemaPages t.schema.encode ::ₘ
      (catalogBlob cat (encodeCatalog ((A ++ t :: B).map Stored.entry)) +
        (.index t.indexPages t.heads ::ₘ (Stored.rowObjs t.slots +
          (tableObjs A + tableObjs B)))) = _ by
    simp only [← Multiset.singleton_add, catalogObjs, catalogBlob]
    ac_rfl)) h.catalog hn

/-- The row loop of `put_schema`, where no row takes more pages than before. -/
theorem rewriteRows_room (map : Row → Row) {s₀ : Staged Superblock Page} {ips : List Nat}
    {rest : Multiset Obj} :
    ∀ (ks : List Nat) {slots : List (Option (List Nat × Row))} {ps avail : List Nat}
      {s : Staged Superblock Page}, ks.Nodup →
      (∀ k ∈ ks, ∃ r, slots.getD k none = some r ∧ (encodeRow r.2).length < 2 ^ 64 ∧
        nchunks (encodeRow (map r.2)) ≤ r.1.length) →
      Stage V s₀ ps s avail
        (.index ips (slots.map Stored.headOf) ::ₘ (Stored.rowObjs slots + rest)) →
      ∃ s' slots' qs avail', (rewriteRows map (ks.map fun k =>
          (rowIdAt ips k, Stored.headOf (slots.getD k none)))).eval V.base s = (.ok (), s') ∧
        avail.length ≤ avail'.length ∧ Stage V s₀ (ps ++ qs) s' avail'
          (.index ips (slots'.map Stored.headOf) ::ₘ (Stored.rowObjs slots' + rest)) := by
  intro ks
  induction ks with
  | nil =>
      intro slots ps avail s _ _ h
      refine ⟨s, slots, [], avail, rfl, Nat.le_refl _, ?_⟩
      rw [List.append_nil]
      exact h
  | cons k ks ih =>
      intro slots ps avail s hnd hrows h
      rw [List.nodup_cons] at hnd
      obtain ⟨r, hr, hsmall, hn⟩ := hrows k List.mem_cons_self
      have hk := lt_of_slot hr
      rw [objs_slot hr] at h
      have hread := readRow_stage h (Multiset.mem_cons_self _ _) hsmall
      obtain ⟨s₁, he₁, h₁⟩ := freeChain_ok h blob_ne_raw
      have hroom : nchunks (encodeRow (map r.2)) ≤
          ((objects.foot (.blob r.1 (encodeRow r.2))).reverse ++ avail).length := by
        rw [List.length_append, List.length_reverse]
        exact hn.trans (Nat.le_add_right _ _)
      obtain ⟨s₂, he₂, h₂⟩ := writeChain_room h₁ hroom
      have hlen : avail.length ≤ (((objects.foot (.blob r.1 (encodeRow r.2))).reverse ++
          avail).drop (nchunks (encodeRow (map r.2)))).length := by
        rw [List.length_drop, List.length_append, List.length_reverse]
        show avail.length ≤ r.1.length + avail.length - _
        omega
      generalize List.drop _ _ = avail₂ at h₂ hlen
      generalize List.take _ _ = qs at h₂ he₂
      have hlt := h₂.head_lt (Multiset.mem_cons_self _ _)
      rw [Multiset.cons_swap] at h₂
      obtain ⟨s₃, he₃, h₃⟩ := indexSet_ok h₂ (k := k) (by simpa using hk) hlt
      have hobjs := objs_set hk (qs, map r.2)
        (.index ips ((slots.set k (some (qs, map r.2))).map Stored.headOf)) rest
      rw [heads_set] at hobjs
      have h₃' := h₃.recast hobjs
      rw [← heads_set] at h₃'
      have hne : ∀ j ∈ ks, k ≠ j := fun j hj heq => hnd.1 (heq ▸ hj)
      obtain ⟨s', slots', qs', avail', he', hle, h'⟩ := ih hnd.2 (fun j hj => by
        rw [getD_set_ne (hne j hj)]
        exact hrows j (List.mem_cons_of_mem _ hj)) h₃'
      have hlist : (ks.map fun j => (rowIdAt ips j,
          Stored.headOf ((slots.set k (some (qs, map r.2))).getD j none))) =
          ks.map fun j => (rowIdAt ips j, Stored.headOf (slots.getD j none)) :=
        List.map_congr_left fun j hj => by rw [getD_set_ne (hne j hj)]
      rw [hlist] at he'
      rw [List.append_assoc, List.append_assoc, List.append_assoc] at h'
      refine ⟨s', slots', _, avail', ?_, hlen.trans hle, h'⟩
      rw [List.map_cons, rewriteRows, hr]
      refine (eval_query_bind _ hread).trans ?_
      exact (eval_bind_ok _ he₁).trans ((eval_bind_ok _ he₂).trans ((eval_bind_ok _ he₃).trans he'))

/-- `put_schema`, where no row takes more pages than before. -/
theorem putSchema_ample (h : Readable V s avail cat (A ++ t :: B))
    (hidx : catIndex ((A ++ t :: B).map Stored.entry) t.schema.name = .ok A.length)
    {mutate : Table → Outcome StoreError Table} {sch : Table} (hmut : mutate t.schema = .ok sch)
    {rewrite : Option (Row → Row)} (hrows : ∀ map, rewrite = some map → ∀ k r,
      t.slots.getD k none = some r → nchunks (encodeRow (map r.2)) ≤ r.1.length)
    (hn : nchunks sch.encode + (dbOf (A ++ t :: B)).catalogPages ≤ avail.length) :
    ∃ s', (putSchema t.schema.name mutate rewrite).eval V.base s = (.ok (), s') := by
  have ht : t ∈ A ++ t :: B := by simp
  rw [putSchema, opened_tx h hidx,
    eval_bind_ok _ ((eval_outcome _ _ _).trans (congrArg (·, s) hmut))]
  cases rewrite with
  | none =>
      obtain ⟨head, s₁, s₂, s₃, he₁, he₂, he₃⟩ := replaceSchema_ample h hn
      exact ⟨s₃, (eval_bind_ok _ he₁).trans ((eval_bind_ok _ he₂).trans he₃)⟩
  | some map =>
      have hs := h.stage
      rw [tableObjs_pick, Multiset.cons_swap, ← Multiset.add_cons] at hs
      obtain ⟨s', slots', qs, avail', he, hle, hs'⟩ := rewriteRows_room map (liveKs t.slots)
        (nodup_liveKs _) (fun k hk => by
          obtain ⟨r, hr⟩ := mem_liveKs.mp hk
          refine ⟨r, hr, h.small r.1 _ (Readable.row_mem ht ?_), hrows map rfl k r hr⟩
          exact hr ▸ getD_mem_slots (lt_of_slot hr)) hs
      have hs'' := hs'.recast (show Obj.blob t.schemaPages t.schema.encode ::ₘ
          (catalogBlob cat (encodeCatalog ((A ++ t :: B).map Stored.entry)) +
            (.index t.indexPages (slots'.map Stored.headOf) ::ₘ (Stored.rowObjs slots' +
              (tableObjs A + tableObjs B)))) = _ by
        simp only [← Multiset.singleton_add, catalogObjs, catalogBlob]
        ac_rfl)
      obtain ⟨head, s₁, s₂, s₃, he₁, he₂, he₃⟩ :=
        replaceSchema_room hs'' (hs'.moves.catalog.trans h.catalog) (hn.trans hle)
      refine ⟨s₃, ?_⟩
      rw [eval_query_bind _ (collect_run h ht), live_heads]
      exact (eval_bind_ok _ he).trans
        ((eval_bind_ok _ he₁).trans ((eval_bind_ok _ he₂).trans he₃))

/-- `rename_column`, where there is one table. -/
theorem renameColumn_ample {t : Stored} (h : Readable V s avail cat [t]) {old new : String}
    (hempty : new ≠ "") (hne : old ≠ new) (hold : (t.schema.column old).isSome = true)
    (hnew : t.schema.column new = none)
    (hn : nchunks (renameIn t.schema.name old new true t.schema).encode +
      (dbOf [t]).catalogPages ≤ avail.length) :
    Ample V s (renameColumn t.schema.name old new) := by
  have hidx : catIndex ([t].map Stored.entry) t.schema.name = .ok 0 := by
    rw [catIndex, List.map_singleton, List.findIdx?_cons]
    simp only [Stored.entry, beq_self_eq_true, if_true]
    rfl
  obtain ⟨head, s₁, s₂, s₃, he₁, he₂, he₃⟩ := @replaceSchema_ample V s avail cat [] [] t h _ hn
  have howns : (t.entry.name == t.schema.name) = true := beq_self_eq_true _
  have hmen : mentions t.schema.name old true t.schema = true := by
    obtain ⟨c, hc, hname⟩ := List.mem_map.mp (Database.column_isSome.mp hold)
    have hany : t.schema.columns.any (·.name == old) = true :=
      List.any_eq_true.mpr ⟨c, hc, beq_iff_eq.mpr hname⟩
    simp [mentions, hany]
  have hall : (renameAll t.schema.name old new [t.entry]).eval V.base s =
      (.ok [{ t.entry with schemaHead := head }], s₂) := by
    unfold renameAll
    rw [eval_query_bind _ (h.schemaOf_run (List.mem_singleton_self t))]
    simp only [howns, hmen, if_true]
    rw [eval_bind_ok _ he₁, eval_bind_ok _ he₂]
    rfl
  have hthere : ¬ (t.schema.column old).isNone = true := by
    rw [Option.isNone_iff_eq_none]
    exact Option.isSome_iff_ne_none.mp hold
  unfold renameColumn
  rw [if_neg (by simpa using hempty), if_neg hne]
  refine ample_tx (Eq.trans ?_ he₃)
  rw [@opened_tx V s avail cat [] [] t _ _ h hidx, if_neg hthere, if_neg (by simp [hnew])]
  exact eval_bind_ok _ hall

theorem addColumn_ample (h : Readable V s avail cat (A ++ t :: B))
    (hidx : catIndex ((A ++ t :: B).map Stored.entry) t.schema.name = .ok A.length) {col : Column}
    (hnull : col.nullable = true) (hnew : t.schema.column col.name = none)
    (hrows : ∀ k r, t.slots.getD k none = some r →
      nchunks (encodeRow (r.2 ++ [none])) ≤ r.1.length)
    (hn : nchunks { t.schema with columns := t.schema.columns ++ [col] }.encode +
      (dbOf (A ++ t :: B)).catalogPages ≤ avail.length) :
    Ample V s (addColumn t.schema.name col) := by
  have hmut : pushColumn col t.schema =
      .ok { t.schema with columns := t.schema.columns ++ [col] } :=
    if_neg (by simp [hnew])
  obtain ⟨s', he⟩ : ∃ s', (putSchema t.schema.name (pushColumn col) (some (· ++ [none]))).eval
      V.base s = (.ok (), s') :=
    putSchema_ample h hidx hmut (fun map hmap => by
      obtain rfl := Option.some.inj hmap
      exact hrows) hn
  unfold addColumn
  rw [hnull]
  exact ample_tx he

/-- `add_fk` from a table without rows to one of its own columns. -/
theorem addFk_ample (h : Readable V s avail cat (A ++ t :: B))
    (hidx : catIndex ((A ++ t :: B).map Stored.entry) t.schema.name = .ok A.length)
    {fromCol toCol : String} {fc tc : Column} (hfc : t.schema.column fromCol = some fc)
    (htc : t.schema.column toCol = some tc) (hun : tc.unique = true) (hty : fc.ty = tc.ty)
    (hlive : t.live = [])
    {fk : ForeignKey} (hfk : fk = ⟨Database.freeFkName (t.schema.fks.map (·.name)) fromCol, fromCol,
      t.schema.name, toCol⟩)
    (hn : nchunks { t.schema with fks := t.schema.fks ++ [fk] }.encode +
      (dbOf (A ++ t :: B)).catalogPages ≤ avail.length) :
    Ample V s (addFk t.schema.name fromCol t.schema.name toCol) := by
  have ht : t ∈ A ++ t :: B := by simp
  obtain ⟨fi, hfi, -⟩ := index_of_column hfc
  obtain ⟨ti, hti, -⟩ := index_of_column htc
  have hrows : t.state.rows = [] := by
    rw [Stored.state, hlive]
    rfl
  have hvals : ∀ ci, (allValuesIn t.entry ci).eval (s.read V.base) s.ctl = .ok [] := by
    intro ci
    rw [allValuesIn_run h ht, hrows]
    rfl
  have hmut : pushFk fk t.schema = .ok { t.schema with fks := t.schema.fks ++ [fk] } := rfl
  obtain ⟨s', he⟩ : ∃ s', (putSchema t.schema.name (pushFk fk) none).eval V.base s = (.ok (), s') :=
    putSchema_ample h hidx hmut (fun _ hmap => absurd hmap.symm (Option.some_ne_none _)) hn
  rw [hfk] at he
  refine ⟨_, (), s', ?_, he⟩
  unfold addFk
  rw [opened h hidx, hfc, orElse_some_bind, hidx, ok_bind, at_entry, ok_bind,
    Query.eval_bind_ok _ _ (h.schemaOf_run ht), htc, orElse_some_bind, if_neg (by simp [hun]),
    if_neg (by simp [hty]), hti, unwrap_some_bind, Query.eval_bind_ok _ _ (hvals ti), hfi,
    unwrap_some_bind, Query.eval_bind_ok _ _ (hvals fi)]
  rw [show checkExisting t.schema.name toCol [] [] = .ok () from rfl, ok_bind]
  simp only []
  rw [freshFkName_run, ok_bind]
  rfl

/-- `index_append`, when there is a page left. -/
theorem indexAppend_ample {objs : Multiset Obj} {ips slots : List Nat}
    (h : Stage V s₀ ps s avail (.index ips slots ::ₘ objs)) {v : Nat} (hv : v < 2 ^ 64)
    (hn : 0 < avail.length) :
    ∃ id s' ips' avail' qs, (indexAppend (ips.headD 0) v).eval V.base s = (.ok id, s') ∧
      avail.length ≤ avail'.length + 1 ∧
      Stage V s₀ (ps ++ qs) s' avail' (.index ips' (slots ++ [v]) ::ₘ objs) := by
  rcases indexAppend_stage h hv with ⟨s', he⟩ | ⟨id, s', he, ips', avail', qs, -, -, -, h'⟩
  · have hlinked : Linked indexLayout (V.view s) ips slots :=
      h.holds.owned.ok _ (Multiset.mem_cons_self _ _)
    exfalso
    rcases Nat.lt_or_eq_of_le hlinked.length_le with hroom | hfull
    · obtain ⟨s₁, he₁, -, -⟩ := indexAppend_room h.holds hv hroom
      rw [he] at he₁
      cases he₁
    · cases avail with
      | nil => exact Nat.lt_irrefl 0 hn
      | cons np avail =>
          obtain ⟨s₁, he₁, -, -⟩ := indexAppend_grow h.holds hv hfull
          rw [he] at he₁
          cases he₁
  · refine ⟨id, s', ips', avail', qs, he, ?_, h'⟩
    have hbefore := h.holds.count
    have hafter := h'.holds.count
    rw [Multiset.map_cons, Multiset.sum_cons, Obj.size] at hbefore hafter
    have hmore : blocks idxCap (slots ++ [v]).length ≤ blocks idxCap slots.length + 1 := by
      unfold blocks
      rw [List.length_append, List.length_singleton]
      have hcap : idxCap = 510 := rfl
      rw [hcap]
      omega
    omega

theorem insert_ample (h : Readable V s avail cat (A ++ t :: B)) (hc : (dbOf (A ++ t :: B)).Closed)
    (hidx : catIndex ((A ++ t :: B).map Stored.entry) t.schema.name = .ok A.length) {cells : Row}
    (hv : (dbOf (A ++ t :: B)).validate t.state cells none = .ok ())
    (hn : nchunks (encodeRow cells) + 1 + (dbOf (A ++ t :: B)).catalogPages ≤ avail.length) :
    Ample V s (insert t.schema.name cells) := by
  have hcheck := validate_run h hc (by simp : (A ++ t :: B)[A.length]? = some t) cells none
  rw [hv] at hcheck
  have hs := h.stage
  rw [tableObjs_pick] at hs
  obtain ⟨s₁, he₁, h₁⟩ := writeChain_room hs
    (show nchunks (encodeRow cells) ≤ avail.length by omega)
  have hlt := h₁.head_lt (Multiset.mem_cons_self _ _)
  generalize avail.take (nchunks (encodeRow cells)) = qs at *
  have h₁' := h₁.recast (show Obj.index t.indexPages t.heads ::ₘ
      (.blob qs (encodeRow cells) ::ₘ .blob t.schemaPages t.schema.encode ::ₘ
        (Stored.rowObjs t.slots + (catalogObjs cat (A ++ t :: B) +
          (tableObjs A + tableObjs B)))) = _ by
    simp only [← Multiset.singleton_add]
    ac_rfl)
  obtain ⟨id, s₂, ips, avail₂, rs, he₂, hle, h₂⟩ := indexAppend_ample h₁' hlt
    (by rw [List.length_drop]; omega)
  rw [List.length_drop] at hle
  have h₂' := h₂.recast (show catalogBlob cat (encodeCatalog ((A ++ t :: B).map Stored.entry)) +
      (.index ips (t.heads ++ [qs.headD 0]) ::ₘ .blob qs (encodeRow cells) ::ₘ
        .blob t.schemaPages t.schema.encode ::ₘ
          (Stored.rowObjs t.slots + (tableObjs A + tableObjs B))) = _ by
    simp only [← Multiset.singleton_add, catalogObjs, catalogBlob]
    ac_rfl)
  have hnames : (((A ++ t :: B).map Stored.entry).set A.length
      { t.entry with rowCount := t.entry.rowCount + 1 }).map (·.name) =
      (dbOf (A ++ t :: B)).map (·.schema.name) :=
    (names_set _ (entry_at A t B) (by rfl)).trans (names_entries _)
  obtain ⟨s₃, he₃⟩ := storeCatalog_ample h₂' (h₂'.moves.catalog.trans h.catalog) hnames (by omega)
  refine ample_tx (Eq.trans ?_ ((eval_bind_ok (f := fun _ => pure id) V.base he₃).trans rfl))
  rw [opened_tx h hidx, eval_query_bind _ hcheck, eval_bind_ok _ he₁]
  exact eval_bind_ok _ he₂

end Ample

/-! ## Operations that find their pages -/

theorem size_le_of_range {m : PageMap} {lo hi : Nat} (h : ∀ p ∈ m, lo ≤ p ∧ p < hi) :
    m.size ≤ hi - lo := by
  have hsub : m.keys ⊆ List.range' lo (hi - lo) := by
    intro p hp
    have hr := h p (Std.TreeMap.mem_keys.mp hp)
    rw [List.mem_range'_1]
    omega
  have hle := (Std.TreeMap.nodup_keys.subperm hsub).length_le
  rw [Std.TreeMap.length_keys, List.length_range'] at hle
  exact hle

section Runs

variable {pg : Pager Disk} {L : List Stored} {op : Op RowId} {α : Type} {body : PageProg α}

/-- A body stages pages of the volume only. -/
theorem attempt_lt (h : pg.Clean) (hq : pg.dev.Quiet)
    (hb : KeepsSize pg.sb.totalPages (fun _ => True) body) {a : α}
    {s : Staged Superblock Page} (hatt : pg.attempt body = (.ok a, s)) :
    ∀ p ∈ s.dirty, p < pg.sb.totalPages := by
  obtain ⟨o, k, sb, dirty, cache, hprog, hc, -, ho | ⟨-, hf⟩ | ho⟩ :=
    runProg_sim _ hb h.coherent
  · unfold Pager.attempt at hatt
    rw [h.staged, hatt] at ho
    injection ho with ho hs
    subst hs
    exact hc.dirty
  · exact absurd hf (hq.not_faultIn k)
  · unfold Pager.attempt at hatt
    rw [h.staged, hatt] at ho
    cases ho

/-- On a small volume an operation whose body finds its pages is answered, and
commits. -/
theorem run_ample (h : Stores pg L) (hsmall : pg.sb.totalPages - firstDataPage < jcap)
    (hid : op.Uses fun table id => ∀ t ∈ dbOf L, t.schema.name = table → id ∈ t.issued)
    (hample : Ample (volumeOf pg h.clean) ⟨pg.sb, ∅⟩ (method op)) :
    ∃ a pg', run op pg = (.ok a, pg') ∧ pg'.sb.totalPages = pg.sb.totalPages ∧
      pg'.sb.generation = (pg.sb.generation + 1) % 2 ^ 64 := by
  obtain ⟨avail, cat, hr⟩ := h.readable
  obtain ⟨body, a, s, hq, hb⟩ := hample
  have hask : pg.ask (method op) = .ok (.tx body) := by
    rw [← hq, Pager.ask, ← read_nothing_staged]
    rfl
  obtain ⟨hsize, pg₁, hcall, hstill, hclean, -⟩ :=
    call_tx h.clean h.quiet (steady_method op) hask
  have hquiet := hstill.quiet h.quiet
  have hatt : pg₁.attempt body = (.ok a, s) := by
    rw [hstill.attempt]
    exact hb
  rw [← hstill.sb] at hsize hsmall ⊢
  have htotal : pg₁.sb.totalPages = (volumeOf pg h.clean).total := by
    rw [hstill.sb]
    rfl
  rcases method_settles hr h.intact op hid with ⟨e, hq', -⟩ | ⟨a, hq', -⟩ | ⟨body', -, hq', hend⟩
  · rw [hq] at hq'
    cases hq'
  · rw [hq] at hq'
    cases hq'
  · rw [hq] at hq'
    cases hq'
    rcases hend with ⟨e, he, -⟩ | ⟨-, ⟨s', he⟩ | ⟨a', s', he, L', hl, -⟩⟩
    · rw [hb] at he
      cases he
    · rw [hb] at he
      cases he
    · rw [hb] at he
      cases he
      have hcount : s.dirty.size < jcap := by
        refine Nat.lt_of_le_of_lt (size_le_of_range fun p hp => ⟨?_, ?_⟩) hsmall
        · obtain ⟨ps, avail, cat, -, -, hs⟩ := hl
          rw [hs.moves.staged] at hp
          exact hs.data p (hp.resolve_left (Std.TreeMap.not_mem_emptyc))
        · exact attempt_lt hclean hquiet hsize hatt p hp
      have hcommit := hl.committable rfl hcount
      rw [← htotal] at hcommit
      obtain ⟨pg', htx, -, -, -, hsb, -⟩ := tx_ok hclean hquiet hsize hatt hcommit
      obtain ⟨ps, avail, cat, -, -, hs⟩ := hl
      have hgen : s.ctl.generation = pg.sb.generation := hs.moves.generation
      refine ⟨a, pg', hcall.trans htx, ?_, ?_⟩
      · rw [hsb, htotal]
        exact hs.holds.size
      · rw [hsb, hgen, hstill.sb]

end Runs

/-- A body that finds its pages, whatever chains the tables lie on. -/
def Roomy (n : Nat) (db : Database RowId) (op : Op RowId) : Prop :=
  ∀ (V : Volume) (s : Staged Superblock Page) avail cat L, Readable V s avail cat L →
    dbOf L = db → (dbOf L).Intact → V.total = n → Ample V s (method op)

/-- Renaming a column of the only table. -/
theorem roomy_rename {n : Nat} {t : TableState RowId} {old new : String} (hempty : new ≠ "")
    (hne : old ≠ new) (hold : (t.schema.column old).isSome = true)
    (hnew : t.schema.column new = none)
    (hn : nchunks (renameIn t.schema.name old new true t.schema).encode +
      Database.catalogPages [t] + Database.pages [t] ≤ n - firstDataPage) :
    Roomy n [t] (.renameColumn t.schema.name old new) := by
  rintro V s avail cat L hr hdb hi rfl
  obtain ⟨u, rfl, rfl⟩ := List.map_eq_singleton_iff.mp (show L.map Stored.state = [t] from hdb)
  have hfree := hr.room
  have hroom : Database.pages (dbOf [u]) = Database.pages [u.state] := rfl
  have hcat : Database.catalogPages (dbOf [u]) = Database.catalogPages [u.state] := rfl
  refine Ample.silent (renameColumn_ample hr hempty hne hold hnew ?_)
  rw [hcat]
  rw [hroom] at hfree
  rw [Stored.state_schema] at hn
  omega

/-- A call that finds its pages is carried out, and commits. -/
theorem run_roomy {n : Nat} {led : Ledger RowId} {pg : Pager Disk} {db : Database RowId}
    (h : Mirrored led pg db) (hn : pg.sb.totalPages = n) (hsmall : n - firstDataPage < jcap)
    (op : Op RowId) (he : led.Covers (.call op)) (hroom : Roomy n db op) :
    ∃ fresh a db', (∀ table cells, op = .insert table cells → ∀ t ∈ db, t.schema.name = table →
        fresh ∉ t.issued) ∧ db.step fresh op = (.ok a, db') ∧ (run op pg).1 = .ok a ∧
      Mirrored (led.note (.call op) a) (run op pg).2 db' ∧
      (run op pg).2.sb.totalPages = n ∧
      (run op pg).2.sb.generation = (pg.sb.generation + 1) % 2 ^ 64 := by
  subst hn
  obtain ⟨fresh, hnew, ho, hnext, -⟩ := happen_mirrored h (.call op) he
  have huses := h.uses he
  obtain ⟨L, hL, rfl⟩ := h.stores
  obtain ⟨avail, cat, hr⟩ := hL.readable
  obtain ⟨a, pg', hrun, htotal, hgen⟩ := run_ample hL hsmall huses
    (hroom _ _ _ _ _ hr rfl hL.intact rfl)
  have ho' : (run op pg).1 = Outcome.ofExcept ((dbOf L).happen fresh (.call op)).1 := ho
  have hnext' : Mirrored (led.after (.call op) (run op pg).1) (run op pg).2
      ((dbOf L).happen fresh (.call op)).2 := hnext
  rw [hrun] at ho' hnext' ⊢
  cases fresh with
  | none => cases ho'
  | some fresh =>
      have hok : ((dbOf L).step fresh op).1 = .ok a := Outcome.ofExcept_eq_ok.mp ho'.symm
      exact ⟨fresh, a, _, fun table cells hop t ht hname =>
        hnew.id fresh rfl table cells (congrArg StoreEvent.call hop) t ht hname,
        Prod.ext hok rfl, rfl, hnext', htotal, hgen⟩

/-- The handle comes from formatting `d` and mirrors `db` on a volume of `n`
pages, few enough for one journal. -/
structure Seated (d : Disk) (n : Nat) (led : Ledger RowId) (pg : Pager Disk)
    (db : Database RowId) : Prop where
  reach : Reachable d led pg
  mirrored : Mirrored led pg db
  total : pg.sb.totalPages = n
  small : n - firstDataPage < jcap

namespace Seated

variable {d : Disk} {n : Nat} {led : Ledger RowId} {pg : Pager Disk} {db : Database RowId}

theorem run (h : Seated d n led pg db) (op : Op RowId) (he : led.Covers (.call op))
    (hroom : Roomy n db op) :
    ∃ fresh a db', (∀ table cells, op = .insert table cells → ∀ t ∈ db, t.schema.name = table →
        fresh ∉ t.issued) ∧ db.step fresh op = (.ok a, db') ∧ (Store.run op pg).1 = .ok a ∧
      Seated d n (led.note (.call op) a) (Store.run op pg).2 db' := by
  obtain ⟨fresh, a, db', hnew, hstep, hrun, hnext, htotal, -⟩ :=
    run_roomy h.mirrored h.total h.small op he hroom
  have hreach : Reachable d (led.after (.call op) (Store.run op pg).1) (Store.run op pg).2 :=
    h.reach.event (.call op) he
  rw [hrun] at hreach
  exact ⟨fresh, a, db', hnew, hstep, hrun, hreach, hnext, htotal, h.small⟩

/-- No call takes the commit counter further than one step. -/
theorem tick (h : Seated d n led pg db) {op : Op RowId} (he : led.Covers (.call op)) {k : Nat}
    (hk : pg.sb.generation ≤ k) : (Store.run op pg).2.sb.generation ≤ k + 1 := by
  rcases h.mirrored.commits he with hstill | ⟨-, hgen⟩
  · rw [hstill.sb]
    omega
  · rw [hgen]
    exact (Nat.mod_le _ _).trans (Nat.succ_le_succ hk)

/-- An edit of the model that needs no id. -/
theorem edit (h : Seated d n led pg db) (op : Op RowId) (he : led.Covers (.call op))
    (hroom : Roomy n db op) {db' : Database RowId}
    (hstep : ∀ fresh, db.step fresh op = (.ok .done, db'))
    (hnote : led.note (.call op) .done = led) :
    (Store.run op pg).1 = .ok .done ∧ Seated d n led (Store.run op pg).2 db' := by
  obtain ⟨fresh, a, db'', -, hstep', hrun, hnext⟩ := h.run op he hroom
  rw [hstep fresh] at hstep'
  injection hstep' with ha hdb
  injection ha with ha
  subst ha hdb
  rw [hnote] at hnext
  exact ⟨hrun, hnext⟩

theorem createTable (h : Seated d n led pg db) {name : String} (hname : name ≠ "")
    (hdup : ∀ t ∈ db, t.schema.name ≠ name)
    (hn : nchunks (Table.new name).encode + 1 +
      Database.catalogPages (db ++ [⟨Table.new name, [], []⟩]) + db.pages ≤ n - firstDataPage) :
    (Store.run (.createTable name) pg).1 = .ok .done ∧
      Seated d n led (Store.run (.createTable name) pg).2 (db ++ [⟨Table.new name, [], []⟩]) := by
  have hno : ¬ ∃ t ∈ db, t.schema.name = name := not_exists.mpr fun t ht => hdup t ht.1 ht.2
  refine h.edit (.createTable name) trivial ?_ (fun fresh => ?_) rfl
  · rintro V s avail cat L hr rfl - rfl
    have hfree := hr.room
    exact Ample.silent (createTable_ample hr hname hno (by omega))
  · show db.edited .done (db.createTable name) = _
    rw [Database.createTable, Database.refuse_neg hname, Database.refuse_neg hno]
    rfl

/-- The table of that name, in the list of what is stored. -/
theorem split {L : List Stored} (hn : ((dbOf L).map (·.schema.name)).Nodup) {t : TableState RowId}
    (ht : t ∈ dbOf L) : ∃ A u B, L = A ++ u :: B ∧ u.state = t ∧
      catIndex (L.map Stored.entry) u.schema.name = .ok A.length := by
  rcases located L t.schema.name with ⟨A, u, B, rfl, hname, hidx, hlook⟩ | ⟨-, hlook, -⟩
  · refine ⟨A, u, B, rfl, ?_, hname ▸ hidx⟩
    rw [Database.lookup_of_mem hn ht] at hlook
    injection hlook with hlook
    exact hlook.symm
  · rw [Database.lookup_of_mem hn ht] at hlook
    cases hlook

theorem live_nil {u : Stored} (h : u.state.rows = []) : u.live = [] := by
  rw [← List.length_eq_zero_iff, ← length_rows, h]
  rfl

theorem addColumn (h : Seated d n led pg db) {t : TableState RowId} (ht : t ∈ db) {col : Column}
    (hnull : col.nullable = true) (hnew : t.schema.column col.name = none) (hrows : t.rows = [])
    (hn : nchunks { t.schema with columns := t.schema.columns ++ [col] }.encode +
      db.catalogPages + db.pages ≤ n - firstDataPage) {db' : Database RowId}
    (hdb : db.addColumn t.schema.name col = .ok db') :
    (Store.run (.addColumn t.schema.name col) pg).1 = .ok .done ∧
      Seated d n led (Store.run (.addColumn t.schema.name col) pg).2 db' := by
  refine h.edit (.addColumn t.schema.name col) trivial ?_ (fun fresh => ?_) rfl
  · rintro V s avail cat L hr rfl hi rfl
    have hfree := hr.room
    obtain ⟨A, u, B, rfl, rfl, hidx⟩ := split hi.names ht
    exact Ample.silent (addColumn_ample hr hidx hnull hnew (fun k r hr => by
      have hlive : (rowIdAt u.indexPages k, r) ∈ u.live := mem_live.mpr ⟨k, lt_of_slot hr, hr, rfl⟩
      rw [live_nil hrows] at hlive
      cases hlive) (by
      rw [Stored.state_schema] at hn
      omega))
  · show db.edited .done (db.addColumn t.schema.name col) = _
    rw [hdb]
    rfl

theorem addFk (h : Seated d n led pg db) {t : TableState RowId} (ht : t ∈ db)
    {fromCol toCol : String} {fc tc : Column} (hfc : t.schema.column fromCol = some fc)
    (htc : t.schema.column toCol = some tc) (hun : tc.unique = true) (hty : fc.ty = tc.ty)
    (hrows : t.rows = []) {fk : ForeignKey}
    (hfk : fk = ⟨Database.freeFkName (t.schema.fks.map (·.name)) fromCol, fromCol,
      t.schema.name, toCol⟩)
    (hn : nchunks { t.schema with fks := t.schema.fks ++ [fk] }.encode +
      db.catalogPages + db.pages ≤ n - firstDataPage) {db' : Database RowId}
    (hdb : db.addFk t.schema.name fromCol t.schema.name toCol = .ok db') :
    (Store.run (.addFk t.schema.name fromCol t.schema.name toCol) pg).1 = .ok .done ∧
      Seated d n led (Store.run (.addFk t.schema.name fromCol t.schema.name toCol) pg).2 db' := by
  refine h.edit (.addFk t.schema.name fromCol t.schema.name toCol) trivial ?_ (fun fresh => ?_) rfl
  · rintro V s avail cat L hr rfl hi rfl
    have hfree := hr.room
    obtain ⟨A, u, B, rfl, rfl, hidx⟩ := split hi.names ht
    exact Ample.silent (addFk_ample hr hidx hfc htc hun hty (live_nil hrows) hfk (by
      rw [Stored.state_schema] at hn
      omega))
  · show db.edited .done (db.addFk t.schema.name fromCol t.schema.name toCol) = _
    rw [hdb]
    rfl

/-- An insert that the model accepts. -/
theorem insert (h : Seated d n led pg db) {t : TableState RowId} (ht : t ∈ db) {cells : Row}
    (hv : db.validate t cells none = .ok ())
    (hn : nchunks (encodeRow cells) + 1 + db.catalogPages + db.pages ≤ n - firstDataPage) :
    ∃ id, id ∉ t.issued ∧ (Store.run (.insert t.schema.name cells) pg).1 = .ok (.inserted id) ∧
      Seated d n (led ++ [(t.schema.name, id)]) (Store.run (.insert t.schema.name cells) pg).2
        (db.replace t.schema.name fun t =>
          { t with rows := t.rows ++ [(id, cells)], issued := t.issued ++ [id] }) := by
  have hroom : Roomy n db (.insert t.schema.name cells) := by
    rintro V s avail cat L hr rfl hi rfl
    have hfree := hr.room
    obtain ⟨A, u, B, rfl, rfl, hidx⟩ := split hi.names ht
    obtain ⟨body, id, s', hq, hb⟩ := insert_ample hr hi.closed hidx hv (by omega)
    refine ⟨Reply.inserted <$> body, .inserted id, s', ?_, ?_⟩
    · exact (Query.eval_bind_ok _ _ hq).trans rfl
    · exact (eval_bind_ok _ hb).trans rfl
  obtain ⟨id, a, db', hnew, hstep, hrun, hnext⟩ :=
    h.run (.insert t.schema.name cells) trivial hroom
  obtain ⟨hok, rfl⟩ := Database.edited_ok hstep
  obtain ⟨u, -, -, rfl⟩ := Database.insert_ok hok
  exact ⟨id, hnew _ _ rfl t ht rfl, hrun, hnext⟩

end Seated

theorem wide_sectors : 2100 * pageSectors < 2 ^ 64 := by decide

/-- An empty disk with room for fifty-one data pages. -/
def wideDisk : Disk :=
  Disk.attach (2100 * pageSectors) wide_sectors (fun _ => Buf.zero sectorSize) Disk.noFaults

theorem wideDisk_quiet : wideDisk.Quiet := fun _ => rfl

/-- A disk that works, just formatted, with few enough pages for one journal. -/
theorem format_seated {d : Disk} (hq : d.Quiet)
    (hroom : firstDataPage + 1 < d.sectors / pageSectors)
    (hsmall : d.sectors / pageSectors - firstDataPage < jcap) :
    ∃ pg, formatStore d = (.ok pg, pg.dev) ∧ Seated d (d.sectors / pageSectors) [] pg [] ∧
      pg.sb.generation ≤ 1 := by
  obtain ⟨pg, hformat, -, -, -, hsb⟩ := format_clean hq hroom
  refine ⟨pg, hformat, ⟨.format hformat, format_mirrored hq hformat, hsb ▸ rfl, hsmall⟩, ?_⟩
  rw [hsb]
  exact Nat.le_refl 1

theorem wideDisk_fresh : ∃ pg, formatStore wideDisk = (.ok pg, pg.dev) ∧
    Seated wideDisk 2100 [] pg [] ∧ pg.sb.generation ≤ 1 :=
  format_seated wideDisk_quiet (by decide) (by decide)

theorem wideDisk_seated : ∃ pg, formatStore wideDisk = (.ok pg, pg.dev) ∧
    Seated wideDisk 2100 [] pg [] := by
  obtain ⟨pg, hformat, h, -⟩ := wideDisk_fresh
  exact ⟨pg, hformat, h⟩

/-! ## A small store -/

/-- People, each with a parent among them. -/
def people : Table :=
  ⟨"people", [⟨"name", .string, true, true, none⟩, ⟨"parent", .string, true, false, none⟩],
    [⟨"parent_fk", "parent", "people", "name"⟩], []⟩

/-- Two people, the second with the first as parent. -/
def family (ann bob : RowId) : Database RowId :=
  [⟨people, [(ann, [some (.str "Ann"), none]), (bob, [some (.str "Bob"), some (.str "Ann")])],
    [ann, bob]⟩]

/-- There is room for the second one. The ids have no part in it. -/
theorem family_room (ann : RowId) :
    nchunks (encodeRow [some (.str "Bob"), some (.str "Ann")]) + 1 +
      Database.catalogPages [⟨people, [(ann, [some (.str "Ann"), none])], [ann]⟩] +
        Database.pages [⟨people, [(ann, [some (.str "Ann"), none])], [ann]⟩] ≤
          2100 - firstDataPage := by
  have hcat : Database.catalogPages [⟨people, [(ann, [some (.str "Ann"), none])], [ann]⟩] =
      Database.catalogPages [⟨people, [((), [some (.str "Ann"), none])], [()]⟩] := rfl
  have hpages : Database.pages [⟨people, [(ann, [some (.str "Ann"), none])], [ann]⟩] =
      Database.pages [⟨people, [((), [some (.str "Ann"), none])], [()]⟩] := rfl
  rw [hcat, hpages]
  decide

/-- They are there after six calls. -/
theorem family_fresh : ∃ ann bob pg,
    Seated wideDisk 2100 [("people", ann), ("people", bob)] pg (family ann bob) ∧
      pg.sb.generation ≤ 7 := by
  obtain ⟨pg, -, h, g⟩ := wideDisk_fresh
  obtain ⟨-, h₁⟩ := @Seated.createTable _ _ _ _ _ h "people" (by decide) (by simp) (by decide)
  obtain ⟨-, h₂⟩ := @Seated.addColumn _ _ _ _ _ h₁ _ (List.mem_singleton_self _)
    ⟨"name", .string, true, true, none⟩ rfl rfl rfl (by decide) _ rfl
  obtain ⟨-, h₃⟩ := @Seated.addColumn _ _ _ _ _ h₂ _ (List.mem_singleton_self _)
    ⟨"parent", .string, true, false, none⟩ rfl rfl rfl (by decide) _ rfl
  obtain ⟨-, h₄⟩ := @Seated.addFk _ _ _ _ _ h₃ _ (List.mem_singleton_self _) "parent" "name"
    _ _ rfl rfl rfl rfl rfl _ rfl (by decide) _ rfl
  obtain ⟨ann, -, -, h₅⟩ := @Seated.insert _ _ _ _ _ h₄ _ (List.mem_singleton_self _)
    [some (.str "Ann"), none] rfl (by decide)
  have hann : Seated wideDisk 2100 [("people", ann)] _
    [⟨people, [(ann, [some (.str "Ann"), none])], [ann]⟩] := h₅
  obtain ⟨bob, -, -, h₆⟩ := @Seated.insert _ _ _ _ _ hann _ (List.mem_singleton_self _)
    [some (.str "Bob"), some (.str "Ann")] rfl (family_room ann)
  exact ⟨ann, bob, _, h₆, hann.tick (by trivial) (h₄.tick (by trivial) (h₃.tick (by trivial)
    (h₂.tick (by trivial) (h₁.tick (by trivial) (h.tick (by trivial) g)))))⟩

theorem family_seated : ∃ ann bob pg,
    Seated wideDisk 2100 [("people", ann), ("people", bob)] pg (family ann bob) := by
  obtain ⟨ann, bob, pg, h, -⟩ := family_fresh
  exact ⟨ann, bob, pg, h⟩

end Store

end TablesOS
