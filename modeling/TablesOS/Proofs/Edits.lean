import TablesOS.Proofs.Checks
import TablesOS.Proofs.Stages

/-!
# What the transactions do to the tables

Each transaction body, run in a readable state whose schemas are closed, fails
with the error of the model, or finds no free page, or leaves pages that hold
the tables of the model. The stages of a body are matched against the list of
stored tables: a table is taken out of the list, its chains are rewritten one
by one, and it is put back.
-/

namespace TablesOS

open Prog Codec Journal

namespace Store

open Pager

variable {V : Volume} {s₀ s : Staged Superblock Page} {ps avail cat : List Nat}
  {L A B : List Stored} {t : Stored}

/-! ## Ends -/

/-- The body has left the tables `L` for its commit, and something to commit. -/
def Leaves (V : Volume) (s₀ s : Staged Superblock Page) (L : List Stored) : Prop :=
  ∃ ps avail cat, ps ≠ [] ∧ (cat = [] → L = []) ∧
    Stage V (withCatalog s₀ (cat.headD 0)) ps s avail (catalogObjs cat L + tableObjs L)

/-- An operation and what the model says of it, `m a` for the answer `a`: it is
refused before the transaction or in it, it has nothing to do, or it edits what
the model would edit, if there is room. -/
def Edits {α : Type} (V : Volume) (s : Staged Superblock Page) (L : List Stored)
    (q : PageQuery (Call α)) (m : α → Except StoreError (Database RowId)) : Prop :=
  (∃ e, q.eval (s.read V.base) s.ctl = .err e ∧ ∀ a, m a = .error e) ∨
  (∃ a, q.eval (s.read V.base) s.ctl = .ok (.ret a) ∧ m a = .ok (dbOf L)) ∨
  ∃ body, q.eval (s.read V.base) s.ctl = .ok (.tx body) ∧
    ((∃ e, body.eval V.base s = (.err e, s) ∧ ∀ a, m a = .error e) ∨
      (∀ a, ∃ db, m a = .ok db) ∧
        Finds V body s fun a s' => ∃ L', Leaves V s s' L' ∧ m a = .ok (dbOf L'))

namespace Readable

/-- Where a body starts. -/
theorem stage (h : Readable V s avail cat L) :
    Stage V s [] s avail (catalogObjs cat L + tableObjs L) :=
  ⟨h.holds, Moves.refl s, by simp, fun qs bytes ho => Or.inl (h.small qs bytes ho)⟩

end Readable

/-- A body that ends with the catalog. -/
theorem storeCatalog_leaves {bytes : List Byte}
    (h : Stage V s₀ ps s avail (catalogBlob cat bytes + tableObjs L))
    (hcat : s.ctl.catalogHead = cat.headD 0) :
    Finds V (storeCatalog (L.map Stored.entry)) s fun _ s' => Leaves V s₀ s' L := by
  refine (storeCatalog_stage h hcat _).mono fun _ s' ⟨cat', avail', qs, hne, hqs, hs⟩ => ?_
  refine ⟨ps ++ qs, avail', cat', fun hnil => hqs (List.append_eq_nil_iff.mp hnil).2,
    fun hnil => absurd hnil hne, hs.recast ?_⟩
  rw [catalogObjs, if_neg hne, Multiset.singleton_add]

/-! ## Tables in their place -/

/-- The other tables of the list have other names. -/
theorem names_apart (hc : (dbOf (A ++ t :: B)).Closed) :
    (∀ u ∈ A, u.schema.name ≠ t.schema.name) ∧ ∀ u ∈ B, u.schema.name ≠ t.schema.name := by
  have hn : ((A ++ t :: B).map (·.schema.name)).Nodup := by
    have hn := hc.names
    rw [dbOf, List.map_map] at hn
    exact hn
  rw [List.map_append, List.map_cons, List.nodup_append, List.nodup_cons] at hn
  exact ⟨fun u hu heq => hn.2.2 _ (List.mem_map_of_mem hu) _ List.mem_cons_self heq,
    fun u hu heq => hn.2.1.1 (heq ▸ List.mem_map_of_mem hu)⟩

/-- One table of the list changed is one table of the model changed. -/
theorem dbOf_replace (hc : (dbOf (A ++ t :: B)).Closed) {t' : Stored}
    {f : TableState RowId → TableState RowId} (hf : f t.state = t'.state) :
    dbOf (A ++ t' :: B) = (dbOf (A ++ t :: B)).replace t.schema.name f := by
  obtain ⟨hA, hB⟩ := names_apart hc
  have hkeep : ∀ M : List Stored, (∀ u ∈ M, u.schema.name ≠ t.schema.name) →
      (M.map Stored.state).map (fun u => if u.schema.name = t.schema.name then f u else u) =
        M.map Stored.state := by
    intro M hM
    rw [List.map_map]
    refine List.map_congr_left fun u hu => ?_
    exact if_neg (hM u hu)
  have hself : (if t.state.schema.name = t.schema.name then f t.state else t.state) =
      t'.state := (if_pos rfl).trans hf
  rw [Database.replace, dbOf, dbOf, List.map_append, List.map_append, List.map_cons,
    List.map_cons, List.map_append, List.map_cons, hkeep A hA, hkeep B hB, hself]

theorem map_entry_set (t' : Stored) {e : CatEntry} (he : e = t'.entry) :
    ((A ++ t :: B).map Stored.entry).set A.length e = (A ++ t' :: B).map Stored.entry := by
  rw [he, List.map_append, List.map_append, List.map_cons, List.map_cons,
    List.set_append_right _ _ (by simp), List.length_map, Nat.sub_self, List.set_cons_zero]

theorem map_entry_eraseIdx :
    ((A ++ t :: B).map Stored.entry).eraseIdx A.length = (A ++ B).map Stored.entry := by
  rw [List.map_append, List.map_append, List.map_cons,
    List.eraseIdx_append_of_length_le (by simp), List.length_map, Nat.sub_self,
    List.eraseIdx_cons_zero]

/-! ## Rows in their slots -/

theorem rowObjs_append (xs ys : List (Option (List Nat × Row))) :
    Stored.rowObjs (xs ++ ys) = Stored.rowObjs xs + Stored.rowObjs ys := by
  rw [Stored.rowObjs, List.reduceOption_append, List.map_append]
  rfl

/-- The chains of the rows when one slot is written. -/
theorem rowObjs_set {slots : List (Option (List Nat × Row))} {k : Nat} (hk : k < slots.length)
    (x : Option (List Nat × Row)) :
    Stored.rowObjs (slots.set k x) = Stored.rowObjs [x] + Stored.rowObjs (slots.eraseIdx k) := by
  obtain ⟨xs, y, ys, rfl, rfl⟩ : ∃ xs y ys, slots = xs ++ y :: ys ∧ k = xs.length :=
    ⟨slots.take k, slots[k], slots.drop (k + 1), by simp, by simp; omega⟩
  rw [List.set_append_right _ _ (Nat.le_refl _), Nat.sub_self, List.set_cons_zero,
    List.eraseIdx_append_of_length_le (Nat.le_refl _), Nat.sub_self, List.eraseIdx_cons_zero,
    rowObjs_append, ← List.singleton_append, rowObjs_append, rowObjs_append]
  exact add_left_comm _ _ _

theorem rowObjs_split {slots : List (Option (List Nat × Row))} {k : Nat}
    {r : List Nat × Row} (hr : slots.getD k none = some r) :
    Stored.rowObjs slots = .blob r.1 (encodeRow r.2) ::ₘ Stored.rowObjs (slots.eraseIdx k) := by
  have hk : k < slots.length := by
    by_contra hge
    rw [List.getD_eq_default _ _ (by omega)] at hr
    cases hr
  have hset := rowObjs_set hk (some r)
  rw [← hr, List.getD_eq_getElem _ _ hk, List.set_getElem_self] at hset
  rw [hset, ← List.getD_eq_getElem _ none hk, hr]
  rfl

/-- The row of a slot, taken out. -/
theorem objs_slot {slots : List (Option (List Nat × Row))} {k : Nat} {r : List Nat × Row}
    (hr : slots.getD k none = some r) (o : Obj) (rest : Multiset Obj) :
    o ::ₘ (Stored.rowObjs slots + rest) = .blob r.1 (encodeRow r.2) ::ₘ o ::ₘ
      (Stored.rowObjs (slots.eraseIdx k) + rest) := by
  rw [rowObjs_split hr, Multiset.cons_add, Multiset.cons_swap]

/-- A row put into a slot. -/
theorem objs_set {slots : List (Option (List Nat × Row))} {k : Nat} (hk : k < slots.length)
    (r : List Nat × Row) (o : Obj) (rest : Multiset Obj) :
    o ::ₘ (Stored.rowObjs (slots.set k (some r)) + rest) = o ::ₘ .blob r.1 (encodeRow r.2) ::ₘ
      (Stored.rowObjs (slots.eraseIdx k) + rest) := by
  rw [rowObjs_set hk, add_assoc]
  rfl

theorem heads_set (slots : List (Option (List Nat × Row))) (k : Nat)
    (x : Option (List Nat × Row)) :
    (slots.set k x).map Stored.headOf = (slots.map Stored.headOf).set k (Stored.headOf x) :=
  List.map_set

theorem lt_of_slot {slots : List (Option (List Nat × Row))} {k : Nat} {r : List Nat × Row}
    (hr : slots.getD k none = some r) : k < slots.length := by
  by_contra hge
  rw [List.getD_eq_default _ _ (by omega)] at hr
  cases hr

theorem getD_set_self {slots : List (Option (List Nat × Row))} {k : Nat}
    (hk : k < slots.length) (x : Option (List Nat × Row)) : (slots.set k x).getD k none = x := by
  rw [List.getD_eq_getElem _ _ (by simpa using hk), List.getElem_set_self]

theorem getD_set_ne {slots : List (Option (List Nat × Row))} {j k : Nat} (h : k ≠ j)
    (x : Option (List Nat × Row)) : (slots.set k x).getD j none = slots.getD j none := by
  rw [List.getD_eq_getElem?_getD, List.getElem?_set_ne h, List.getD_eq_getElem?_getD]

theorem Stage.head_lt {objs : Multiset Obj} (h : Stage V s₀ ps s avail objs) {qs : List Nat}
    {bytes : List Byte} (ho : Obj.blob qs bytes ∈ objs) : qs.headD 0 < 2 ^ 64 := by
  cases qs with
  | nil => decide
  | cons q qs =>
      have hlt := (h.holds.mem_range_of_foot ho (p := q) List.mem_cons_self).2
      exact Nat.lt_trans hlt V.total_lt

/-- `decode_row(&self.read_chain(head)?)?` at any stage. -/
theorem readRow_stage {objs : Multiset Obj} (h : Stage V s₀ ps s avail objs)
    {r : List Nat × Row} (ho : Obj.blob r.1 (encodeRow r.2) ∈ objs)
    (hsmall : (encodeRow r.2).length < 2 ^ 64) :
    (readRow (r.1.headD 0)).eval (s.read V.base) s.ctl = .ok r.2 := by
  rw [readRow, Query.eval_bind_ok _ _ (readChain_run h.holds ho), Query.eval_lift,
    decodeRow_encodeRow hsmall]
  rfl

/-! ## Rewriting the rows -/

/-- The row loop of `put_schema`, over the slots `ks`. -/
theorem rewriteRows_stage (map : Row → Row) {ips : List Nat} {rest : Multiset Obj} :
    ∀ (ks : List Nat) {slots : List (Option (List Nat × Row))} {ps avail : List Nat}
      {s : Staged Superblock Page}, ks.Nodup →
      (∀ k ∈ ks, ∃ r, slots.getD k none = some r ∧ (encodeRow r.2).length < 2 ^ 64) →
      Stage V s₀ ps s avail
        (.index ips (slots.map Stored.headOf) ::ₘ (Stored.rowObjs slots + rest)) →
      Finds V (rewriteRows map (ks.map fun k =>
          (rowIdAt ips k, Stored.headOf (slots.getD k none)))) s fun _ s' =>
        ∃ slots' qs avail', slots'.length = slots.length ∧
          (∀ k, (slots'.getD k none).map (·.2) = (slots.getD k none).map fun r =>
            if k ∈ ks then map r.2 else r.2) ∧
          Stage V s₀ (ps ++ qs) s' avail'
            (.index ips (slots'.map Stored.headOf) ::ₘ (Stored.rowObjs slots' + rest)) := by
  intro ks
  induction ks with
  | nil =>
      intro slots ps avail s _ _ h
      refine ends_pure ⟨slots, [], avail, rfl, fun k => by simp, ?_⟩
      rw [List.append_nil]
      exact h
  | cons k ks ih =>
      intro slots ps avail s hnd hrows h
      rw [List.nodup_cons] at hnd
      obtain ⟨r, hr, hsmall⟩ := hrows k List.mem_cons_self
      have hk := lt_of_slot hr
      rw [objs_slot hr] at h
      have hread := readRow_stage h (Multiset.mem_cons_self _ _) hsmall
      rw [List.map_cons, rewriteRows, hr]
      refine Ends.query hread ?_
      refine (freeChain_stage h fun _ => nofun).bind fun _ s₁ h₁ => ?_
      refine (writeChain_stage h₁ (encodeRow (map r.2))).bind fun nh s₂ hs₂ => ?_
      obtain ⟨qs, avail₂, rfl, -, h₂⟩ := hs₂
      have hlt := h₂.head_lt (Multiset.mem_cons_self _ _)
      rw [Multiset.cons_swap] at h₂
      refine (indexSet_stage h₂ (by simpa using hk) hlt).bind fun _ s₃ h₃ => ?_
      have hobjs := objs_set hk (qs, map r.2)
        (.index ips ((slots.set k (some (qs, map r.2))).map Stored.headOf)) rest
      rw [heads_set] at hobjs
      have h₃' := h₃.recast hobjs
      rw [← heads_set] at h₃'
      have hne : ∀ j ∈ ks, k ≠ j := fun j hj heq => hnd.1 (heq ▸ hj)
      have hrest := ih hnd.2 (fun j hj => by
        obtain ⟨r', hr', hsm⟩ := hrows j (List.mem_cons_of_mem _ hj)
        exact ⟨r', by rw [getD_set_ne (hne j hj)]; exact hr', hsm⟩) h₃'
      have hlist : (ks.map fun j => (rowIdAt ips j,
          Stored.headOf ((slots.set k (some (qs, map r.2))).getD j none))) =
          ks.map fun j => (rowIdAt ips j, Stored.headOf (slots.getD j none)) :=
        List.map_congr_left fun j hj => by rw [getD_set_ne (hne j hj)]
      rw [hlist] at hrest
      refine hrest.mono fun _ s' ⟨slots', qs', avail', hlen, hsame, h'⟩ => ?_
      rw [List.append_assoc, List.append_assoc, List.append_assoc] at h'
      refine ⟨slots', _, avail', by rw [hlen, List.length_set], fun j => ?_, h'⟩
      rw [hsame j]
      by_cases hj : k = j
      · subst hj
        rw [getD_set_self hk, hr]
        simp [hnd.1]
      · rw [getD_set_ne hj]
        have hmem : j ∈ k :: ks ↔ j ∈ ks := by simp [Ne.symm hj]
        simp only [hmem]

/-! ## The rows of a table, slot by slot -/

/-- The slots that hold a row. -/
def liveKs (slots : List (Option (List Nat × Row))) : List Nat :=
  (List.range slots.length).filter fun k => (slots.getD k none).isSome

theorem nodup_liveKs (slots : List (Option (List Nat × Row))) : (liveKs slots).Nodup :=
  List.nodup_range.filter _

theorem mem_liveKs {slots : List (Option (List Nat × Row))} {k : Nat} :
    k ∈ liveKs slots ↔ ∃ r, slots.getD k none = some r := by
  rw [liveKs, List.mem_filter, List.mem_range, Option.isSome_iff_exists]
  exact ⟨fun h => h.2, fun ⟨r, hr⟩ => ⟨lt_of_slot hr, r, hr⟩⟩

theorem live_heads (t : Stored) : (t.live.map fun r => (r.1, r.2.1.headD 0)) =
    (liveKs t.slots).map fun k =>
      (rowIdAt t.indexPages k, Stored.headOf (t.slots.getD k none)) := by
  unfold Stored.live liveKs
  induction List.range t.slots.length with
  | nil => rfl
  | cons k ks ih =>
      rw [List.filterMap_cons, List.filter_cons]
      cases hr : t.slots.getD k none with
      | none => exact ih
      | some r =>
          simp only [Option.map_some, List.map_cons, Option.isSome_some, if_true, hr, ih]
          rfl

theorem rows_eq (t : Stored) : t.state.rows = (List.range t.slots.length).filterMap fun k =>
    ((t.slots.getD k none).map (·.2)).map (Prod.mk (rowIdAt t.indexPages k)) := by
  rw [Stored.state, Stored.live, List.map_filterMap]
  refine List.filterMap_congr fun k _ => ?_
  cases t.slots.getD k none <;> rfl

/-- A table whose rows were all rewritten by `f`. -/
theorem state_rewritten {t t' : Stored} {sch : Table} {f : Row → Row}
    (hsch : t'.schema = sch) (hidx : t'.indexPages = t.indexPages)
    (hlen : t'.slots.length = t.slots.length)
    (hrows : ∀ k, (t'.slots.getD k none).map (·.2) =
      (t.slots.getD k none).map fun r => f r.2) :
    t'.state = t.state.edit sch f := by
  have hr : t'.state.rows = t.state.rows.map fun r => (r.1, f r.2) := by
    rw [rows_eq, rows_eq, List.map_filterMap, hlen, hidx]
    refine List.filterMap_congr fun k _ => ?_
    rw [hrows k]
    cases t.slots.getD k none <;> rfl
  have hi : t'.state.issued = t.state.issued := by
    simp only [Stored.state, hlen, hidx]
  show TableState.mk t'.schema t'.state.rows t'.state.issued = TableState.mk _ _ _
  rw [hsch, hr, hi]

/-! ## Opening a table in a transaction -/

theorem opened_tx {β : Type} {name : String} (h : Readable V s avail cat (A ++ t :: B))
    (hidx : catIndex ((A ++ t :: B).map Stored.entry) name = .ok A.length)
    (K : List CatEntry → Nat → CatEntry → Table → PageProg β) :
    (do
      let cat ← loadCatalog
      let i ← catIndex cat name
      let e ← at! cat i
      let t ← schemaOf e
      K cat i e t : PageProg β).eval V.base s =
    (K ((A ++ t :: B).map Stored.entry) A.length t.entry t.schema).eval V.base s := by
  have ht : t ∈ A ++ t :: B := by simp
  rw [eval_query_bind _ h.loadCatalog_run,
    eval_bind_ok _ ((eval_outcome _ _ _).trans (congrArg (·, s) hidx)),
    eval_bind_ok _ ((eval_outcome _ _ _).trans (congrArg (·, s) (at_entry A t B))),
    eval_query_bind _ (h.schemaOf_run ht)]

theorem not_opened_tx {β : Type} {name : String} {e : StoreError}
    (h : Readable V s avail cat L) (hidx : catIndex (L.map Stored.entry) name = .err e)
    (K : List CatEntry → Nat → PageProg β) :
    (do
      let cat ← loadCatalog
      let i ← catIndex cat name
      K cat i : PageProg β).eval V.base s = (.err e, s) := by
  rw [eval_query_bind _ h.loadCatalog_run,
    eval_bind_err _ ((eval_outcome _ _ _).trans (congrArg (·, s) hidx))]

/-! ## `put_schema` -/

/-- The chains of the list, one table picked out. -/
theorem tableObjs_pick (cats : Multiset Obj) : cats + tableObjs (A ++ t :: B) =
    .blob t.schemaPages t.schema.encode ::ₘ .index t.indexPages t.heads ::ₘ
      (Stored.rowObjs t.slots + (cats + (tableObjs A + tableObjs B))) := by
  rw [tableObjs_append, tableObjs_cons, Stored.objs]
  simp only [← Multiset.singleton_add]
  ac_rfl

/-- All rows of a table rewritten by `map`. -/
theorem rewriteAll_stage (h : Readable V s avail cat (A ++ t :: B)) (map : Row → Row)
    {rest : Multiset Obj} (hs : Stage V s₀ ps s avail (.index t.indexPages t.heads ::ₘ
      (Stored.rowObjs t.slots + rest))) :
    Finds V (rewriteRows map (t.live.map fun r => (r.1, r.2.1.headD 0))) s fun _ s' =>
      ∃ slots' qs avail', slots'.length = t.slots.length ∧
        (∀ k, (slots'.getD k none).map (·.2) = (t.slots.getD k none).map fun r => map r.2) ∧
        Stage V s₀ (ps ++ qs) s' avail'
          (.index t.indexPages (slots'.map Stored.headOf) ::ₘ
            (Stored.rowObjs slots' + rest)) := by
  have ht : t ∈ A ++ t :: B := by simp
  rw [live_heads]
  refine (rewriteRows_stage map (liveKs t.slots) (nodup_liveKs _) (fun k hk => ?_) hs).mono
    fun _ s' ⟨slots', qs, avail', hlen, hrows, hs'⟩ =>
      ⟨slots', qs, avail', hlen, fun k => ?_, hs'⟩
  · obtain ⟨r, hr⟩ := mem_liveKs.mp hk
    refine ⟨r, hr, h.small r.1 _ (Readable.row_mem ht ?_)⟩
    rw [← hr]
    exact getD_mem_slots (lt_of_slot hr)
  · rw [hrows k]
    cases hr : t.slots.getD k none with
    | none => rfl
    | some r => rw [Option.map_some, Option.map_some, if_pos (mem_liveKs.mpr ⟨r, hr⟩)]

/-- The end of `put_schema`: a new schema chain in place of the old one, and
the catalog. -/
theorem putSchema_end {bytes : List Byte} {slots : List (Option (List Nat × Row))} {sch : Table}
    {f : Row → Row} (hname : sch.name = t.schema.name)
    (hlen : slots.length = t.slots.length)
    (hrows : ∀ k, (slots.getD k none).map (·.2) =
      (t.slots.getD k none).map fun r => f r.2)
    (hcat : s₀.ctl.catalogHead = cat.headD 0)
    (h : Stage V s₀ ps s avail (.index t.indexPages (slots.map Stored.headOf) ::ₘ
      (Stored.rowObjs slots + (.blob t.schemaPages t.schema.encode ::ₘ
        (catalogBlob cat bytes + (tableObjs A + tableObjs B)))))) :
    Finds V (do
        let head ← writeChain sch.encode
        freeChain t.entry.schemaHead
        storeCatalog (((A ++ t :: B).map Stored.entry).set A.length
          { t.entry with schemaHead := head }) : PageProg Unit) s fun _ s' =>
      ∃ t', Leaves V s₀ s' (A ++ t' :: B) ∧ t'.state = t.state.edit sch f := by
  refine (writeChain_stage h sch.encode).bind fun head s₁ ⟨qs, avail₁, hhead, _, h₁⟩ => ?_
  subst hhead
  have h₁' := h₁.recast (show Obj.blob t.schemaPages t.schema.encode ::ₘ
      (catalogBlob cat bytes + (tableObjs A + (.blob qs sch.encode ::ₘ
        .index t.indexPages (slots.map Stored.headOf) ::ₘ Stored.rowObjs slots) +
          tableObjs B)) = _ by
    simp only [← Multiset.singleton_add]
    ac_rfl)
  refine (freeChain_stage h₁' fun _ => nofun).bind fun _ s₂ h₂ => ?_
  have hstate : Stored.state ⟨sch, qs, t.indexPages, slots⟩ = t.state.edit sch f :=
    state_rewritten rfl rfl hlen hrows
  have hentry : { t.entry with schemaHead := qs.headD 0 } =
      Stored.entry ⟨sch, qs, t.indexPages, slots⟩ := by
    have hcount := congrArg (fun u => u.rows.length) hstate
    simp only [TableState.edit, List.length_map, length_rows] at hcount
    rw [Stored.entry, Stored.entry, hname, hcount]
  rw [map_entry_set _ hentry]
  have h₂' := h₂.recast (show catalogBlob cat bytes +
      tableObjs (A ++ ⟨sch, qs, t.indexPages, slots⟩ :: B) = _ by
    rw [tableObjs_append, tableObjs_cons, Stored.objs, add_assoc (tableObjs A)]
    rfl)
  refine (storeCatalog_leaves h₂' ?_).mono fun _ s' hl => ⟨_, hl, hstate⟩
  exact h₂'.moves.catalog.trans hcat

/-- `put_schema` on a table that is there, with an edit that goes through. -/
theorem putSchema_stage (h : Readable V s avail cat (A ++ t :: B))
    (hidx : catIndex ((A ++ t :: B).map Stored.entry) t.schema.name = .ok A.length)
    {mutate : Table → Outcome StoreError Table} {sch : Table} (hmut : mutate t.schema = .ok sch)
    (hname : sch.name = t.schema.name) (rewrite : Option (Row → Row)) :
    Finds V (putSchema t.schema.name mutate rewrite) s fun _ s' =>
      ∃ t', Leaves V s s' (A ++ t' :: B) ∧ t'.state = t.state.edit sch (rewrite.getD id) := by
  have ht : t ∈ A ++ t :: B := by simp
  have hs := h.stage
  rw [tableObjs_pick, Multiset.cons_swap, ← Multiset.add_cons] at hs
  unfold Finds Ends
  rw [putSchema, opened_tx h hidx,
    eval_bind_ok _ ((eval_outcome _ _ _).trans (congrArg (·, s) hmut))]
  cases rewrite with
  | none => exact putSchema_end hname rfl (fun k => by simp) h.catalog hs
  | some map =>
      refine Ends.query (collect_run h ht) ?_
      refine (rewriteAll_stage h map hs).bind fun _ s₁ ⟨slots, qs, avail₁, hlen, hrows, h₁⟩ => ?_
      exact putSchema_end hname hlen hrows h.catalog h₁

/-! ## The schema edits -/

section Schema

variable {name : String} {e : StoreError} {body : PageProg Unit}
  {m : Except StoreError (Database RowId)}

/-- An operation that is one transaction from the start. -/
theorem edits_tx (h : (∃ e, body.eval V.base s = (.err e, s) ∧ m = .error e) ∨
      (∃ db, m = .ok db) ∧
        Finds V body s fun _ s' => ∃ L', Leaves V s s' L' ∧ m = .ok (dbOf L')) :
    Edits V s L (pure (.tx body)) fun _ => m := by
  refine Or.inr (Or.inr ⟨body, rfl, ?_⟩)
  rcases h with ⟨e, he, hm⟩ | ⟨hm, hfinds⟩
  · exact Or.inl ⟨e, he, fun _ => hm⟩
  · exact Or.inr ⟨fun _ => hm, hfinds⟩

theorem edits_err {q : PageQuery (Call Unit)} (hq : q.eval (s.read V.base) s.ctl = .err e)
    (hm : m = .error e) : Edits V s L q fun _ => m :=
  Or.inl ⟨e, hq, fun _ => hm⟩

/-- The rest of an operation once a query has been answered. -/
theorem Edits.query {α : Type} {q : PageQuery α} {f : α → PageQuery (Call Unit)} {a : α}
    (hq : q.eval (s.read V.base) s.ctl = .ok a) (h : Edits V s L (f a) fun _ => m) :
    Edits V s L (q >>= f) fun _ => m := by
  unfold Edits
  rw [Query.eval_bind_ok _ _ hq]
  exact h

/-- The rest of an operation once a check has been passed, or not. -/
theorem Edits.check {q : PageQuery Unit} {f : Unit → PageQuery (Call Unit)}
    {c : Except StoreError Unit} {k : Unit → Except StoreError (Database RowId)}
    (hq : q.eval (s.read V.base) s.ctl = Outcome.ofExcept c)
    (h : Edits V s L (f ()) fun _ => k ()) : Edits V s L (q >>= f) fun _ => c >>= k := by
  cases c with
  | error e =>
      refine edits_err ?_ rfl
      rw [Query.eval_bind, hq]
      rfl
  | ok u => exact Edits.query hq h

/-- `put_schema` where the table is there and the edit goes through. -/
theorem putSchema_ok (h : Readable V s avail cat (A ++ t :: B))
    (hc : (dbOf (A ++ t :: B)).Closed)
    (hidx : catIndex ((A ++ t :: B).map Stored.entry) t.schema.name = .ok A.length)
    {mutate : Table → Outcome StoreError Table} {sch : Table} (hmut : mutate t.schema = .ok sch)
    (hname : sch.name = t.schema.name) {rewrite : Option (Row → Row)}
    {f : TableState RowId → TableState RowId}
    (hf : f t.state = t.state.edit sch (rewrite.getD id))
    (hm : m = .ok ((dbOf (A ++ t :: B)).replace t.schema.name f)) :
    Finds V (putSchema t.schema.name mutate rewrite) s fun _ s' =>
      ∃ L', Leaves V s s' L' ∧ m = .ok (dbOf L') := by
  refine (putSchema_stage h hidx hmut hname rewrite).mono fun _ s' ⟨t', hl, hst⟩ => ?_
  refine ⟨A ++ t' :: B, hl, ?_⟩
  rw [hm, dbOf_replace hc (hf.trans hst.symm)]

/-- Where the edit is refused. -/
theorem putSchema_refused (h : Readable V s avail cat (A ++ t :: B))
    (hidx : catIndex ((A ++ t :: B).map Stored.entry) t.schema.name = .ok A.length)
    {mutate : Table → Outcome StoreError Table} (hmut : mutate t.schema = .err e)
    (rewrite : Option (Row → Row)) :
    (putSchema t.schema.name mutate rewrite).eval V.base s = (.err e, s) := by
  rw [putSchema, opened_tx h hidx,
    eval_bind_err _ ((eval_outcome _ _ _).trans (congrArg (·, s) hmut))]

/-- Where the table is not there. -/
theorem putSchema_missing (h : Readable V s avail cat L)
    (hidx : catIndex (L.map Stored.entry) name = .err e)
    (mutate : Table → Outcome StoreError Table) (rewrite : Option (Row → Row)) :
    (putSchema name mutate rewrite).eval V.base s = (.err e, s) := by
  rw [putSchema, not_opened_tx h hidx]

/-- The transaction of `add_column`, once a row count was no obstacle. -/
theorem addColumn_tx (h : Readable V s avail cat (A ++ t :: B))
    (hc : (dbOf (A ++ t :: B)).Closed)
    (hidx : catIndex ((A ++ t :: B).map Stored.entry) t.schema.name = .ok A.length)
    (hlook : (dbOf (A ++ t :: B)).lookup t.schema.name = .ok t.state) {col : Column}
    (hfree : ¬ (col.nullable = false ∧ t.state.rows ≠ [])) :
    Edits V s (A ++ t :: B)
      (pure (.tx (putSchema t.schema.name (pushColumn col) (some (· ++ [none])))))
      fun _ => (dbOf (A ++ t :: B)).addColumn t.schema.name col := by
  refine edits_tx ?_
  rw [Database.addColumn, hlook, Outcome.except_ok_bind, Database.refuse_neg hfree]
  by_cases hdup : (t.schema.column col.name).isSome
  · refine Or.inl ⟨_, putSchema_refused h hidx (if_pos hdup) _, Database.refuse_pos hdup⟩
  · refine Or.inr ⟨⟨_, Database.refuse_neg hdup⟩,
      putSchema_ok h hc hidx (if_neg hdup) ?_ ?_ (Database.refuse_neg hdup)⟩
    · rfl
    · rfl

theorem addColumn_edits (h : Readable V s avail cat L) (hc : (dbOf L).Closed) (table : String)
    (col : Column) :
    Edits V s L (addColumn table col) fun _ => (dbOf L).addColumn table col := by
  unfold addColumn
  rcases located L table with ⟨A, t, B, rfl, rfl, hidx, hlook⟩ | ⟨hidx, hlook, -⟩
  · cases hn : col.nullable with
    | true => exact addColumn_tx h hc hidx hlook (by simp [hn])
    | false =>
        simp only [Bool.not_false, if_true]
        refine Edits.query h.loadCatalog_run (Edits.query hidx (Edits.query (at_entry A t B) ?_))
        by_cases hrows : t.state.rows = []
        · have hcount : ¬ 0 < t.entry.rowCount := by
            rw [Stored.entry, ← length_rows, hrows]
            exact Nat.lt_irrefl 0
          rw [if_neg hcount]
          exact addColumn_tx h hc hidx hlook fun hr => hr.2 hrows
        · have hcount : 0 < t.entry.rowCount := by
            rw [Stored.entry, ← length_rows]
            exact List.length_pos_of_ne_nil hrows
          rw [if_pos hcount]
          refine edits_err rfl ?_
          rw [Database.addColumn, hlook, Outcome.except_ok_bind,
            Database.refuse_pos ⟨hn, hrows⟩]
  · have hmodel : (dbOf L).addColumn table col =
        .error (.notFound ("table '" ++ table ++ "'")) := by
      rw [Database.addColumn, hlook]
      rfl
    cases hn : col.nullable with
    | true => exact edits_tx (Or.inl ⟨_, putSchema_missing h hidx _ _, hmodel⟩)
    | false =>
        simp only [Bool.not_false, if_true]
        refine Edits.query h.loadCatalog_run (edits_err ?_ hmodel)
        rw [Query.eval_bind, Query.eval_lift, hidx]
        rfl

theorem opened_edits (h : Readable V s avail cat (A ++ t :: B))
    (hidx : catIndex ((A ++ t :: B).map Stored.entry) name = .ok A.length)
    {K : List CatEntry → Nat → CatEntry → Table → PageQuery (Call Unit)}
    (hK : Edits V s (A ++ t :: B)
      (K ((A ++ t :: B).map Stored.entry) A.length t.entry t.schema) fun _ => m) :
    Edits V s (A ++ t :: B) (do
      let cat ← loadCatalog
      let i ← catIndex cat name
      let e ← at! cat i
      let t ← schemaOf e
      K cat i e t) fun _ => m := by
  unfold Edits
  rw [opened h hidx K]
  exact hK

theorem lt_of_columnIndex {t : Table} {col : String} {i : Nat}
    (h : t.columnIndex col = some i) : i < t.columns.length := by
  obtain ⟨c, hc, -⟩ := Table.columnIndex_lt h
  exact (List.getElem?_eq_some_iff.mp hc).1

theorem removeColumn_eq {t : Table} {col : String} {i : Nat} (h : t.columnIndex col = some i) :
    removeColumn i col t = .ok { t with
      columns := t.columns.eraseIdx i
      refCols := t.refCols.filter (· ≠ col) } := by
  rw [removeColumn, remove, if_pos (lt_of_columnIndex h)]
  rfl

theorem dropColumn_edits (h : Readable V s avail cat L) (hc : (dbOf L).Closed)
    (table col : String) :
    Edits V s L (dropColumn table col) fun _ => (dbOf L).dropColumn table col := by
  unfold dropColumn Database.dropColumn
  rcases located L table with ⟨A, t, B, rfl, rfl, hidx, hlook⟩ | ⟨hidx, hlook, -⟩
  · refine opened_edits h hidx ?_
    rw [hlook, Outcome.except_ok_bind]
    cases hcol : t.schema.columnIndex col with
    | none => exact edits_err rfl (by rw [Database.position_none (t := t.state.schema) hcol]; rfl)
    | some idx =>
        rw [Database.position_some (t := t.state.schema) hcol, Outcome.except_ok_bind,
          orElse_some_bind]
        by_cases hfrom : t.schema.fks.any (·.fromCol == col) = true
        · rw [if_pos hfrom]
          exact edits_err rfl (Database.refuse_pos hfrom)
        · have hfrom' : ¬ t.state.schema.fks.any (·.fromCol == col) = true := hfrom
          rw [if_neg hfrom, Database.refuse_neg hfrom']
          refine Edits.check (checkNotTarget_run h t.schema.name col fun o _ => rfl) ?_
          refine edits_tx (Or.inr ⟨⟨_, rfl⟩,
            putSchema_ok h hc hidx (removeColumn_eq hcol) ?_ ?_ rfl⟩)
          · rfl
          · rfl
  · refine edits_err ?_ (by rw [hlook]; rfl)
    rw [not_opened h hidx]

theorem moveAt_eq {α : Type} {old new : Nat} {xs : List α} (hold : old < xs.length)
    (hnew : new < xs.length) : moveAt old new xs = .ok (Database.moved old new xs) := by
  rw [Database.moved_of_lt hold, moveAt, at!, List.getElem?_eq_getElem hold]
  show (remove xs old >>= fun v => _) = _
  rw [remove, if_pos hold, Outcome.ok_bind, if_pos]
  rw [List.length_eraseIdx_of_lt hold]
  omega

theorem map_cellAt_range (cells : Row) : (List.range cells.length).map (cellAt cells) = cells := by
  refine List.ext_getElem (by simp) fun k h1 h2 => ?_
  rw [List.getElem_map, List.getElem_range, cellAt, List.getD_eq_getElem _ _ h2]

/-- The closure of `move_column` moves one cell of the row. -/
theorem permute_eq {n old new : Nat} {cells : Row} (hlen : cells.length = n) :
    permute n (Database.moved old new (List.range n)) cells = Database.moved old new cells := by
  rw [permute, fit_eq hlen, Database.map_moved, ← hlen, map_cellAt_range]

theorem moveColumn_edits (h : Readable V s avail cat L) (hc : (dbOf L).Closed) (ha : Arity L)
    (table col : String) (newIndex : Nat) :
    Edits V s L (moveColumn table col newIndex) fun _ =>
      (dbOf L).moveColumn table col newIndex := by
  unfold moveColumn Database.moveColumn
  rcases located L table with ⟨A, t, B, rfl, rfl, hidx, hlook⟩ | ⟨hidx, hlook, -⟩
  · have ht : t ∈ A ++ t :: B := by simp
    refine opened_edits h hidx ?_
    rw [hlook, Outcome.except_ok_bind]
    cases hcol : t.schema.columnIndex col with
    | none =>
        exact edits_err rfl (by rw [Database.position_none (t := t.state.schema) hcol]; rfl)
    | some old =>
        rw [Database.position_some (t := t.state.schema) hcol, Outcome.except_ok_bind,
          orElse_some_bind]
        have hold := lt_of_columnIndex hcol
        by_cases hn : t.schema.columns.length ≤ newIndex
        · rw [if_pos hn]
          exact edits_err rfl (Database.refuse_pos hn)
        · have hn' : ¬ t.state.schema.columns.length ≤ newIndex := hn
          rw [if_neg hn, Database.refuse_neg hn']
          by_cases heq : newIndex = old
          · subst heq
            rw [if_pos rfl]
            refine Or.inr (Or.inl ⟨(), rfl, ?_⟩)
            refine congrArg Except.ok (dbOf_replace hc ?_).symm
            simp only [TableState.edit, Database.moved_self, Prod.mk.eta, List.map_id']
          · rw [if_neg heq, moveAt_eq (by simpa using hold) (by simpa using hn), ok_bind]
            have hmut : reorderColumns old newIndex t.schema = .ok { t.schema with
                columns := Database.moved old newIndex t.schema.columns } := by
              rw [reorderColumns, moveAt_eq hold (by omega)]
              rfl
            refine edits_tx (Or.inr ⟨⟨_, rfl⟩, putSchema_ok h hc hidx hmut ?_ ?_ rfl⟩)
            · rfl
            · unfold TableState.edit
              congr 1
              refine List.map_congr_left fun r hr => ?_
              rw [Option.getD_some, permute_eq (ha t ht r hr)]
  · refine edits_err ?_ (by rw [hlook]; rfl)
    rw [not_opened h hidx]

theorem edit_id (u : TableState RowId) (sch : Table) :
    u.edit sch id = { u with schema := sch } := by
  simp only [TableState.edit, id, Prod.mk.eta, List.map_id']

theorem setColumn_eq {t : Table} {col : String} {i : Nat} (h : t.columnIndex col = some i)
    (f : Column → Column) : setColumn f i t = .ok { t with
      columns := t.columns.modify (t.columns.findIdx (·.name == col)) f } := by
  obtain ⟨hlt, hidx⟩ := List.findIdx?_eq_some_iff_findIdx_eq.mp h
  rw [setColumn, if_pos hlt, hidx]

/-- The transaction of an edit of one column's attributes. -/
theorem setColumn_tx (h : Readable V s avail cat (A ++ t :: B))
    (hc : (dbOf (A ++ t :: B)).Closed)
    (hidx : catIndex ((A ++ t :: B).map Stored.entry) t.schema.name = .ok A.length)
    {col : String} {f : Column → Column} {mutate : Table → Outcome StoreError Table}
    (hmut : mutate t.schema = .ok { t.schema with
      columns := t.schema.columns.modify (t.schema.columns.findIdx (·.name == col)) f }) :
    Finds V (putSchema t.schema.name mutate none) s fun _ s' => ∃ L', Leaves V s s' L' ∧
      (.ok ((dbOf (A ++ t :: B)).setColumn t.schema.name col f) :
        Except StoreError (Database RowId)) = .ok (dbOf L') := by
  refine putSchema_ok h hc hidx hmut rfl ?_ rfl
  rw [Option.getD_none, edit_id]
  rfl

theorem values_eq {col : String} {i : Nat} (h : t.schema.columnIndex col = some i) :
    t.state.values col = t.state.rows.map fun r => cellAt r.2 i := by
  rw [TableState.values]
  exact List.map_congr_left fun r _ => Table.cell_eq h r.2

theorem setUnique_edits (h : Readable V s avail cat L) (hc : (dbOf L).Closed)
    (table col : String) (unique : Bool) :
    Edits V s L (setUnique table col unique) fun _ => (dbOf L).setUnique table col unique := by
  unfold setUnique Database.setUnique
  rcases located L table with ⟨A, t, B, rfl, rfl, hidx, hlook⟩ | ⟨hidx, hlook, -⟩
  · have ht : t ∈ A ++ t :: B := by simp
    refine opened_edits h hidx ?_
    rw [hlook, Outcome.except_ok_bind]
    cases hcol : t.schema.columnIndex col with
    | none =>
        exact edits_err rfl (by rw [Database.position_none (t := t.state.schema) hcol]; rfl)
    | some ci =>
        rw [Database.position_some (t := t.state.schema) hcol, Outcome.except_ok_bind,
          orElse_some_bind]
        have htx : ∀ u, Edits V s (A ++ t :: B)
            (pure (.tx (putSchema t.schema.name (setColumn (fun c => { c with unique := u }) ci)
              none))) fun _ => pure ((dbOf (A ++ t :: B)).setColumn t.schema.name col
                fun c => { c with unique := u }) :=
          fun u => edits_tx (Or.inr ⟨⟨_, rfl⟩, setColumn_tx h hc hidx (setColumn_eq hcol _)⟩)
        cases unique with
        | false => exact Edits.check (checkNotTarget_run h t.schema.name col fun o _ => rfl) (htx _)
        | true =>
            simp only [Bool.not_true, Bool.false_eq_true, if_false, if_true]
            refine Edits.query (allValuesIn_run h ht ci) ?_
            rw [← values_eq hcol]
            have hdup := hasDuplicate_eq [] List.nodup_nil (t.state.values col)
            by_cases hn : (t.state.values col).reduceOption.Nodup
            · have hfalse : ¬ hasDuplicate [] (t.state.values col) = true := by simp [hdup, hn]
              rw [if_neg hfalse, Database.refuse_neg (not_not.mpr hn)]
              exact htx _
            · have htrue : hasDuplicate [] (t.state.values col) = true := by simp [hdup, hn]
              rw [if_pos htrue, Database.refuse_pos hn]
              exact edits_err rfl rfl
  · refine edits_err ?_ (by rw [hlook]; rfl)
    rw [not_opened h hidx]

/-! ## Foreign keys -/

theorem columnOf_some {t : Table} {col shown : String} {c : Column} (h : t.column col = some c) :
    Database.columnOf t col shown = .ok c := by
  rw [Database.columnOf, h]

theorem columnOf_none {t : Table} {col shown : String} (h : t.column col = none) :
    Database.columnOf t col shown = .error (.notFound ("column '" ++ shown ++ "'")) := by
  rw [Database.columnOf, h]

theorem index_of_column {t : Table} {col : String} {c : Column} (h : t.column col = some c) :
    ∃ i, t.columnIndex col = some i ∧ i < t.columns.length := by
  rw [Table.column_eq] at h
  obtain ⟨i, hi, -⟩ := Option.bind_eq_some_iff.mp h
  exact ⟨i, hi, lt_of_columnIndex hi⟩

theorem pushFk_tx (h : Readable V s avail cat (A ++ t :: B))
    (hc : (dbOf (A ++ t :: B)).Closed)
    (hidx : catIndex ((A ++ t :: B).map Stored.entry) t.schema.name = .ok A.length)
    (fk : ForeignKey) :
    Finds V (putSchema t.schema.name (pushFk fk) none) s fun _ s' => ∃ L', Leaves V s s' L' ∧
      (.ok ((dbOf (A ++ t :: B)).replace t.schema.name fun t =>
        { t with schema := { t.schema with fks := t.schema.fks ++ [fk] } }) :
        Except StoreError (Database RowId)) = .ok (dbOf L') := by
  have hmut : pushFk fk t.schema = .ok { t.schema with fks := t.schema.fks ++ [fk] } := rfl
  refine putSchema_ok h hc hidx hmut rfl ?_ rfl
  rw [Option.getD_none, edit_id]
  rfl

/-- `add_fk` once both tables and both columns are at hand. -/
theorem addFk_found (h : Readable V s avail cat (A ++ t :: B))
    (hc : (dbOf (A ++ t :: B)).Closed)
    (hidx : catIndex ((A ++ t :: B).map Stored.entry) t.schema.name = .ok A.length)
    {u : Stored} (hu : u ∈ A ++ t :: B) {fromCol toTable toCol : String} {fc tc : Column}
    (hfc : t.schema.column fromCol = some fc) (htc : u.schema.column toCol = some tc) :
    Edits V s (A ++ t :: B) (if !tc.unique then
        Query.fail (.schemaRejected ("foreign-key target '" ++ toTable ++ "." ++
          toCol ++ "' must be UNIQUE"))
      else if fc.ty ≠ tc.ty then
        Query.fail (.schemaRejected "foreign-key column and target must share a type")
      else do
        let targets ← allValuesIn u.entry (← unwrap (u.schema.columnIndex toCol))
        let vals ← allValuesIn t.entry (← unwrap (t.schema.columnIndex fromCol))
        checkExisting toTable toCol targets vals
        let existing := t.schema.fks.map (·.name)
        let name ← freshFkName existing fromCol (existing.length + 1) 2
          (fromCol ++ "_fk")
        pure <| .tx (putSchema t.schema.name (pushFk ⟨name, fromCol, toTable, toCol⟩) none))
      fun _ => (do
        Database.refuse (tc.unique = false) (.schemaRejected ("foreign-key target '" ++ toTable ++
          "." ++ toCol ++ "' must be UNIQUE"))
        Database.refuse (fc.ty ≠ tc.ty)
          (.schemaRejected "foreign-key column and target must share a type")
        Database.refuseFirst (t.state.values fromCol).reduceOption fun v =>
          if some v ∈ u.state.values toCol then none
          else some (.schemaRejected ("existing value " ++ v.display ++ " has no match in " ++
            toTable ++ "." ++ toCol))
        let name := Database.freeFkName (t.state.schema.fks.map (·.name)) fromCol
        pure ((dbOf (A ++ t :: B)).replace t.schema.name fun t =>
          { t with schema := { t.schema with
            fks := t.schema.fks ++ [⟨name, fromCol, toTable, toCol⟩] } })) := by
  have ht : t ∈ A ++ t :: B := by simp
  by_cases hun : tc.unique = false
  · have hnot : (!tc.unique) = true := by simp [hun]
    rw [if_pos hnot]
    exact edits_err rfl (Database.refuse_pos hun)
  · have hnot : ¬ (!tc.unique) = true := by simpa using hun
    rw [if_neg hnot, Database.refuse_neg hun]
    by_cases hty : fc.ty ≠ tc.ty
    · rw [if_pos hty, Database.refuse_pos hty]
      exact edits_err rfl rfl
    · rw [if_neg hty, Database.refuse_neg hty]
      obtain ⟨fi, hfi, -⟩ := index_of_column hfc
      obtain ⟨ti, hti, -⟩ := index_of_column htc
      rw [hfi, hti, unwrap_some_bind]
      refine Edits.query (allValuesIn_run h hu ti) ?_
      rw [unwrap_some_bind]
      refine Edits.query (allValuesIn_run h ht fi) ?_
      rw [← values_eq hfi, ← values_eq hti, checkExisting_eq]
      refine Edits.check rfl ?_
      have hname := freshFkName_run (t.schema.fks.map (·.name)) fromCol
      simp only []
      rw [hname, ok_bind]
      refine edits_tx (Or.inr ⟨⟨_, rfl⟩, pushFk_tx h hc hidx _⟩)

theorem addFk_edits (h : Readable V s avail cat L) (hc : (dbOf L).Closed)
    (table fromCol toTable toCol : String) :
    Edits V s L (addFk table fromCol toTable toCol) fun _ =>
      (dbOf L).addFk table fromCol toTable toCol := by
  unfold addFk Database.addFk
  rcases located L table with ⟨A, t, B, rfl, rfl, hidx, hlook⟩ | ⟨hidx, hlook, -⟩
  · refine opened_edits h hidx ?_
    rw [hlook, Outcome.except_ok_bind]
    cases hfc : t.schema.column fromCol with
    | none => exact edits_err rfl (by rw [columnOf_none (t := t.state.schema) hfc]; rfl)
    | some fc =>
        rw [columnOf_some (t := t.state.schema) hfc, Outcome.except_ok_bind, orElse_some_bind]
        rcases located (A ++ t :: B) toTable with
          ⟨A', u, B', hL, hname, hidx', hlook'⟩ | ⟨hidx', hlook', -⟩
        · have hu : u ∈ A ++ t :: B := by simp [hL]
          have hat : at! ((A ++ t :: B).map Stored.entry) A'.length = .ok u.entry := by
            rw [hL]
            exact at_entry A' u B'
          rw [hidx', ok_bind, hat, ok_bind, hlook', Outcome.except_ok_bind]
          refine Edits.query (h.schemaOf_run hu) ?_
          cases htc : u.schema.column toCol with
          | none => exact edits_err rfl (by rw [columnOf_none (t := u.state.schema) htc]; rfl)
          | some tc =>
              rw [columnOf_some (t := u.state.schema) htc, Outcome.except_ok_bind,
                orElse_some_bind]
              exact addFk_found h hc hidx hu hfc htc
        · refine edits_err ?_ (by rw [hlook']; rfl)
          rw [hidx']
          rfl
  · refine edits_err ?_ (by rw [hlook]; rfl)
    rw [not_opened h hidx]

theorem dropFk_edits (h : Readable V s avail cat L) (hc : (dbOf L).Closed)
    (table fkName : String) :
    Edits V s L (dropFk table fkName) fun _ => (dbOf L).dropFk table fkName := by
  refine edits_tx ?_
  unfold Database.dropFk
  rcases located L table with ⟨A, t, B, rfl, rfl, hidx, hlook⟩ | ⟨hidx, hlook, -⟩
  · rw [hlook, Outcome.except_ok_bind]
    by_cases hall : ∀ fk ∈ t.schema.fks, fk.name ≠ fkName
    · have hmut : removeFk fkName t.schema =
          .err (.notFound ("foreign key '" ++ fkName ++ "'")) := by
        rw [removeFk]
        exact if_pos (List.length_filter_eq_length_iff.mpr fun fk hfk => by simpa using hall fk hfk)
      exact Or.inl ⟨_, putSchema_refused h hidx hmut _, Database.refuse_pos hall⟩
    · have hall' : ¬ ∀ fk ∈ t.state.schema.fks, fk.name ≠ fkName := hall
      have hmut : removeFk fkName t.schema =
          .ok { t.schema with fks := t.schema.fks.filter (·.name ≠ fkName) } := by
        rw [removeFk]
        refine if_neg fun heq => hall fun fk hfk => ?_
        simpa using List.length_filter_eq_length_iff.mp heq fk hfk
      rw [Database.refuse_neg hall']
      refine Or.inr ⟨⟨_, rfl⟩, putSchema_ok h hc hidx hmut rfl ?_ rfl⟩
      rw [Option.getD_none, edit_id]
      rfl
  · exact Or.inl ⟨_, putSchema_missing h hidx _ _, by rw [hlook]; rfl⟩

/-- The loop of `set_reference_columns`, over the columns still to come. -/
theorem checkRefCols_eq (t : Table) (cols : List String) : ∀ seen,
    checkRefCols t seen cols = Outcome.ofExcept (Database.refuseFirst
      (List.range' seen.length cols.length) (Database.refColError t (seen ++ cols))) := by
  induction cols with
  | nil => exact fun _ => rfl
  | cons c cols ih =>
      intro seen
      have hget : (seen ++ c :: cols)[seen.length]? = some c := by
        rw [List.getElem?_append_right (Nat.le_refl _), Nat.sub_self]
        rfl
      have hseen : (seen ++ c :: cols).take seen.length = seen := by simp
      have hrest := ih (seen ++ [c])
      rw [Database.refuseFirst_eq, List.length_append, List.length_singleton,
        ← List.append_cons] at hrest
      rw [checkRefCols, Database.refuseFirst_eq, List.length_cons, List.range'_succ,
        List.findSome?_cons, Database.refColError, hget, hseen]
      simp only []
      by_cases hcol : (t.column c).isNone = true
      · rw [if_pos hcol, if_pos hcol]
        rfl
      · rw [if_neg hcol, if_neg hcol]
        by_cases hdup : c ∈ seen
        · rw [if_pos (by simpa using hdup), if_pos hdup]
          rfl
        · rw [if_neg (by simpa using hdup), if_neg hdup]
          exact hrest

theorem setReferenceColumns_edits (h : Readable V s avail cat L) (hc : (dbOf L).Closed)
    (table : String) (cols : List String) :
    Edits V s L (setReferenceColumns table cols) fun _ =>
      (dbOf L).setReferenceColumns table cols := by
  refine edits_tx ?_
  unfold Database.setReferenceColumns
  rcases located L table with ⟨A, t, B, rfl, rfl, hidx, hlook⟩ | ⟨hidx, hlook, -⟩
  · rw [hlook, Outcome.except_ok_bind]
    have hcheck := checkRefCols_eq t.schema cols []
    rw [List.length_nil, List.nil_append, ← List.range_eq_range'] at hcheck
    have hmut : putRefCols cols t.schema = Outcome.ofExcept (Database.refuseFirst
        (List.range cols.length) (Database.refColError t.schema cols)) >>= fun _ =>
          .ok { t.schema with refCols := cols } := by
      rw [putRefCols, hcheck]
    cases hm : Database.refuseFirst (List.range cols.length)
        (Database.refColError t.schema cols) with
    | error e =>
        rw [hm] at hmut
        exact Or.inl ⟨e, putSchema_refused h hidx hmut _, by
          rw [Stored.state_schema, hm]
          rfl⟩
    | ok u =>
        rw [hm] at hmut
        rw [Stored.state_schema, hm, Outcome.except_ok_bind]
        refine Or.inr ⟨⟨_, rfl⟩, putSchema_ok h hc hidx hmut rfl ?_ rfl⟩
        rw [Option.getD_none, edit_id]
        rfl
  · exact Or.inl ⟨_, putSchema_missing h hidx _ _, by rw [hlook]; rfl⟩

theorem setDisplayWidth_edits (h : Readable V s avail cat L) (hc : (dbOf L).Closed)
    (table col : String) (width : Option UInt16) :
    Edits V s L (setDisplayWidth table col width) fun _ =>
      (dbOf L).setDisplayWidth table col width := by
  refine edits_tx ?_
  unfold Database.setDisplayWidth
  rcases located L table with ⟨A, t, B, rfl, rfl, hidx, hlook⟩ | ⟨hidx, hlook, -⟩
  · rw [hlook, Outcome.except_ok_bind]
    cases hcol : t.schema.columnIndex col with
    | none =>
        have hmut : putDisplayWidth col width t.schema =
            .err (.notFound ("column '" ++ col ++ "'")) := by
          rw [putDisplayWidth, hcol]
          rfl
        exact Or.inl ⟨_, putSchema_refused h hidx hmut _, by
          rw [Database.position_none (t := t.state.schema) hcol]
          rfl⟩
    | some ci =>
        have hmut : putDisplayWidth col width t.schema = .ok { t.schema with
            columns := t.schema.columns.modify (t.schema.columns.findIdx (·.name == col))
              fun c => { c with displayWidth := width } } := by
          rw [putDisplayWidth, hcol]
          exact setColumn_eq hcol _
        rw [Database.position_some (t := t.state.schema) hcol]
        exact Or.inr ⟨⟨_, rfl⟩, setColumn_tx h hc hidx hmut⟩
  · exact Or.inl ⟨_, putSchema_missing h hidx _ _, by rw [hlook]; rfl⟩

end Schema

end Store

end TablesOS
