import TablesOS.Proofs.Edits

/-!
# Whole tables: `create_table`, `drop_table`, `rename_column`

The three operations that touch more than the schema of one table. A new table
is two new chains, a dropped one all of its chains freed, and a column that is
renamed may be mentioned in any schema.
-/

namespace TablesOS

open Prog Codec Journal

namespace Store

open Pager

variable {V : Volume} {s₀ s : Staged Superblock Page} {ps avail cat : List Nat}
  {L A B : List Stored} {t : Stored}

/-! ## `create_table` -/

/-- An empty blob is an index chain without slots. -/
theorem index_of_empty {v : Nat → Page} {qs : List Nat}
    (h : Linked blobLayout v qs []) : Linked indexLayout v qs [] := by
  generalize hb : ([] : List Byte) = bytes at h
  cases h with
  | @last p xs _ hh =>
      subst hb
      exact .last (Nat.zero_le _) ⟨hh.1, hh.2.1, fun i hi => absurd hi (Nat.not_lt_zero i)⟩
  | more hlen hne _ _ =>
      obtain ⟨-, rfl⟩ := List.append_eq_nil_iff.mp hb.symm
      exact absurd rfl hne

theorem emptyIndex_stage {objs : Multiset Obj} {qs : List Nat}
    (h : Stage V s₀ ps s avail (.blob qs [] ::ₘ objs)) :
    Stage V s₀ ps s avail (.index qs [] ::ₘ objs) := by
  have ho : Linked blobLayout (V.view s) qs [] := h.holds.owned.ok _ (Multiset.mem_cons_self _ _)
  have hh := h.holds
  rw [← Multiset.singleton_add] at hh
  refine ⟨?_, h.moves, h.data, fun rs b hb => ?_⟩
  · rw [← Multiset.singleton_add]
    refine hh.recast (by simp) fun o hmem => ?_
    rw [Multiset.mem_singleton.mp hmem]
    exact index_of_empty ho
  · rcases Multiset.mem_cons.mp hb with heq | hb
    · cases heq
    · exact h.bounded rs b (Multiset.mem_cons_of_mem hb)

theorem any_name (L : List Stored) (name : String) :
    (L.map Stored.entry).any (·.name == name) = true ↔
      ∃ u ∈ dbOf L, u.schema.name = name := by
  simp [dbOf]

theorem createTable_edits (h : Readable V s avail cat L) (name : String) :
    Edits V s L (createTable name) fun _ => (dbOf L).createTable name := by
  unfold createTable Database.createTable
  by_cases hname : name = ""
  · rw [if_pos (by simpa using hname), Database.refuse_pos hname]
    exact edits_err rfl rfl
  · rw [if_neg (by simpa using hname), Database.refuse_neg hname]
    refine edits_tx ?_
    by_cases hdup : ∃ u ∈ dbOf L, u.schema.name = name
    · refine Or.inl ⟨_, ?_, Database.refuse_pos hdup⟩
      rw [eval_query_bind _ h.loadCatalog_run, if_pos ((any_name L name).mpr hdup)]
      rfl
    · rw [Database.refuse_neg hdup]
      refine Or.inr ⟨⟨_, rfl⟩, ?_⟩
      refine Ends.query h.loadCatalog_run ?_
      rw [if_neg ((any_name L name).not.mpr hdup)]
      refine (writeChain_stage h.stage _).bind fun _ s₁ ⟨qs, avail₁, hhead, _, h₁⟩ => ?_
      subst hhead
      refine (writeChain_stage h₁ []).bind fun _ s₂ ⟨is, avail₂, hhead, _, h₂⟩ => ?_
      subst hhead
      have hentry : (⟨name, qs.headD 0, is.headD 0, 0⟩ : CatEntry) =
          Stored.entry ⟨Table.new name, qs, is, []⟩ := rfl
      have hcat : L.map Stored.entry ++ [⟨name, qs.headD 0, is.headD 0, 0⟩] =
          (L ++ [Stored.mk (Table.new name) qs is []]).map Stored.entry := by
        rw [List.map_append, hentry]
        rfl
      rw [hcat]
      have h₃ := (emptyIndex_stage h₂).recast (show catalogBlob cat (encodeCatalog
          (L.map Stored.entry)) + tableObjs (L ++ [Stored.mk (Table.new name) qs is []]) = _ by
        rw [tableObjs_append, tableObjs_cons, tableObjs_nil, Stored.objs]
        simp only [← Multiset.singleton_add, catalogObjs, catalogBlob]
        show _ + (_ + (_ + (_ + 0) + 0)) = _
        simp only [add_zero]
        ac_rfl)
      refine (storeCatalog_leaves h₃ (h₃.moves.catalog.trans h.catalog)).mono
        fun _ s' hl => ⟨L ++ [Stored.mk (Table.new name) qs is []], hl, ?_⟩
      have hdb : dbOf (L ++ [Stored.mk (Table.new name) qs is []]) =
          dbOf L ++ [⟨Table.new name, [], []⟩] := List.map_append
      rw [hdb]
      rfl

/-! ## `drop_table` -/

theorem live_rows (t : Stored) : t.live.map (·.2) = t.slots.reduceOption := by
  have hloop : ∀ (f : Nat → RowId) (xs : List (Option (List Nat × Row))),
      ((List.range xs.length).filterMap fun k =>
        (xs.getD k none).map fun r => (f k, r)).map (·.2) = xs.reduceOption := by
    intro f xs
    induction xs generalizing f with
    | nil => rfl
    | cons x xs ih =>
        rw [List.length_cons, List.range_succ_eq_map, List.filterMap_cons, List.filterMap_map]
        have hrest := ih fun k => f (k + 1)
        cases x with
        | none =>
            rw [List.reduceOption_cons_of_none]
            exact hrest
        | some r =>
            rw [List.reduceOption_cons_of_some]
            exact congrArg (r :: ·) hrest
  exact hloop (rowIdAt t.indexPages) t.slots

/-- The row loop of `drop_table`. -/
theorem freeRows_ok {rest : Multiset Obj} : ∀ (rs : List (List Nat × Row)) {ps avail : List Nat}
    {s : Staged Superblock Page},
    Stage V s₀ ps s avail ((rs.map Stored.rowObj : List Obj) + rest) →
    ∃ s', (forM rs fun r => freeChain (r.1.headD 0) : PageProg Unit).eval V.base s = (.ok (), s') ∧
      Stage V s₀ (ps ++ rs.flatMap (·.1)) s' ((rs.flatMap (·.1)).reverse ++ avail) rest := by
  intro rs
  induction rs with
  | nil =>
      intro ps avail s h
      refine ⟨s, rfl, ?_⟩
      rw [List.flatMap_nil, List.append_nil]
      exact h.recast (by simp)
  | cons r rs ih =>
      intro ps avail s h
      rw [List.map_cons, ← Multiset.cons_coe, Multiset.cons_add] at h
      obtain ⟨s₁, he₁, h₁⟩ := freeChain_ok h fun _ => nofun
      obtain ⟨s₂, he₂, h₂⟩ := ih h₁
      refine ⟨s₂, ?_, ?_⟩
      · rw [List.forM_cons]
        exact (eval_bind_ok _ he₁).trans he₂
      · rw [List.flatMap_cons, List.reverse_append, List.append_assoc, ← List.append_assoc ps]
        exact h₂

/-- The pages of a table. -/
def Stored.pages (t : Stored) : List Nat :=
  t.slots.reduceOption.flatMap (·.1) ++ t.indexPages ++ t.schemaPages

/-- What `drop_table` does before it comes to the catalog: the table is gone
and its pages are free. -/
theorem dropTable_frees (h : Readable V s avail cat (A ++ t :: B)) :
    ∃ s₁, (do
        let rows ← indexCollect t.entry.dataHead
        forM rows fun r => freeChain r.2
        freeChain t.entry.dataHead
        freeChain t.entry.schemaHead
        storeCatalog (((A ++ t :: B).map Stored.entry).eraseIdx A.length) :
          PageProg Unit).eval V.base s =
        (storeCatalog ((A ++ B).map Stored.entry)).eval V.base s₁ ∧
      Stage V s t.pages s₁ (t.pages.reverse ++ avail)
        (catalogBlob cat (encodeCatalog ((A ++ t :: B).map Stored.entry)) +
          tableObjs (A ++ B)) := by
  have ht : t ∈ A ++ t :: B := by simp
  have h₀ := h.stage
  rw [tableObjs_pick] at h₀
  have h₀' := h₀.recast (show (t.slots.reduceOption.map Stored.rowObj : List Obj) +
      (.index t.indexPages t.heads ::ₘ .blob t.schemaPages t.schema.encode ::ₘ
        (catalogObjs cat (A ++ t :: B) + (tableObjs A + tableObjs B))) = _ by
    simp only [← Multiset.singleton_add, Stored.rowObjs]
    ac_rfl)
  obtain ⟨s₁, he₁, h₁⟩ := freeRows_ok t.slots.reduceOption h₀'
  obtain ⟨s₂, he₂, h₂⟩ := freeChain_ok h₁ index_ne_raw
  obtain ⟨s₃, he₃, h₃⟩ := freeChain_ok h₂ blob_ne_raw
  refine ⟨s₃, ?_, ?_⟩
  · rw [eval_query_bind _ (collect_run h ht), List.forM_map]
    have hrows : (forM t.live fun a => freeChain (a.2.1.headD 0) : PageProg Unit) =
        forM t.slots.reduceOption fun r => freeChain (r.1.headD 0) := by
      rw [← live_rows, List.forM_map]
    refine (eval_bind_ok _ (congrArg (Prog.eval V.base · s) hrows |>.trans he₁)).trans ?_
    refine (eval_bind_ok _ he₂).trans ((eval_bind_ok _ he₃).trans ?_)
    rw [map_entry_eraseIdx]
  · have hpages : t.schemaPages.reverse ++ (t.indexPages.reverse ++
        ((t.slots.reduceOption.flatMap (·.1)).reverse ++ avail)) = t.pages.reverse ++ avail := by
      simp only [Stored.pages, List.reverse_append, List.append_assoc]
    rw [List.nil_append, foot_index, foot_blob, hpages] at h₃
    refine h₃.recast ?_
    rw [tableObjs_append]
    rfl

theorem dbOf_remove (hc : (dbOf (A ++ t :: B)).Closed) :
    (dbOf (A ++ t :: B)).filter (·.schema.name ≠ t.schema.name) = dbOf (A ++ B) := by
  obtain ⟨hA, hB⟩ := names_apart hc
  have hkeep : ∀ M : List Stored, (∀ u ∈ M, u.schema.name ≠ t.schema.name) →
      (M.map Stored.state).filter (·.schema.name ≠ t.schema.name) = M.map Stored.state := by
    intro M hM
    refine List.filter_eq_self.mpr fun u hu => ?_
    obtain ⟨w, hw, rfl⟩ := List.mem_map.mp hu
    exact decide_eq_true (hM w hw)
  rw [dbOf, dbOf, List.map_append, List.map_cons, List.filter_append,
    List.filter_cons_of_neg (by simp), List.map_append,
    hkeep A hA, hkeep B hB]

theorem dropTable_edits (h : Readable V s avail cat L) (hc : (dbOf L).Closed) (name : String) :
    Edits V s L (dropTable name) fun _ => (dbOf L).dropTable name := by
  refine edits_tx ?_
  unfold Database.dropTable
  rcases located L name with ⟨A, t, B, rfl, rfl, hidx, hlook⟩ | ⟨hidx, hlook, -⟩
  · have hget : (A ++ t :: B)[A.length]? = some t := by simp
    have hcheck := checkNotReferenced_run h hc hget
    rw [hlook, Outcome.except_ok_bind]
    cases hm : Database.refuseFirst ((dbOf (A ++ t :: B)).filter
        (·.schema.name ≠ t.schema.name)) fun o =>
          if o.schema.fks.any (·.toTable == t.schema.name) then
            some (.schemaRejected ("table '" ++ t.schema.name ++
              "' is referenced by a foreign key in '" ++ o.schema.name ++ "'"))
          else none with
    | error e =>
        rw [hm] at hcheck
        refine Or.inl ⟨e, ?_, rfl⟩
        rw [eval_query_bind _ h.loadCatalog_run,
          eval_bind_ok _ ((eval_outcome _ _ _).trans (congrArg (·, s) hidx))]
        exact eval_query_bind_err _ hcheck
    | ok u =>
        rw [hm] at hcheck
        obtain ⟨s₁, he₁, h₁⟩ := dropTable_frees h
        refine Or.inr ⟨⟨_, rfl⟩, ?_⟩
        unfold Finds Ends
        rw [eval_query_bind _ h.loadCatalog_run,
          eval_bind_ok _ ((eval_outcome _ _ _).trans (congrArg (·, s) hidx)),
          eval_query_bind _ hcheck,
          eval_bind_ok _ ((eval_outcome _ _ _).trans (congrArg (·, s) (at_entry A t B))), he₁]
        refine (storeCatalog_leaves h₁ (h₁.moves.catalog.trans h.catalog)).mono
          fun _ s' hl => ⟨A ++ B, hl, ?_⟩
        rw [Outcome.except_ok_bind, dbOf_remove hc]
        rfl
  · refine Or.inl ⟨_, ?_, by rw [hlook]; rfl⟩
    rw [not_opened_tx h hidx]

/-! ## `rename_column` -/

/-- `schema_of` at any stage. -/
theorem schemaOf_stage {objs : Multiset Obj} (h : Stage V s₀ ps s avail objs)
    (ho : Obj.blob t.schemaPages t.schema.encode ∈ objs)
    (hsmall : t.schema.encode.length < 2 ^ 64) :
    (schemaOf t.entry).eval (s.read V.base) s.ctl = .ok t.schema := by
  have hread : (readChain t.entry.schemaHead).eval (s.read V.base) s.ctl =
      .ok t.schema.encode := readChain_run h.holds ho
  rw [schemaOf, Query.eval_bind_ok _ _ hread, Query.eval_lift, Table.decode_encode hsmall]
  rfl

/-- A schema that does not mention the column is left as it is. -/
theorem renameIn_of_not_mentions {table old new : String} {owns : Bool} {u : Table}
    (h : mentions table old owns u = false) : renameIn table old new owns u = u := by
  rw [mentions, targets, Bool.or_eq_false_iff, List.any_eq_false] at h
  obtain ⟨howns, htargets⟩ := h
  have hfk : ∀ fk ∈ u.fks, (owns && fk.fromCol == old) = false := by
    intro fk hfk
    cases owns with
    | false => rfl
    | true =>
        simp only [Bool.true_and, Bool.or_eq_false_iff, List.any_eq_false] at howns
        simpa using howns.2 fk hfk
  have hfks : (u.fks.map fun fk =>
      let fk := if owns && fk.fromCol == old then { fk with fromCol := new } else fk
      if fk.toTable == table && fk.toCol == old then { fk with toCol := new } else fk) =
        u.fks := by
    refine (List.map_congr_left fun fk hmem => ?_).trans (List.map_id u.fks)
    simp only [hfk fk hmem, Bool.false_eq_true, if_false]
    exact if_neg (htargets fk hmem)
  unfold renameIn
  rw [hfks]
  cases owns with
  | false => rfl
  | true =>
      simp only [Bool.true_and, Bool.or_eq_false_iff, List.any_eq_false,
        List.contains_eq_mem, decide_eq_false_iff_not] at howns
      have hcols : (u.columns.map fun c => if c.name = old then { c with name := new } else c) =
          u.columns := by
        refine (List.map_congr_left fun c hc => ?_).trans (List.map_id u.columns)
        exact if_neg (by simpa using howns.1.1 c hc)
      have hrefs : (u.refCols.map fun c => if c = old then new else c) = u.refCols := by
        refine (List.map_congr_left fun c hc => ?_).trans (List.map_id u.refCols)
        exact if_neg fun heq => howns.1.2 (by rw [← heq]; exact hc)
      simp only [if_true, hcols, hrefs]

/-- The table of the model with the column renamed. -/
abbrev renamed (table old new : String) (o : TableState RowId) : TableState RowId :=
  { o with schema := renameIn table old new (o.schema.name == table) o.schema }

/-- The loop of `rename_column`, over the tables `M`. -/
theorem renameAll_stage (table old new : String) {rest : Multiset Obj} :
    ∀ (M : List Stored) {ps avail : List Nat} {s : Staged Superblock Page},
      (∀ t ∈ M, t.schema.encode.length < 2 ^ 64) →
      Stage V s₀ ps s avail (tableObjs M + rest) →
      Finds V (renameAll table old new (M.map Stored.entry)) s fun es s' =>
        ∃ M' qs avail', es = M'.map Stored.entry ∧
          dbOf M' = (dbOf M).map (renamed table old new) ∧
          Stage V s₀ (ps ++ qs) s' avail' (tableObjs M' + rest) := by
  intro M
  induction M generalizing rest with
  | nil =>
      intro ps avail s _ h
      refine ends_pure ⟨[], [], avail, rfl, rfl, ?_⟩
      rw [List.append_nil]
      exact h
  | cons t M ih =>
      intro ps avail s hsmall h
      have hM : ∀ u ∈ M, u.schema.encode.length < 2 ^ 64 :=
        fun u hu => hsmall u (List.mem_cons_of_mem _ hu)
      rw [tableObjs_cons, Stored.objs, Multiset.cons_add, Multiset.cons_add, add_assoc] at h
      have hread := schemaOf_stage h (Multiset.mem_cons_self _ _) (hsmall t List.mem_cons_self)
      rw [List.map_cons, renameAll]
      refine Ends.query hread ?_
      -- the rest of the loop, once this table is the stored table `u`
      have hrest : ∀ (u : Stored) {qs avail₁ : List Nat} {s₁ : Staged Superblock Page},
          u.state = renamed table old new t.state →
          Stage V s₀ (ps ++ qs) s₁ avail₁ (u.objs + (tableObjs M + rest)) →
          Finds V (do
            let rest ← renameAll table old new (M.map Stored.entry)
            pure (u.entry :: rest)) s₁ fun es s' =>
            ∃ M' qs' avail', es = M'.map Stored.entry ∧
              dbOf M' = (dbOf (t :: M)).map (renamed table old new) ∧
              Stage V s₀ (ps ++ qs') s' avail' (tableObjs M' + rest) := by
        intro u qs avail₁ s₁ hu h₁
        rw [add_left_comm] at h₁
        refine (ih hM h₁).bind ?_
        rintro es s₂ ⟨M', qs', avail₂, hes, hdb, h₂⟩
        rw [List.append_assoc, add_left_comm, ← add_assoc, ← tableObjs_cons] at h₂
        refine ends_pure ⟨u :: M', _, avail₂, by rw [hes]; rfl, ?_, h₂⟩
        show u.state :: dbOf M' = renamed table old new t.state :: _
        rw [hu, hdb]
        rfl
      cases hmen : mentions table old (t.entry.name == table) t.schema with
      | false =>
          simp only [hmen, Bool.false_eq_true, if_false]
          have hsame := @renameIn_of_not_mentions _ _ new _ _ hmen
          refine @hrest t [] avail _ ?_ ?_
          · exact congrArg (TableState.mk · t.state.rows t.state.issued) hsame.symm
          · rw [List.append_nil]
            refine h.recast ?_
            rw [Stored.objs, Multiset.cons_add, Multiset.cons_add]
      | true =>
          simp only [hmen, if_true]
          refine (writeChain_stage h _).bind ?_
          rintro _ s₁ ⟨qs, avail₁, rfl, -, h₁⟩
          rw [Multiset.cons_swap] at h₁
          refine (freeChain_stage h₁ blob_ne_raw).bind fun _ s₂ h₂ => ?_
          rw [List.append_assoc] at h₂
          refine hrest { t with
            schema := renameIn table old new (t.entry.name == table) t.schema
            schemaPages := qs } rfl (h₂.recast ?_)
          rw [Stored.objs, Multiset.cons_add, Multiset.cons_add, Multiset.cons_add]
          rfl

theorem renameColumn_edits (h : Readable V s avail cat L) (hc : (dbOf L).Closed)
    (table old new : String) :
    Edits V s L (renameColumn table old new) fun _ => (dbOf L).renameColumn table old new := by
  unfold renameColumn Database.renameColumn
  by_cases hempty : new = ""
  · rw [if_pos (by simpa using hempty), Database.refuse_pos hempty]
    exact edits_err rfl rfl
  · rw [if_neg (by simpa using hempty), Database.refuse_neg hempty]
    by_cases heq : old = new
    · rw [if_pos heq, if_pos heq]
      exact Or.inr (Or.inl ⟨(), rfl, rfl⟩)
    · rw [if_neg heq, if_neg heq]
      refine edits_tx ?_
      rcases located L table with ⟨A, t, B, rfl, rfl, hidx, hlook⟩ | ⟨hidx, hlook, -⟩
      · have ht : t ∈ A ++ t :: B := by simp
        rw [hlook, Outcome.except_ok_bind]
        unfold Finds Ends
        rw [opened_tx h hidx]
        by_cases hold : (t.schema.column old).isNone = true
        · have hold' : (t.state.schema.column old).isNone = true := hold
          rw [if_pos hold, Database.refuse_pos hold']
          exact Or.inl ⟨_, rfl, rfl⟩
        · have hold' : ¬ (t.state.schema.column old).isNone = true := hold
          rw [if_neg hold, Database.refuse_neg hold']
          by_cases hnew : (t.schema.column new).isSome = true
          · have hnew' : (t.state.schema.column new).isSome = true := hnew
            rw [if_pos hnew, Database.refuse_pos hnew']
            exact Or.inl ⟨_, rfl, rfl⟩
          · have hnew' : ¬ (t.state.schema.column new).isSome = true := hnew
            rw [if_neg hnew, Database.refuse_neg hnew']
            refine Or.inr ⟨⟨_, rfl⟩, ?_⟩
            have hs := h.stage
            rw [add_comm] at hs
            refine (renameAll_stage t.schema.name old new _ (fun u hu =>
              h.small _ _ (Readable.schema_mem hu)) hs).bind
                fun es s₁ ⟨L', qs, avail₁, hes, hdb, h₁⟩ => ?_
            subst hes
            rw [add_comm] at h₁
            refine (storeCatalog_leaves h₁ (h₁.moves.catalog.trans h.catalog)).mono
              fun _ s' hl => ⟨L', hl, ?_⟩
            rw [hdb]
            rfl
      · refine Or.inl ⟨_, ?_, by rw [hlook]; rfl⟩
        rw [not_opened_tx h hidx]

end Store

end TablesOS
