import TablesOS.Proofs.TableEdits

/-!
# Single rows: `insert`, `update`, `delete`

A row is put behind the last slot of its table, exchanged in its slot, or taken
out of it. The slot keeps its place, and so does the id that names it.
-/

namespace TablesOS

open Prog Codec Journal

namespace Store

open Pager

variable {V : Volume} {s₀ s : Staged Superblock Page} {ps avail cat : List Nat}
  {L A B : List Stored} {t : Stored}

/-! ## What a slot does to the table -/

/-- A row behind the last slot. -/
theorem state_append {ips : List Nat} {r : List Nat × Row}
    (hold : ∀ k < t.slots.length, rowIdAt ips k = rowIdAt t.indexPages k) :
    Stored.state { t with indexPages := ips, slots := t.slots ++ [some r] } =
      { t.state with
        rows := t.state.rows ++ [(rowIdAt ips t.slots.length, r.2)]
        issued := t.state.issued ++ [rowIdAt ips t.slots.length] } := by
  have hrows : (Stored.state { t with indexPages := ips, slots := t.slots ++ [some r] }).rows =
      t.state.rows ++ [(rowIdAt ips t.slots.length, r.2)] := by
    rw [rows_eq, rows_eq, List.length_append, List.length_singleton, List.range_succ,
      List.filterMap_append]
    congr 1
    · refine List.filterMap_congr fun k hk => ?_
      have hlt := List.mem_range.mp hk
      simp only []
      rw [List.getD_append _ _ _ _ hlt, hold k hlt]
    · rw [List.filterMap_cons, List.getD_append_right _ _ _ _ (Nat.le_refl _), Nat.sub_self]
      rfl
  have hissued : (Stored.state { t with
      indexPages := ips, slots := t.slots ++ [some r] }).issued =
      t.state.issued ++ [rowIdAt ips t.slots.length] := by
    show (List.range (t.slots ++ [some r]).length).map (rowIdAt ips) = _
    rw [List.length_append, List.length_singleton, List.range_succ, List.map_append]
    exact congrArg (· ++ _) (List.map_congr_left fun k hk => hold k (List.mem_range.mp hk))
  exact congrArg₂ (TableState.mk t.schema) hrows hissued

/-- A slot written, seen slot by slot. -/
theorem state_slot {slots : List (Option (List Nat × Row))} (hlen : slots.length = t.slots.length)
    {rows : List (RowId × Row)}
    (hrows : rows = (List.range t.slots.length).filterMap fun k =>
      ((slots.getD k none).map (·.2)).map (Prod.mk (rowIdAt t.indexPages k))) :
    Stored.state { t with slots } = { t.state with rows } := by
  have hr : (Stored.state { t with slots }).rows = rows := by
    rw [rows_eq, hrows, hlen]
  have hi : (Stored.state { t with slots }).issued = t.state.issued := by
    show (List.range slots.length).map (rowIdAt t.indexPages) = _
    rw [hlen]
    rfl
  exact congrArg₂ (TableState.mk t.schema) hr hi

theorem state_cleared (h : Readable V s avail cat L) (ht : t ∈ L) {k : Nat}
    (hk : k < t.slots.length) :
    Stored.state { t with slots := t.slots.set k none } =
      { t.state with rows := t.state.rows.filter (·.1 ≠ rowIdAt t.indexPages k) } := by
  refine state_slot List.length_set ?_
  rw [rows_eq, List.filter_filterMap]
  refine List.filterMap_congr fun j hj => ?_
  have hlt := List.mem_range.mp hj
  by_cases heq : k = j
  · subst heq
    rw [getD_set_self hk]
    cases t.slots.getD k none <;> simp
  · have hne : rowIdAt t.indexPages j ≠ rowIdAt t.indexPages k :=
      fun hid => heq (rowIdAt_slot_inj h ht hk hlt hid.symm)
    rw [getD_set_ne heq]
    cases t.slots.getD j none <;> simp [hne]

theorem state_replaced (h : Readable V s avail cat L) (ht : t ∈ L) {k : Nat}
    {r r' : List Nat × Row} (hr : t.slots.getD k none = some r) :
    Stored.state { t with slots := t.slots.set k (some r') } =
      { t.state with rows := t.state.rows.map fun x =>
        if x.1 = rowIdAt t.indexPages k then (rowIdAt t.indexPages k, r'.2) else x } := by
  have hk := lt_of_slot hr
  refine state_slot List.length_set ?_
  rw [rows_eq, List.map_filterMap]
  refine List.filterMap_congr fun j hj => ?_
  have hlt := List.mem_range.mp hj
  by_cases heq : k = j
  · subst heq
    rw [getD_set_self hk, hr]
    simp
  · have hne : rowIdAt t.indexPages j ≠ rowIdAt t.indexPages k :=
      fun hid => heq (rowIdAt_slot_inj h ht hk hlt hid.symm)
    rw [getD_set_ne heq]
    cases t.slots.getD j none <;> simp [hne]

/-- One row fewer. -/
theorem count_cleared {k : Nat} {r : List Nat × Row} (hr : t.slots.getD k none = some r) :
    (Stored.state { t with slots := t.slots.set k none }).rows.length =
      t.entry.rowCount - 1 := by
  have hbefore := congrArg Multiset.card (rowObjs_split hr)
  have hafter := congrArg Multiset.card (rowObjs_set (lt_of_slot hr) none)
  rw [Multiset.card_cons, card_rowObjs, card_rowObjs] at hbefore
  rw [Multiset.card_add, card_rowObjs, card_rowObjs, card_rowObjs] at hafter
  rw [length_rows, length_live, Stored.entry, length_live, hbefore]
  show (t.slots.set k none).reduceOption.length = _
  rw [hafter, Nat.add_sub_cancel]
  exact Nat.zero_add _

/-- The entry of a table follows its number of rows. -/
theorem entry_counted {t' : Stored} {n : Nat} (hsch : t'.schema = t.schema)
    (hpages : t'.schemaPages = t.schemaPages)
    (hhead : t'.indexPages.headD 0 = t.indexPages.headD 0) (hn : t'.state.rows.length = n) :
    ⟨t.entry.name, t.entry.schemaHead, t.entry.dataHead, n⟩ = t'.entry := by
  rw [← hn, length_rows, Stored.entry, Stored.entry, hsch, hpages, hhead]

/-- The chains of a table with one more row. -/
theorem objs_append (t : Stored) (ips : List Nat) (r : List Nat × Row) :
    Stored.objs { t with indexPages := ips, slots := t.slots ++ [some r] } =
      .index ips (t.heads ++ [r.1.headD 0]) ::ₘ .blob r.1 (encodeRow r.2) ::ₘ
        .blob t.schemaPages t.schema.encode ::ₘ Stored.rowObjs t.slots := by
  have hheads : Stored.heads { t with indexPages := ips, slots := t.slots ++ [some r] } =
      t.heads ++ [r.1.headD 0] := List.map_append
  have hone : Stored.rowObjs [some r] = {.blob r.1 (encodeRow r.2)} := rfl
  rw [Stored.objs, hheads, rowObjs_append, hone]
  simp only [← Multiset.singleton_add]
  ac_rfl

/-- The chains of a table with one slot written. -/
theorem objs_written (t : Stored) {k : Nat} (hk : k < t.slots.length)
    (x : Option (List Nat × Row)) :
    Stored.objs { t with slots := t.slots.set k x } =
      .index t.indexPages (t.heads.set k (Stored.headOf x)) ::ₘ
        .blob t.schemaPages t.schema.encode ::ₘ
          (Stored.rowObjs [x] + Stored.rowObjs (t.slots.eraseIdx k)) := by
  have hheads : Stored.heads { t with slots := t.slots.set k x } =
      t.heads.set k (Stored.headOf x) := List.map_set
  rw [Stored.objs, hheads, rowObjs_set hk, Multiset.cons_swap]

/-- All chains of a readable state, one row of one table picked out. -/
theorem tableObjs_row {k : Nat} {r : List Nat × Row} (hr : t.slots.getD k none = some r)
    (cats : Multiset Obj) : cats + tableObjs (A ++ t :: B) =
      .blob r.1 (encodeRow r.2) ::ₘ .index t.indexPages t.heads ::ₘ
        .blob t.schemaPages t.schema.encode ::ₘ
          (Stored.rowObjs (t.slots.eraseIdx k) + (cats + (tableObjs A + tableObjs B))) := by
  rw [tableObjs_pick, rowObjs_split hr]
  simp only [← Multiset.singleton_add]
  ac_rfl

/-! ## `insert` -/

theorem insert_edits (h : Readable V s avail cat L) (hc : (dbOf L).Closed) (table : String)
    (cells : Row) :
    Edits V s L (insert table cells) fun id => (dbOf L).insert id table cells := by
  refine Or.inr (Or.inr ⟨_, rfl, ?_⟩)
  unfold Database.insert
  rcases located L table with ⟨A, t, B, rfl, rfl, hidx, hlook⟩ | ⟨hidx, hlook, -⟩
  · have hget : (A ++ t :: B)[A.length]? = some t := by simp
    have hcheck := validate_run h hc hget cells none
    unfold Finds Ends
    rw [opened_tx h hidx, hlook]
    simp only [Outcome.except_ok_bind]
    cases hv : (dbOf (A ++ t :: B)).validate t.state cells none with
    | error e =>
        rw [hv] at hcheck
        exact Or.inl ⟨e, eval_query_bind_err _ hcheck, fun _ => rfl⟩
    | ok u =>
        rw [hv] at hcheck
        refine Or.inr ⟨fun _ => ⟨_, rfl⟩, ?_⟩
        rw [eval_query_bind _ hcheck]
        have hs := h.stage
        rw [tableObjs_pick] at hs
        refine (writeChain_stage hs _).bind fun head s₁ ⟨qs, avail₁, hhead, _, h₁⟩ => ?_
        subst hhead
        have hlt := h₁.head_lt (Multiset.mem_cons_self _ _)
        have h₁' := h₁.recast (show Obj.index t.indexPages t.heads ::ₘ
            (.blob qs (encodeRow cells) ::ₘ .blob t.schemaPages t.schema.encode ::ₘ
              (Stored.rowObjs t.slots + (catalogObjs cat (A ++ t :: B) +
                (tableObjs A + tableObjs B)))) = _ by
          simp only [← Multiset.singleton_add]
          ac_rfl)
        refine (indexAppend_stage h₁' hlt).bind
          fun id s₂ ⟨ips, avail₂, rs, hid, hhead, hold, h₂⟩ => ?_
        rw [Stored.heads, List.length_map] at hid hold
        subst hid
        have hstate := state_append (t := t) (r := (qs, cells)) hold
        have hcount : (Stored.state { t with
            indexPages := ips, slots := t.slots ++ [some (qs, cells)] }).rows.length =
            t.entry.rowCount + 1 := by
          rw [hstate, List.length_append, length_rows]
          rfl
        rw [map_entry_set _ (@entry_counted t { t with
          indexPages := ips, slots := t.slots ++ [some (qs, cells)] } _ rfl rfl hhead hcount)]
        have h₂' := h₂.recast (show catalogBlob cat (encodeCatalog
            ((A ++ t :: B).map Stored.entry)) + tableObjs (A ++ { t with
              indexPages := ips, slots := t.slots ++ [some (qs, cells)] } :: B) = _ by
          rw [tableObjs_append, tableObjs_cons, objs_append]
          show catalogObjs cat (A ++ t :: B) + _ = _
          simp only [← Multiset.singleton_add]
          ac_rfl)
        refine (storeCatalog_leaves h₂' (h₂'.moves.catalog.trans h.catalog)).bind
          fun _ s' hl => ends_pure ⟨_, hl, ?_⟩
        refine congrArg Except.ok (dbOf_replace hc ?_).symm
        exact hstate.symm
  · refine Or.inl ⟨_, ?_, fun _ => by rw [hlook]; rfl⟩
    rw [not_opened_tx h hidx]

/-! ## `update` -/

/-- The commit of a body that leaves the catalog as it is. -/
theorem Stage.leaves (h : Readable V s avail cat (A ++ t :: B)) {t' : Stored}
    {s' : Staged Superblock Page} {avail' : List Nat} (hps : ps ≠ [])
    (hentry : t'.entry = t.entry) (hs : Stage V s ps s' avail'
      (catalogObjs cat (A ++ t :: B) + tableObjs (A ++ t' :: B))) :
    Leaves V s s' (A ++ t' :: B) := by
  have hcat : catalogObjs cat (A ++ t' :: B) = catalogObjs cat (A ++ t :: B) := by
    rw [catalogObjs, catalogObjs, List.map_append, List.map_cons, hentry, ← List.map_cons,
      ← List.map_append]
  have hctl : Store.withCatalog s (cat.headD 0) = s := by
    rw [Store.withCatalog, ← h.catalog]
  refine ⟨ps, avail', cat, hps, fun hnil => ?_, ?_⟩
  · exact absurd (h.empty hnil) (by simp)
  · rw [hctl, hcat]
    exact hs

/-- The writes of `update`, when there is room for the new chain. -/
theorem exchange_room (h : Readable V s avail cat (A ++ t :: B)) {k : Nat} {r : List Nat × Row}
    (hr : t.slots.getD k none = some r) {cells : Row}
    (hn : nchunks (encodeRow cells) ≤ avail.length) :
    ∃ qs s', (do
        let new ← writeChain (encodeRow cells)
        indexSet (rowIdAt t.indexPages k).indexPage (rowIdAt t.indexPages k).slot new
        freeChain (r.1.headD 0) : PageProg Unit).eval V.base s = (.ok (), s') ∧
      Leaves V s s' (A ++ { t with slots := t.slots.set k (some (qs, cells)) } :: B) := by
  have hk := lt_of_slot hr
  have ht : t ∈ A ++ t :: B := by simp
  have hs := h.stage
  rw [tableObjs_row hr] at hs
  obtain ⟨s₁, he₁, h₁⟩ := writeChain_room hs hn
  generalize avail.take (nchunks (encodeRow cells)) = qs at *
  have hlt := h₁.head_lt (Multiset.mem_cons_self _ _)
  have h₁' := h₁.recast (show Obj.index t.indexPages t.heads ::ₘ
      (.blob r.1 (encodeRow r.2) ::ₘ .blob qs (encodeRow cells) ::ₘ
        .blob t.schemaPages t.schema.encode ::ₘ
          (Stored.rowObjs (t.slots.eraseIdx k) + (catalogObjs cat (A ++ t :: B) +
            (tableObjs A + tableObjs B)))) = _ by
    simp only [← Multiset.singleton_add]
    ac_rfl)
  obtain ⟨s₂, he₂, h₂⟩ := indexSet_ok h₁' (by simpa [Stored.heads] using hk) hlt
  rw [Multiset.cons_swap] at h₂
  obtain ⟨s₃, he₃, h₃⟩ := freeChain_ok h₂ blob_ne_raw
  have hstate := @state_replaced _ _ _ _ _ _ h ht _ _ (qs, cells) hr
  refine ⟨qs, s₃, ?_, Stage.leaves h ?_ ?_ (h₃.recast ?_)⟩
  · exact (eval_bind_ok _ he₁).trans ((eval_bind_ok _ he₂).trans he₃)
  · simp
  · refine (@entry_counted t { t with
      slots := t.slots.set k (some (qs, cells)) } _ rfl rfl rfl rfl).symm.trans ?_
    rw [hstate, List.length_map, length_rows]
    rfl
  · rw [tableObjs_append, tableObjs_cons, objs_written t hk]
    have hone : Stored.rowObjs [some (qs, cells)] = {.blob qs (encodeRow cells)} := rfl
    rw [hone]
    simp only [← Multiset.singleton_add]
    ac_rfl

/-- The writes of `delete` up to the catalog. -/
theorem clear_ok (h : Readable V s avail cat (A ++ t :: B)) {k : Nat} {r : List Nat × Row}
    (hr : t.slots.getD k none = some r) :
    ∃ s₁ s₂, (freeChain (r.1.headD 0)).eval V.base s = (.ok (), s₁) ∧
      (indexSet (rowIdAt t.indexPages k).indexPage (rowIdAt t.indexPages k).slot 0).eval V.base s₁ =
        (.ok (), s₂) ∧
      Stage V s (r.1 ++ [(rowIdAt t.indexPages k).indexPage]) s₂ (r.1.reverse ++ avail)
        (catalogBlob cat (encodeCatalog ((A ++ t :: B).map Stored.entry)) +
          tableObjs (A ++ { t with slots := t.slots.set k none } :: B)) := by
  have hk := lt_of_slot hr
  have hs := h.stage
  rw [tableObjs_row hr] at hs
  obtain ⟨s₁, he₁, h₁⟩ := freeChain_ok hs fun _ => nofun
  obtain ⟨s₂, he₂, h₂⟩ := indexSet_ok h₁ (by simpa [Stored.heads] using hk)
    (Nat.two_pow_pos 64)
  refine ⟨s₁, s₂, he₁, he₂, h₂.recast ?_⟩
  rw [tableObjs_append, tableObjs_cons, objs_written t hk]
  have hone : Stored.rowObjs [none] = 0 := rfl
  rw [hone, zero_add]
  show catalogObjs cat (A ++ t :: B) + _ = _
  simp only [← Multiset.singleton_add]
  ac_rfl

theorem update_edits (h : Readable V s avail cat L) (hc : (dbOf L).Closed) (ha : Arity L)
    (table : String) (id : RowId) (cells : Row)
    (hid : ∀ t ∈ L, t.schema.name = table → id ∈ t.state.issued) :
    Edits V s L (update table id cells) fun _ => (dbOf L).update table id cells := by
  refine edits_tx ?_
  unfold Database.update
  rcases located L table with ⟨A, t, B, rfl, rfl, hidx, hlook⟩ | ⟨hidx, hlook, -⟩
  · have ht : t ∈ A ++ t :: B := by simp
    have hget : (A ++ t :: B)[A.length]? = some t := by simp
    have hcheck := validate_run h hc hget cells (some id)
    unfold Finds Ends
    rw [opened_tx h hidx, hlook, Outcome.except_ok_bind]
    cases hv : (dbOf (A ++ t :: B)).validate t.state cells (some id) with
    | error e =>
        rw [hv] at hcheck
        exact Or.inl ⟨e, eval_query_bind_err _ hcheck, rfl⟩
    | ok u =>
        rw [hv] at hcheck
        rw [eval_query_bind _ hcheck, Outcome.except_ok_bind]
        rcases rowAt h ha ht (hid t ht rfl) with ⟨k, r, hk, rfl, hr, hhead, hrow, hm⟩ | ⟨hhead, hm⟩
        · rw [eval_query_bind _ hhead, eval_query_bind _ hrow, hm, Outcome.except_ok_bind]
          have hguard := @restrict_run _ _ _ _ _ _ _ (rowIdAt t.indexPages k) r.2
            (fun tci key => cellAt cells tci == some key) _ h hc hget
            (fun col ci key hci => by rw [← Table.cell_eq hci cells])
          cases hg : (dbOf (A ++ t :: B)).restrict t.state (rowIdAt t.indexPages k) r.2
              fun col key => t.schema.cell cells col == some key with
          | error e =>
              rw [hg] at hguard
              refine Or.inl ⟨e, eval_query_bind_err _ hguard, ?_⟩
              rw [Stored.state_schema, hg]
              rfl
          | ok u =>
              rw [hg] at hguard
              rw [Stored.state_schema, hg]
              refine Or.inr ⟨⟨_, rfl⟩, ?_⟩
              rw [eval_query_bind _ hguard]
              by_cases hn : nchunks (encodeRow cells) ≤ avail.length
              · obtain ⟨qs, s', he, hl⟩ := exchange_room h hr hn
                have hstate := @state_replaced _ _ _ _ _ _ h ht _ _ (qs, cells) hr
                refine Or.inr ⟨(), s', he, _, hl, ?_⟩
                rw [Outcome.except_ok_bind]
                refine congrArg Except.ok (dbOf_replace hc ?_).symm
                exact hstate.symm
              · obtain ⟨s', he⟩ := writeChain_full h.holds (Nat.not_le.mp hn)
                exact Or.inl ⟨s', eval_bind_err _ he⟩
        · rw [hm]
          exact Or.inl ⟨_, eval_query_bind_err _ hhead, rfl⟩
  · refine Or.inl ⟨_, ?_, by rw [hlook]; rfl⟩
    rw [not_opened_tx h hidx]

/-! ## `delete` -/

theorem delete_edits (h : Readable V s avail cat L) (hc : (dbOf L).Closed) (ha : Arity L)
    (table : String) (id : RowId)
    (hid : ∀ t ∈ L, t.schema.name = table → id ∈ t.state.issued) :
    Edits V s L (delete table id) fun _ => (dbOf L).delete table id := by
  refine edits_tx ?_
  unfold Database.delete
  rcases located L table with ⟨A, t, B, rfl, rfl, hidx, hlook⟩ | ⟨hidx, hlook, -⟩
  · have ht : t ∈ A ++ t :: B := by simp
    have hget : (A ++ t :: B)[A.length]? = some t := by simp
    unfold Finds Ends
    rw [opened_tx h hidx, hlook, Outcome.except_ok_bind]
    rcases rowAt h ha ht (hid t ht rfl) with ⟨k, r, hk, rfl, hr, hhead, hrow, hm⟩ | ⟨hhead, hm⟩
    · rw [eval_query_bind _ hhead, eval_query_bind _ hrow, hm, Outcome.except_ok_bind]
      have hguard := @restrict_run _ _ _ _ _ _ _ (rowIdAt t.indexPages k) r.2
        (fun _ _ => false) (fun _ _ => false) h hc hget (fun _ _ _ _ => rfl)
      cases hg : (dbOf (A ++ t :: B)).restrict t.state (rowIdAt t.indexPages k) r.2
          fun _ _ => false with
      | error e =>
          rw [hg] at hguard
          exact Or.inl ⟨e, eval_query_bind_err _ hguard, rfl⟩
      | ok u =>
          rw [hg] at hguard
          refine Or.inr ⟨⟨_, rfl⟩, ?_⟩
          rw [eval_query_bind _ hguard]
          obtain ⟨s₁, s₂, he₁, he₂, h₂⟩ := clear_ok h hr
          rw [eval_bind_ok _ he₁, eval_bind_ok _ he₂]
          have hstate := state_cleared h ht hk
          have hcount : (Stored.state { t with slots := t.slots.set k none }).rows.length =
              t.entry.rowCount - 1 := count_cleared hr
          rw [map_entry_set _ (@entry_counted t { t with
            slots := t.slots.set k none } _ rfl rfl rfl hcount)]
          refine (storeCatalog_leaves h₂ (h₂.moves.catalog.trans h.catalog)).mono
            fun _ s' hl => ⟨_, hl, ?_⟩
          refine congrArg Except.ok (dbOf_replace hc ?_).symm
          exact hstate.symm
    · rw [hm]
      exact Or.inl ⟨_, eval_query_bind_err _ hhead, rfl⟩
  · refine Or.inl ⟨_, ?_, by rw [hlook]; rfl⟩
    rw [not_opened_tx h hidx]

end Store

end TablesOS
