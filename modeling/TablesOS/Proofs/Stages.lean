import TablesOS.Proofs.Representation

/-!
# How far a transaction body has come

Between two primitives a body is at a stage: so many pages touched, all of them
data pages, so many free, and the rest taken by chains, the new ones among
them on touched pages only. Each primitive of the store takes one stage to
the next or finds no free page; what an operation does to the catalog and to
the tables is then read off its text.
-/

namespace TablesOS

open Prog Codec Journal

namespace Store

open Pager

/-- The state `s` of a body that started in `s₀` and has touched `ps`. -/
structure Stage (V : Volume) (s₀ : Staged Superblock Page) (ps : List Nat)
    (s : Staged Superblock Page) (avail : List Nat) (objs : Multiset Obj) : Prop where
  holds : Holds V s avail objs
  moves : Moves s₀ s ps
  data : ∀ p ∈ ps, firstDataPage ≤ p
  bounded : ∀ qs bytes, Obj.blob qs bytes ∈ objs →
    bytes.length < 2 ^ 64 ∨ ∀ q ∈ qs, q ∈ ps

/-- The program ends well or finds no free page. -/
abbrev Finds {α : Type} (V : Volume) (p : PageProg α) (s : Staged Superblock Page)
    (P : α → Staged Superblock Page → Prop) : Prop :=
  p.Ends V.base .outOfSpace s P

section Primitives

variable {V : Volume} {s₀ s : Staged Superblock Page} {ps avail : List Nat}
  {objs : Multiset Obj}

namespace Stage

/-- One more step, on the pages `qs`. -/
theorem next (h : Stage V s₀ ps s avail objs) {s' : Staged Superblock Page}
    {qs avail' : List Nat} {objs' : Multiset Obj} (hh : Holds V s' avail' objs')
    (hm : Moves s s' qs) (hq : ∀ q ∈ qs, firstDataPage ≤ q)
    (hnew : ∀ rs bytes, Obj.blob rs bytes ∈ objs' → Obj.blob rs bytes ∈ objs ∨
      ∀ r ∈ rs, r ∈ qs) : Stage V s₀ (ps ++ qs) s' avail' objs' := by
  refine ⟨hh, h.moves.trans hm, fun p hp => ?_, fun rs bytes ho => ?_⟩
  · rcases List.mem_append.mp hp with hp | hp
    · exact h.data p hp
    · exact hq p hp
  · rcases hnew rs bytes ho with ho | hr
    · rcases h.bounded rs bytes ho with hlt | hall
      · exact Or.inl hlt
      · exact Or.inr fun q hq => List.mem_append_left _ (hall q hq)
    · exact Or.inr fun q hq => List.mem_append_right _ (hr q hq)

/-- The same pages, in another order or put to another use. -/
theorem recast (h : Stage V s₀ ps s avail objs) {objs' : Multiset Obj} (ho : objs' = objs) :
    Stage V s₀ ps s avail objs' :=
  ho ▸ h

end Stage

/-- `write_chain`, when there is room: a new blob on the first free pages. -/
theorem writeChain_room (h : Stage V s₀ ps s avail objs) {bytes : List Byte}
    (hn : nchunks bytes ≤ avail.length) :
    ∃ s', (writeChain bytes).eval V.base s = (.ok ((avail.take (nchunks bytes)).headD 0), s') ∧
      Stage V s₀ (ps ++ avail.take (nchunks bytes)) s' (avail.drop (nchunks bytes))
        (.blob (avail.take (nchunks bytes)) bytes ::ₘ objs) := by
  obtain ⟨s', he, hh, hm⟩ := writeChain_run h.holds hn
  refine ⟨s', he, h.next hh hm (fun q hq => ?_) fun rs b hb => ?_⟩
  · exact (h.holds.mem_range_of_avail (List.mem_of_mem_take hq)).1
  · rcases Multiset.mem_cons.mp hb with heq | hb
    · cases heq
      exact Or.inr fun r hr => hr
    · exact Or.inl hb

theorem writeChain_stage (h : Stage V s₀ ps s avail objs) (bytes : List Byte) :
    Finds V (writeChain bytes) s fun a s' => ∃ qs avail', a = qs.headD 0 ∧ qs ≠ [] ∧
      Stage V s₀ (ps ++ qs) s' avail' (.blob qs bytes ::ₘ objs) := by
  by_cases hn : nchunks bytes ≤ avail.length
  · obtain ⟨s', he, hs⟩ := writeChain_room h hn
    refine Or.inr ⟨_, s', he, _, _, rfl, ?_, hs⟩
    have hpos := nchunks_pos bytes
    refine List.ne_nil_of_length_pos ?_
    rw [List.length_take]
    omega
  · exact Or.inl (writeChain_full h.holds (by omega))

/-- `free_chain`: the pages of an object are free again. -/
theorem blob_ne_raw {qs : List Nat} {bytes : List Byte} (ps : List Nat) :
    Obj.blob qs bytes ≠ .raw ps := by
  intro h
  cases h

theorem index_ne_raw {qs heads : List Nat} (ps : List Nat) : Obj.index qs heads ≠ .raw ps := by
  intro h
  cases h

theorem freeChain_ok {o : Obj} (h : Stage V s₀ ps s avail (o ::ₘ objs))
    (hraw : ∀ ps, o ≠ .raw ps) :
    ∃ s', (freeChain ((objects.foot o).headD 0)).eval V.base s = (.ok (), s') ∧
      Stage V s₀ (ps ++ objects.foot o) s' ((objects.foot o).reverse ++ avail) objs := by
  obtain ⟨s', he, hh, hm⟩ := freeChain_run h.holds hraw
  refine ⟨s', he, h.next hh hm (fun q hq => ?_) fun rs b hb =>
    Or.inl (Multiset.mem_cons_of_mem hb)⟩
  exact (h.holds.mem_range_of_foot (Multiset.mem_cons_self _ _) hq).1

theorem freeChain_stage {o : Obj} (h : Stage V s₀ ps s avail (o ::ₘ objs))
    (hraw : ∀ ps, o ≠ .raw ps) :
    Finds V (freeChain ((objects.foot o).headD 0)) s fun _ s' =>
      Stage V s₀ (ps ++ objects.foot o) s' ((objects.foot o).reverse ++ avail) objs := by
  obtain ⟨s', he, hs⟩ := freeChain_ok h hraw
  exact Or.inr ⟨(), s', he, hs⟩

/-- `index_set`, at a slot of a table. -/
theorem indexSet_ok {ips slots : List Nat}
    (h : Stage V s₀ ps s avail (.index ips slots ::ₘ objs)) {k v : Nat} (hk : k < slots.length)
    (hv : v < 2 ^ 64) :
    ∃ s', (indexSet (rowIdAt ips k).indexPage (rowIdAt ips k).slot v).eval V.base s =
        (.ok (), s') ∧
      Stage V s₀ (ps ++ [(rowIdAt ips k).indexPage]) s' avail
        (.index ips (slots.set k v) ::ₘ objs) := by
  have ho := Multiset.mem_cons_self (Obj.index ips slots) objs
  have hlinked : Linked indexLayout (V.view s) ips slots := h.holds.owned.ok _ ho
  obtain ⟨s', he, hh, hm⟩ := indexSet_run h.holds hk hv
  refine ⟨s', he, h.next hh hm (fun q hq => ?_) fun rs b hb => ?_⟩
  · rw [List.mem_singleton.mp hq]
    exact (h.holds.mem_range_of_foot ho (getD_mem (hlinked.div_lt hk))).1
  · rcases Multiset.mem_cons.mp hb with heq | hb
    · cases heq
    · exact Or.inl (Multiset.mem_cons_of_mem hb)

theorem indexSet_stage {ips slots : List Nat}
    (h : Stage V s₀ ps s avail (.index ips slots ::ₘ objs)) {k v : Nat} (hk : k < slots.length)
    (hv : v < 2 ^ 64) :
    Finds V (indexSet (rowIdAt ips k).indexPage (rowIdAt ips k).slot v) s fun _ s' =>
      Stage V s₀ (ps ++ [(rowIdAt ips k).indexPage]) s' avail
        (.index ips (slots.set k v) ::ₘ objs) := by
  obtain ⟨s', he, hs⟩ := indexSet_ok h hk hv
  exact Or.inr ⟨(), s', he, hs⟩

theorem rowIdAt_append {ips : List Nat} {k : Nat} (hk : k < ips.length * idxCap)
    (qs : List Nat) : rowIdAt (ips ++ qs) k = rowIdAt ips k := by
  have hdiv : k / idxCap < ips.length := (Nat.div_lt_iff_lt_mul (by decide)).mpr hk
  unfold rowIdAt
  rw [List.getD_append _ _ _ _ hdiv]

/-- `index_append`: the new slot goes behind the last one, and the ids of the
old ones stay. -/
theorem indexAppend_stage {ips slots : List Nat}
    (h : Stage V s₀ ps s avail (.index ips slots ::ₘ objs)) {v : Nat} (hv : v < 2 ^ 64) :
    Finds V (indexAppend (ips.headD 0) v) s fun id s' => ∃ ips' avail' qs,
      id = rowIdAt ips' slots.length ∧ ips'.headD 0 = ips.headD 0 ∧
      (∀ k < slots.length, rowIdAt ips' k = rowIdAt ips k) ∧
      Stage V s₀ (ps ++ qs) s' avail' (.index ips' (slots ++ [v]) ::ₘ objs) := by
  have ho := Multiset.mem_cons_self (Obj.index ips slots) objs
  have hlinked : Linked indexLayout (V.view s) ips slots := h.holds.owned.ok _ ho
  have hlast : ips.getLastD 0 ∈ ips := Linked.getLastD_mem hlinked.ne_nil
  have hle : slots.length ≤ ips.length * idxCap := hlinked.length_le
  have hold : ∀ rs b x, Obj.blob rs b ∈ Obj.index x (slots ++ [v]) ::ₘ objs →
      Obj.blob rs b ∈ Obj.index ips slots ::ₘ objs := by
    intro rs b x hb
    rcases Multiset.mem_cons.mp hb with heq | hb
    · cases heq
    · exact Multiset.mem_cons_of_mem hb
  rcases Nat.lt_or_eq_of_le hle with hroom | hfull
  · obtain ⟨s', he, hh, hm⟩ := indexAppend_room h.holds hv hroom
    refine Or.inr ⟨_, s', he, ips, avail, _, rfl, rfl, fun _ _ => rfl,
      h.next hh hm (fun q hq => ?_) fun rs b hb => Or.inl (hold rs b ips hb)⟩
    rw [List.mem_singleton.mp hq]
    exact (h.holds.mem_range_of_foot ho hlast).1
  · cases avail with
    | nil => exact Or.inl ⟨s, indexAppend_none h.holds v hfull⟩
    | cons np avail =>
        obtain ⟨s', he, hh, hm⟩ := indexAppend_grow h.holds hv hfull
        refine Or.inr ⟨_, s', he, ips ++ [np], avail, _, rfl, ?_, fun k hk => ?_,
          h.next hh hm (fun q hq => ?_) fun rs b hb => Or.inl (hold rs b _ hb)⟩
        · cases ips with
          | nil => exact absurd rfl hlinked.ne_nil
          | cons p ips => rfl
        · exact rowIdAt_append (by omega) [np]
        · rcases List.mem_cons.mp hq with rfl | hq
          · exact (h.holds.mem_range_of_foot ho hlast).1
          · rw [List.mem_singleton.mp hq]
            exact (h.holds.mem_range_of_avail List.mem_cons_self).1

/-! ## The catalog -/

/-- The same start with another catalog head. -/
def withCatalog (s : Staged Superblock Page) (head : Nat) : Staged Superblock Page :=
  { s with ctl := { s.ctl with catalogHead := head } }

/-- The catalog chain, if there is one. -/
def catalogBlob (cat : List Nat) (bytes : List Byte) : Multiset Obj :=
  if cat = [] then 0 else {.blob cat bytes}

/-- Another catalog head is no change of the pages. -/
theorem Stage.withCatalog (h : Stage V s₀ ps s avail objs) (head : Nat) :
    Stage V (withCatalog s₀ head) ps (withCatalog s head) avail objs :=
  ⟨⟨h.holds.size, h.holds.low, h.holds.high, h.holds.free, h.holds.owned⟩,
    ⟨rfl, h.moves.generation, h.moves.staged⟩, h.data, h.bounded⟩

/-- `store_catalog`, when there is room for the new chain. -/
theorem storeCatalog_room {cat : List Nat} {bytes : List Byte}
    (h : Stage V s₀ ps s avail (catalogBlob cat bytes + objs))
    (hcat : s.ctl.catalogHead = cat.headD 0) {es : List CatEntry}
    (hn : nchunks (encodeCatalog es) ≤ avail.length) :
    ∃ s', (storeCatalog es).eval V.base s = (.ok (), s') ∧
      Stage V (withCatalog s₀ ((avail.take (nchunks (encodeCatalog es))).headD 0))
        (ps ++ (avail.take (nchunks (encodeCatalog es)) ++ cat)) s'
        (cat.reverse ++ avail.drop (nchunks (encodeCatalog es)))
        (.blob (avail.take (nchunks (encodeCatalog es))) (encodeCatalog es) ::ₘ objs) := by
  obtain ⟨s₁, he₁, h₁⟩ := writeChain_room h hn
  generalize avail.take (nchunks (encodeCatalog es)) = new at *
  have h₂ := h₁.withCatalog (new.headD 0)
  have heval : (storeCatalog es).eval V.base s =
      (if s.ctl.catalogHead ≠ 0 then freeChain s.ctl.catalogHead else pure () :
        PageProg Unit).eval V.base (withCatalog s₁ (new.headD 0)) := by
    unfold storeCatalog
    rw [eval_query_bind _ (eval_getSb _ _), eval_bind_ok _ he₁,
      eval_query_bind _ (eval_getSb _ _), eval_bind_ok _ (eval_setControl _ _ _)]
    rfl
  rw [heval]
  by_cases hnil : cat = []
  · subst hnil
    rw [if_neg (by rw [hcat]; simp)]
    refine ⟨_, rfl, ?_⟩
    rw [List.append_nil]
    refine h₂.recast ?_
    rw [catalogBlob, if_pos rfl, zero_add]
  · have hobjs : (.blob new (encodeCatalog es) ::ₘ (catalogBlob cat bytes + objs) : Multiset Obj) =
        .blob cat bytes ::ₘ .blob new (encodeCatalog es) ::ₘ objs := by
      rw [catalogBlob, if_neg hnil, Multiset.singleton_add, Multiset.cons_swap]
    rw [hobjs] at h₂
    have hhead : s.ctl.catalogHead ≠ 0 := by
      rw [hcat]
      refine ne_zero_of_data (h₂.holds.mem_range_of_foot (Multiset.mem_cons_self _ _) ?_).1
      cases cat with
      | nil => exact absurd rfl hnil
      | cons p cat => exact List.mem_cons_self
    rw [if_pos hhead, hcat]
    obtain ⟨s₃, he₃, hh, hm⟩ := freeChain_run h₂.holds fun _ => nofun
    refine ⟨s₃, he₃, ?_⟩
    rw [← List.append_assoc]
    refine h₂.next hh hm (fun q hq => ?_) fun rs b hb => Or.inl (Multiset.mem_cons_of_mem hb)
    exact (h₂.holds.mem_range_of_foot (Multiset.mem_cons_self _ _) hq).1

theorem storeCatalog_full (h : Stage V s₀ ps s avail objs) {es : List CatEntry}
    (hn : avail.length < nchunks (encodeCatalog es)) :
    ∃ s', (storeCatalog es).eval V.base s = (.err .outOfSpace, s') := by
  obtain ⟨s', he⟩ := writeChain_full h.holds hn
  refine ⟨s', ?_⟩
  unfold storeCatalog
  rw [eval_query_bind _ (eval_getSb _ _)]
  exact eval_bind_err _ he

/-- `store_catalog`: a new chain for the catalog, the old one freed. -/
theorem storeCatalog_stage {cat : List Nat} {bytes : List Byte}
    (h : Stage V s₀ ps s avail (catalogBlob cat bytes + objs))
    (hcat : s.ctl.catalogHead = cat.headD 0) (es : List CatEntry) :
    Finds V (storeCatalog es) s fun _ s' => ∃ cat' avail' qs, cat' ≠ [] ∧ qs ≠ [] ∧
      Stage V (withCatalog s₀ (cat'.headD 0)) (ps ++ qs) s' avail'
        (.blob cat' (encodeCatalog es) ::ₘ objs) := by
  by_cases hn : nchunks (encodeCatalog es) ≤ avail.length
  · obtain ⟨s', he, hs⟩ := storeCatalog_room h hcat hn
    have hne : avail.take (nchunks (encodeCatalog es)) ≠ [] := by
      have hpos := nchunks_pos (encodeCatalog es)
      refine List.ne_nil_of_length_pos ?_
      rw [List.length_take]
      omega
    refine Or.inr ⟨(), s', he, _, _, _, hne, fun hnil => hne ?_, hs⟩
    exact (List.append_eq_nil_iff.mp hnil).1
  · exact Or.inl (storeCatalog_full h (by omega))

end Primitives

end Store

end TablesOS
