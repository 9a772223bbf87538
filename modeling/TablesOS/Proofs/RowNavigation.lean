import TablesOS.Proofs.BrowserRows
import TablesOS.Proofs.Constraints

/-!
# The row view leads where the store says

The navigation list is built key by key and reference by reference, and what it
keeps of an entry is only a table, a column and a value. That is enough: a key
with a value becomes one entry and one without becomes none, a reference always
becomes one, and the browser that filters by the entry's column and value finds
the rows that the store found by the key.
-/

namespace TablesOS

open Store

namespace Asking

variable {led : Ledger RowId} {db : Database RowId} {α β : Type} {t : TableState RowId}

/-- A loop whose rounds each see something with a property. -/
theorem sees_mapM_exists {P : α → β → Prop} {xs : List α} {f : α → Asking Disk β}
    (h : ∀ x ∈ xs, ∃ y, Sees led db (f x) y ∧ P x y) :
    ∃ ys, Sees led db (xs.mapM f) ys ∧ List.Forall₂ P xs ys := by
  induction xs with
  | nil => exact ⟨[], sees_pure [], .nil⟩
  | cons x xs ih =>
      obtain ⟨y, hy, hp⟩ := h x List.mem_cons_self
      obtain ⟨ys, hys, hps⟩ := ih fun z hz => h z (List.mem_cons_of_mem _ hz)
      refine ⟨y :: ys, ?_, .cons hp hps⟩
      rw [List.mapM_cons]
      exact hy.bind (hys.bind (sees_pure _))

theorem sees_getRow (h : Mirrored led pg db) (ht : t ∈ db) {id : RowId} {row : Row}
    (hrow : (id, row) ∈ t.rows) : Sees led db (getRow t.schema.name id) (some row) := by
  have hstep : (db.step ⟨0, 0⟩ (.getRow t.schema.name id)).1 = .ok (.row row) := by
    show Reply.row <$> (db.lookup t.schema.name >>= fun u => Database.rowOf u id) = _
    rw [Database.lookup_of_mem h.intact.names ht]
    exact congrArg _ (Database.rowOf_of_mem (h.intact.tables t ht) hrow)
  refine (@sees_ask _ db (.getRow t.schema.name id) rfl (h.covers ht hrow)).bind ?_
  rw [hstep]
  exact sees_pure _

/-- The rows that the row refers to by a key. -/
theorem sees_followFk (h : Mirrored led pg db) (ht : t ∈ db) {id : RowId} {row : Row}
    (hrow : (id, row) ∈ t.rows) {fk : ForeignKey} (hfk : fk ∈ t.schema.fks)
    {u : TableState RowId} (hu : u ∈ db) (hto : fk.toTable = u.schema.name) :
    Sees led db (followFk t.schema.name id fk.name)
      (some (u.schema.name, (t.schema.cell row fk.fromCol).elim [] fun key =>
        u.rows.filter fun r => u.schema.cell r.2 fk.toCol = some key)) := by
  have hstep : (db.step ⟨0, 0⟩ (.followFk t.schema.name id fk.name)).1 = .ok (.followed
      u.schema.name ((t.schema.cell row fk.fromCol).elim [] fun key =>
        u.rows.filter fun r => u.schema.cell r.2 fk.toCol = some key)) := by
    show (fun r => Reply.followed r.1 r.2) <$> db.followFk t.schema.name id fk.name = _
    rw [Database.followFk_of_mem h.intact ht hfk hu hto hrow]
    rfl
  refine (@sees_ask _ db (.followFk t.schema.name id fk.name) rfl (h.covers ht hrow)).bind ?_
  rw [hstep]
  exact sees_pure _

theorem sees_referencingRows (h : Mirrored led pg db) (ht : t ∈ db) {id : RowId} {row : Row}
    (hrow : (id, row) ∈ t.rows) : Sees led db (referencingRows t.schema.name id)
      (some (db.flatMap fun o => o.schema.fks.flatMap (Database.referencingBy t row o))) := by
  have hstep : (db.step ⟨0, 0⟩ (.referencingRows t.schema.name id)).1 = .ok (.referencing
      (db.flatMap fun o => o.schema.fks.flatMap (Database.referencingBy t row o))) := by
    show Reply.referencing <$> db.referencingRows t.schema.name id = _
    rw [Database.referencingRows_of_mem h.intact ht hrow]
    rfl
  refine (@sees_ask _ db (.referencingRows t.schema.name id) rfl (h.covers ht hrow)).bind ?_
  rw [hstep]
  exact sees_pure _

end Asking

namespace Views

open Asking

variable {led : Ledger RowId} {pg : Pager Disk} {db : Database RowId} {t : TableState RowId}
  {id : RowId} {row : Row}

/-! ## The entries -/

/-- The outgoing keys of a row that have a value. -/
def valuedKeys (t : Table) (row : Row) : List ForeignKey :=
  t.fks.filter fun fk => t.cell row fk.fromCol ≠ none

/-- The entry of an outgoing key. -/
structure LeadsOut (t : Table) (row : Row) (fk : ForeignKey) (e : NavTarget) : Prop where
  table : e.2.1 = fk.toTable
  col : e.2.2.1 = fk.toCol
  val : t.cell row fk.fromCol = some e.2.2.2

/-- The entry of a row that refers to this one. -/
structure LeadsIn (db : Database RowId) (t : TableState RowId) (row : Row)
    (ref : String × String × RowId × Row) (e : NavTarget) : Prop where
  key : ∃ s ∈ db, ∃ fk ∈ s.schema.fks, fk.toTable = t.schema.name ∧ ref.1 = s.schema.name ∧
    ref.2.1 = fk.name ∧ t.schema.cell row fk.toCol = some e.2.2.2 ∧ e.2.1 = s.schema.name ∧
    e.2.2.1 = fk.fromCol

theorem sees_outgoing (h : Mirrored led pg db) (ht : t ∈ db) (hrow : (id, row) ∈ t.rows)
    {fk : ForeignKey} (hfk : fk ∈ t.schema.fks) :
    ∃ es, Sees led db (outgoing t.schema.name id t.schema row fk) es ∧
      List.Forall₂ (LeadsOut t.schema row)
        ([fk].filter fun fk => t.schema.cell row fk.fromCol ≠ none)
        es := by
  unfold outgoing
  have hcell : (t.schema.columnIndex fk.fromCol).bind (cellAt row) = t.schema.cell row fk.fromCol :=
    rfl
  rw [hcell]
  cases hv : t.schema.cell row fk.fromCol with
  | none => exact ⟨[], sees_pure [], by simp [hv]⟩
  | some v =>
      obtain ⟨-, -, -, u, hu, hun, -⟩ := (h.intact.keys t ht fk hfk).closed
      have hfollow := sees_followFk h ht hrow hfk hu hun.symm
      obtain ⟨⟨rid, trow⟩, hone⟩ := Database.follow_one h.intact ht hfk hu hun.symm hrow hv
      rw [hv, Option.elim_some, hone] at hfollow
      have hlabel : Sees led db (outgoingLabel t.schema.name id fk)
          ("→ " ++ u.schema.name ++ ": " ++ u.schema.referenceLabel trow) :=
        hfollow.bind ((sees_getTable h.intact hu).bind (sees_pure _))
      refine ⟨_, hlabel.bind (sees_pure _), ?_⟩
      have hkeep : [fk].filter (fun fk => decide (t.schema.cell row fk.fromCol ≠ none)) = [fk] := by
        simp [hv]
      rw [hkeep]
      exact .cons ⟨rfl, rfl, hv⟩ .nil

/-- Entry lists put together. -/
theorem forall₂_flatten {α β : Type} {P : α → β → Prop} {p : α → Bool} {xs : List α}
    {ys : List (List β)} (h : List.Forall₂ (fun x y => List.Forall₂ P ([x].filter p) y) xs ys) :
    List.Forall₂ P (xs.filter p) ys.flatten := by
  induction h with
  | nil => exact .nil
  | @cons x y xs ys hxy _ ih =>
      have happ : List.Forall₂ P ([x].filter p ++ xs.filter p) (y ++ ys.flatten) :=
        List.rel_append hxy ih
      rwa [← List.filter_append] at happ

theorem sees_outgoings (h : Mirrored led pg db) (ht : t ∈ db) (hrow : (id, row) ∈ t.rows) :
    ∃ es, Sees led db (outgoings t.schema.name id) es ∧
      List.Forall₂ (LeadsOut t.schema row) (valuedKeys t.schema row) es := by
  obtain ⟨ess, hsees, hall⟩ := sees_mapM_exists fun fk hfk => sees_outgoing h ht hrow hfk
  refine ⟨ess.flatten, ?_, forall₂_flatten hall⟩
  refine (sees_getTable h.intact ht).bind ((sees_getRow h ht hrow).bind ?_)
  exact hsees.bind (sees_pure _)

theorem sees_incoming (h : Mirrored led pg db) (ht : t ∈ db) (hrow : (id, row) ∈ t.rows)
    {ref : String × String × RowId × Row}
    (href : ref ∈ db.flatMap fun o => o.schema.fks.flatMap (Database.referencingBy t row o)) :
    ∃ es, Sees led db (incoming t.schema.name id ref) es ∧
      List.Forall₂ (LeadsIn db t row) ([ref].filter fun _ => true) es := by
  obtain ⟨s, hs, fk, hfk, hto, key, hkey, r, hr, hcell, rfl⟩ := Database.mem_referencing.mp href
  have hfind := Database.find_fk (h.intact.tables s hs) hfk
  have hcol : (t.schema.columnIndex fk.toCol).bind (cellAt row) = some key := hkey
  refine ⟨[("← " ++ s.schema.name ++ ": " ++ s.schema.referenceLabel r.2, s.schema.name,
    fk.fromCol, key)], ?_, .cons ⟨s, hs, fk, hfk, hto, rfl, rfl, hkey, rfl, rfl⟩ .nil⟩
  refine (sees_getTable h.intact hs).bind ((sees_getTable h.intact ht).bind ?_)
  simp only [hfind]
  refine (sees_getRow h ht hrow).bind ((sees_getTable h.intact ht).bind ?_)
  rw [Option.bind_some, hcol]
  exact sees_pure _

theorem sees_navTargets (h : Mirrored led pg db) (ht : t ∈ db) (hrow : (id, row) ∈ t.rows) :
    ∃ out inc, Sees led db (navTargets t.schema.name id) (out ++ inc) ∧
      List.Forall₂ (LeadsOut t.schema row) (valuedKeys t.schema row) out ∧
      List.Forall₂ (LeadsIn db t row)
        (db.flatMap fun o => o.schema.fks.flatMap (Database.referencingBy t row o)) inc := by
  obtain ⟨out, hout, hall⟩ := sees_outgoings h ht hrow
  obtain ⟨ess, hsees, hin⟩ := sees_mapM_exists fun ref href => sees_incoming h ht hrow href
  have hin := forall₂_flatten hin
  rw [List.filter_true] at hin
  refine ⟨out, ess.flatten, ?_, hall, hin⟩
  refine hout.bind ((sees_referencingRows h ht hrow).bind ?_)
  exact hsees.bind (sees_pure _)

/-! ## The browser behind an entry -/

/-- With the cursor on entry `sel`, Enter opens a browser on `table` whose rows are
`rs`. -/
def Opens (pg : Pager Disk) (table : String) (id : RowId) (sel : Nat) (target : String)
    (rs : List (RowId × Row)) : Prop :=
  ∃ v b pg₁ pg₂, RowView.dispatch ⟨table, id, sel⟩ .enter pg = .ok ((v, .push b), pg₁) ∧
    b.table = target ∧ rows b.table b.filter b.sort pg₁ = .ok (rs, pg₂)

/-- The browser of an entry on a column that is there. -/
theorem opens_of_nav (h : Mirrored led pg db) {navs : List NavTarget}
    (hnavs : Sees led db (navTargets t.schema.name id) navs) {sel : Nat} {e : NavTarget}
    (he : navs[sel]? = some e) {u : TableState RowId} (hu : u ∈ db) (htable : e.2.1 = u.schema.name)
    (hcol : e.2.2.1 ∈ u.schema.names) : Opens pg t.schema.name id sel u.schema.name
      (u.rows.filter fun r => u.schema.cell r.2 e.2.2.1 = some e.2.2.2) := by
  obtain ⟨label, tbl, colname, val⟩ := e
  have hlt := (List.getElem?_eq_some_iff.mp he).1
  have hsel : min sel (navs.length - 1) = sel := Nat.min_eq_left (by omega)
  have hdisp : Sees led db (RowView.dispatch ⟨t.schema.name, id, sel⟩ .enter)
      (⟨t.schema.name, id, sel⟩, .push ⟨tbl, 0, 0, 0, some (colname, val), none⟩) := by
    refine hnavs.bind ?_
    simp only [hsel, he]
    exact sees_pure _
  obtain ⟨pg₁, hrun₁, h₁⟩ := hdisp pg h
  have hfilter : ∀ f, some (colname, val) = some f → f.1 ∈ u.schema.names := by
    rintro f ⟨⟩
    exact hcol
  obtain ⟨pg₂, hrun₂, -⟩ := sees_rows h₁.intact hu hfilter none pg₁ h₁
  refine ⟨_, _, pg₁, pg₂, hrun₁, htable, ?_⟩
  have htable : tbl = u.schema.name := htable
  rw [htable, hrun₂]
  have hpass : passes u.schema (some (colname, val)) =
      fun r => decide (u.schema.cell r.2 colname = some val) := by
    funext r
    rw [passes]
    exact Bool.beq_eq_decide_eq _ _
  rw [shownRows, Option.elim_none, hpass]

/-! ## The rows that refer by one key -/

/-- What one element of a list contributes, told by a key of its own. -/
theorem filter_flatMap_of_key {α β κ : Type} [DecidableEq κ] {f : α → List β} {key : α → κ}
    {tag : β → κ} {l : List α} (hn : (l.map key).Nodup)
    (htag : ∀ a ∈ l, ∀ b ∈ f a, tag b = key a) {a : α} (ha : a ∈ l) :
    (l.flatMap f).filter (fun b => tag b = key a) = f a := by
  obtain ⟨A, B, rfl⟩ := List.append_of_mem ha
  have hother : ∀ c ∈ A ++ B, key c ≠ key a := by
    rw [List.map_append, List.map_cons, List.nodup_middle, List.nodup_cons, ← List.map_append] at hn
    exact fun c hc heq => hn.1 (List.mem_map.mpr ⟨c, hc, heq⟩)
  have hnil : ∀ C, C ⊆ A ++ B → (C.flatMap f).filter (fun b => tag b = key a) = [] := by
    intro C hC
    rw [List.filter_eq_nil_iff]
    intro b hb hkey
    obtain ⟨c, hc, hbc⟩ := List.mem_flatMap.mp hb
    have hcl : c ∈ A ++ a :: B := by
      rcases List.mem_append.mp (hC hc) with h | h
      · exact List.mem_append_left _ h
      · exact List.mem_append_right _ (List.mem_cons_of_mem _ h)
    rw [htag c hcl b hbc] at hkey
    exact hother c (hC hc) (of_decide_eq_true hkey)
  rw [List.flatMap_append, List.flatMap_cons, List.filter_append, List.filter_append,
    hnil A (List.subset_append_left _ _), hnil B (List.subset_append_right _ _), List.nil_append,
    List.append_nil, List.filter_eq_self]
  exact fun b hb => decide_eq_true (htag a ha b hb)

/-- Of the rows that refer to `row`, those that do so by one key of one table. -/
theorem referencing_by_key (hi : db.Intact) {s : TableState RowId} (hs : s ∈ db) {fk : ForeignKey}
    (hfk : fk ∈ s.schema.fks) (hto : fk.toTable = t.schema.name) {key : Value}
    (hkey : t.schema.cell row fk.toCol = some key) :
    ((db.flatMap fun o => o.schema.fks.flatMap (Database.referencingBy t row o)).filter fun x =>
      x.1 = s.schema.name ∧ x.2.1 = fk.name).map (fun x => (x.2.2.1, x.2.2.2)) =
        s.rows.filter fun r => s.schema.cell r.2 fk.fromCol = some key := by
  have htags : ∀ o : TableState RowId, ∀ g : ForeignKey, ∀ x ∈ Database.referencingBy t row o g,
      x.1 = o.schema.name ∧ x.2.1 = g.name := by
    intro o g x hx
    unfold Database.referencingBy at hx
    split at hx
    · cases hx
    · split at hx
      · cases hx
      · obtain ⟨r, -, rfl⟩ := List.mem_map.mp hx
        exact ⟨rfl, rfl⟩
  have hsplit : (fun x : String × String × RowId × Row =>
      decide (x.1 = s.schema.name ∧ x.2.1 = fk.name)) =
        fun x => decide (x.2.1 = fk.name) && decide (x.1 = s.schema.name) := by
    funext x
    rw [Bool.decide_and, Bool.and_comm]
  have hown : Database.referencingBy t row s fk =
      (s.rows.filter fun r => s.schema.cell r.2 fk.fromCol = some key).map fun r =>
        (s.schema.name, fk.name, r.1, r.2) := by
    rw [Database.referencingBy, if_neg (not_not.mpr hto), hkey]
  rw [hsplit, ← List.filter_filter, filter_flatMap_of_key hi.names (fun o _ x hx => ?_) hs,
    filter_flatMap_of_key (hi.tables s hs).fkNames (fun g _ x hx => (htags s g x hx).2) hfk, hown,
    List.map_map]
  · exact (List.map_congr_left fun _ _ => rfl).trans (List.map_id _)
  · obtain ⟨g, -, hg⟩ := List.mem_flatMap.mp hx
    exact (htags o g x hg).1

/-- The navigation list has an entry for each outgoing key with a value and one for
each row that refers to this one by a key, in this order, and the browser behind
an entry shows the rows that the store finds by that key. -/
theorem row_navigation {d : Disk} (hq : d.Quiet) (h : Reachable d led pg) :
    ∃ db, Mirrored led pg db ∧ ∀ t ∈ db, ∀ id row, (id, row) ∈ t.rows →
      ∃ refs navs pg', (run (.referencingRows t.schema.name id) pg).1 = .ok (.referencing refs) ∧
        navTargets t.schema.name id pg = .ok (navs, pg') ∧
        navs.length = (valuedKeys t.schema row).length + refs.length ∧
        (∀ j fk, (valuedKeys t.schema row)[j]? = some fk → ∃ rs,
          (run (.followFk t.schema.name id fk.name) pg).1 = .ok (.followed fk.toTable rs) ∧
            Opens pg t.schema.name id j fk.toTable rs) ∧
        ∀ j ref, refs[j]? = some ref → Opens pg t.schema.name id
          ((valuedKeys t.schema row).length + j) ref.1
            ((refs.filter fun x => x.1 = ref.1 ∧ x.2.1 = ref.2.1).map fun x =>
              (x.2.2.1, x.2.2.2)) := by
  obtain ⟨db, hdb⟩ := h.mirrored hq
  refine ⟨db, hdb, fun t ht id row hrow => ?_⟩
  have hi := hdb.intact
  obtain ⟨out, inc, hsees, hout, hinc⟩ := sees_navTargets hdb ht hrow
  obtain ⟨pg', hrun, -⟩ := hsees pg hdb
  refine ⟨db.flatMap fun o => o.schema.fks.flatMap (Database.referencingBy t row o), out ++ inc,
    pg', ?_, hrun, ?_, fun j fk hj => ?_, fun j ref hj => ?_⟩
  · rw [@Mirrored.reads _ _ _ hdb (.referencingRows t.schema.name id) rfl
      (hdb.covers ht hrow) ⟨0, 0⟩]
    show Outcome.ofExcept (Reply.referencing <$> db.referencingRows t.schema.name id) = _
    rw [Database.referencingRows_of_mem hi ht hrow]
    rfl
  · rw [List.length_append, hout.length_eq, hinc.length_eq]
  · -- an outgoing key: the entry has its table, its column and the value of the row
    obtain ⟨hlt, hget⟩ := List.getElem?_eq_some_iff.mp hj
    have hlt' : j < out.length := hout.length_eq ▸ hlt
    have hlead := List.Forall₂.get hout hlt hlt'
    rw [List.get_eq_getElem, List.get_eq_getElem, hget] at hlead
    have hfk : fk ∈ t.schema.fks := (List.mem_filter.mp (List.mem_of_getElem? hj)).1
    obtain ⟨-, -, -, u, hu, hun, -⟩ := (hi.keys t ht fk hfk).closed
    refine ⟨u.rows.filter fun r => u.schema.cell r.2 fk.toCol = some (out[j]).2.2.2, ?_, ?_⟩
    · rw [@Mirrored.reads _ _ _ hdb (.followFk t.schema.name id fk.name) rfl (hdb.covers ht hrow)
        ⟨0, 0⟩]
      show Outcome.ofExcept ((fun r => Reply.followed r.1 r.2) <$>
        db.followFk t.schema.name id fk.name) = _
      rw [Database.followFk_of_mem hi ht hfk hu hun.symm hrow, hlead.val, hun]
      rfl
    · have hentry : (out ++ inc)[j]? = some out[j] := by
        rw [List.getElem?_append_left hlt', List.getElem?_eq_getElem hlt']
      have hopen := opens_of_nav hdb hsees hentry hu
        (hlead.table.trans hun.symm)
        (hlead.col ▸ (hi.keys t ht fk hfk).toCol_mem hi.names hu hun)
      rw [hlead.col, hun] at hopen
      exact hopen
  · -- a row that refers to this one: the column of its key, and the value it points to
    obtain ⟨hlt, hget⟩ := List.getElem?_eq_some_iff.mp hj
    have hlt' : j < inc.length := hinc.length_eq ▸ hlt
    obtain ⟨s, hs, fk, hfk, hto, href, hname, hval, htable, hcol⟩ :=
      (List.Forall₂.get hinc hlt hlt').key
    rw [List.get_eq_getElem, hget] at href hname
    rw [List.get_eq_getElem] at hval htable hcol
    have hentry : (out ++ inc)[(valuedKeys t.schema row).length + j]? = some inc[j] := by
      rw [hout.length_eq, List.getElem?_append_right (Nat.le_add_right _ _),
        Nat.add_sub_cancel_left,
        List.getElem?_eq_getElem hlt']
    have hopen := opens_of_nav hdb hsees hentry hs htable
      (hcol ▸ (hi.keys s hs fk hfk).fromCol_mem)
    rw [hcol] at hopen
    rw [href, hname, referencing_by_key hi hs hfk hto hval]
    exact hopen

theorem row_navigation_family : ∃ (ann bob : RowId) (pg : Pager Disk) (rs : List (RowId × Row)),
    ann ≠ bob ∧ (run (.followFk "people" bob "parent_fk") pg).1 = .ok (.followed "people" rs) ∧
      Opens pg "people" bob 0 "people" rs := by
  obtain ⟨ann, bob, pg, h⟩ := family_seated
  obtain ⟨db, hdb, hall⟩ := row_navigation wideDisk_quiet h.reach
  obtain ⟨t, ht, hname, hrows⟩ := hdb.of_scan (h.mirrored.scan (List.mem_singleton_self _))
  have hschema : t.schema = people := by
    have hnew := hdb.shown ht
    rw [hname, h.mirrored.shown (List.mem_singleton_self _)] at hnew
    injection hnew with hnew
    exact hnew.symm
  have hbob : (bob, [some (.str "Bob"), some (.str "Ann")]) ∈ t.rows := by
    rw [hrows]
    exact List.mem_cons_of_mem _ (List.mem_singleton_self _)
  have hdistinct : (t.rows.map (·.1)).Nodup := by
    have hok := hdb.intact.tables t ht
    exact hok.fitted.rows.nodup hok.fitted.issued
  have hne : ann ≠ bob := by
    rw [hrows] at hdistinct
    simpa [family] using hdistinct
  obtain ⟨refs, navs, pg', -, -, -, hout, -⟩ := hall t ht bob _ hbob
  obtain ⟨rs, hfollow, hopen⟩ := hout 0 ⟨"parent_fk", "parent", "people", "name"⟩ (hschema ▸ rfl)
  rw [show t.schema.name = "people" from hname] at hfollow hopen
  exact ⟨ann, bob, pg, rs, hne, hfollow, hopen⟩

end Views

end TablesOS
