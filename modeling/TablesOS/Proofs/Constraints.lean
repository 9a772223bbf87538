import TablesOS.Proofs.RowIds
import TablesOS.Proofs.Space

/-!
# What inserts, updates and deletes accept

A row operation compares one row with the rows that are stored. Here that is
compared with the constraints themselves, said of the database that the
operation would leave: an update or a delete is accepted exactly when that
database is consistent, an insert when moreover the new row refers to itself by
no key that a stored row does not serve as well. From a database whose keys all
lead somewhere, to a `UNIQUE` column, the two ways along a key find the same
rows. An update under the name of another table is checked against that one's
constraints alone, and may leave a key that leads nowhere: then an update is
accepted though the key still leads nowhere after it (`dangling_key_accepted`),
and a row is not found along its own key (`key_followed_nowhere`).
-/

namespace TablesOS

open Store

/-- Two rows with the same value under `UNIQUE` are one row. -/
theorem TableState.Distinct.apart {ι : Type} {t : TableState ι} {col : String}
    (h : t.Distinct col) {r r' : ι × Row} (hr : r ∈ t.rows) (hr' : r' ∈ t.rows) (hne : r ≠ r')
    (hval : t.schema.cell r.2 col ≠ none) : t.schema.cell r.2 col ≠ t.schema.cell r'.2 col := by
  have hsymm : Std.Symm fun r r' : ι × Row => t.schema.cell r.2 col ≠ none →
      t.schema.cell r.2 col ≠ t.schema.cell r'.2 col :=
    ⟨fun _ _ hab hb heq => hab (heq ▸ hb) heq.symm⟩
  exact List.Pairwise.forall h hr hr' hne hval

/-- The table with one more row. -/
def TableState.withRow {ι : Type} (t : TableState ι) (id : ι) (cells : Row) : TableState ι :=
  { t with rows := t.rows ++ [(id, cells)], issued := t.issued ++ [id] }

/-- The table with other cells in one row. -/
def TableState.setRow {ι : Type} [DecidableEq ι] (t : TableState ι) (id : ι) (cells : Row) :
    TableState ι :=
  { t with rows := t.rows.map fun r => if r.1 = id then (id, cells) else r }

namespace Database

variable {ι : Type} [DecidableEq ι] {db : Database ι} {t : TableState ι} {cells : Row} {id : ι}

/-- The database with one more row, whatever the constraints say. -/
def withRow (db : Database ι) (table : String) (id : ι) (cells : Row) : Database ι :=
  db.replace table (·.withRow id cells)

/-- The database with other cells in one row, whatever the constraints say. -/
def setRow (db : Database ι) (table : String) (id : ι) (cells : Row) : Database ι :=
  db.replace table (·.setRow id cells)

/-- Some stored row has the value that the row refers to by each key into its
own table. -/
def ServedByOthers (t : TableState ι) (cells : Row) : Prop :=
  ∀ fk ∈ t.schema.fks, fk.toTable = t.schema.name → ∀ v,
    t.schema.cell cells fk.fromCol = some v → some v ∈ t.values fk.toCol

/-! ## Insert -/

theorem insert_iff (h : db.Intact) (ht : t ∈ db) :
    (∃ db', db.insert id t.schema.name cells = .ok db') ↔ Admits db t none cells := by
  have hlook := lookup_of_mem h.names ht
  rw [← validate_iff (h.tables t ht).columns (u := ())]
  constructor
  · rintro ⟨db', hins⟩
    obtain ⟨u, hu, hval, -⟩ := insert_ok hins
    rw [hlook] at hu
    cases hu
    exact hval
  · intro hval
    refine ⟨db.withRow t.schema.name id cells, ?_⟩
    rw [Database.insert, hlook, Outcome.except_ok_bind, hval]
    rfl

omit [DecidableEq ι] in
/-- What an accepted row finds. -/
theorem admitted_of_mem {exclude : Option ι} [DecidableEq ι] (hn : (db.map (·.schema.name)).Nodup)
    {fk : ForeignKey} {v : Value} {u : TableState ι} (hu : u ∈ db)
    (hun : u.schema.name = fk.toTable) (hne : fk.toTable ≠ t.schema.name)
    (hv : some v ∈ u.values fk.toCol) : some v ∈ db.admitted t exclude cells fk := by
  unfold admitted
  rw [if_neg hne, ← hun, lookup_of_mem hn hu]
  exact hv

/-- An insert is accepted when the database with the row is consistent and the
row is not its own only target. -/
theorem admits_none_iff (h : db.Intact) (ht : t ∈ db) (hnew : id ∉ t.issued) :
    Admits db t none cells ↔ cells.length = t.schema.columns.length ∧
      (db.withRow t.schema.name id cells).Consistent ∧ ServedByOthers t cells := by
  have hmem : t.withRow id cells ∈ db.withRow t.schema.name id cells :=
    (mem_replace h.names ht).mpr (Or.inl rfl)
  have hrow : (id, cells) ∈ (t.withRow id cells).rows :=
    List.mem_append_right _ (List.mem_singleton_self _)
  constructor
  · intro hadm
    refine ⟨hadm.arity, ?_, fun fk hfk hself v hv => ?_⟩
    · have hval := (validate_iff (h.tables t ht).columns (u := ())).mpr hadm
      have hins : db.insert id t.schema.name cells =
          .ok (db.withRow t.schema.name id cells) := by
        rw [Database.insert, lookup_of_mem h.names ht, Outcome.except_ok_bind, hval]
        rfl
      refine (insert_intact h (fun u hu hun => ?_) hins).consistent
      rw [List.inj_on_of_nodup_map h.names hu ht hun]
      exact hnew
    · rcases admitted_cases (hadm.keys fk hfk v hv) with ⟨-, r, hr, hval⟩ | ⟨hne, -⟩
      · rw [if_neg (Option.some_ne_none _)] at hval
        exact TableState.mem_values.mpr ⟨r, hr, hval⟩
      · exact absurd hself hne
  · rintro ⟨hlen, hcons, hserved⟩
    refine ⟨hlen, fun c hc v => hcons.types _ hmem _ hrow c hc v,
      fun c hc => hcons.notNull _ hmem _ hrow c hc, fun c hc hu hne r hr _ heq => ?_,
      fun fk hfk v hv => ?_⟩
    · have hpair := List.pairwise_append.mp (hcons.unique _ hmem c hc hu)
      exact hpair.2.2 r hr _ (List.mem_singleton_self _) (heq ▸ hne) heq
    · by_cases hself : fk.toTable = t.schema.name
      · obtain ⟨r, hr, hval⟩ := TableState.mem_values.mp (hserved fk hfk hself v hv)
        unfold admitted
        rw [if_pos hself]
        refine List.mem_map.mpr ⟨r, hr, ?_⟩
        rw [if_neg (Option.some_ne_none _)]
        exact hval
      · obtain ⟨u, hu, hun, hval⟩ := hcons.references _ hmem fk hfk _ hrow v hv
        rcases (mem_replace h.names ht).mp hu with rfl | ⟨hu, -⟩
        · exact absurd hun.symm hself
        · exact admitted_of_mem h.names hu hun hself hval

/-! ## Update -/

theorem update_iff (h : db.Intact) (ht : t ∈ db) {old : Row} (hold : (id, old) ∈ t.rows) :
    (∃ db', db.update t.schema.name id cells = .ok db') ↔ Admits db t (some id) cells ∧
      db.restrict t id old (fun col key => t.schema.cell cells col == some key) = .ok () := by
  have hlook := lookup_of_mem h.names ht
  have hrow : rowOf t id = .ok old := rowOf_of_mem (h.tables t ht) hold
  rw [← validate_iff (h.tables t ht).columns (u := ())]
  constructor
  · rintro ⟨db', hup⟩
    obtain ⟨u, hu, hval, old', hrow', hres, -⟩ := update_ok hup
    rw [hlook] at hu
    cases hu
    rw [hrow] at hrow'
    cases hrow'
    exact ⟨hval, hres⟩
  · rintro ⟨hval, hres⟩
    refine ⟨db.setRow t.schema.name id cells, ?_⟩
    rw [Database.update, hlook, Outcome.except_ok_bind, hval, Outcome.except_ok_bind, hrow,
      Outcome.except_ok_bind, hres]
    rfl

/-- An update is accepted when the database with the row replaced is
consistent. -/
theorem update_consistent_iff (h : db.Intact) (ht : t ∈ db) {old : Row}
    (hold : (id, old) ∈ t.rows) : (∃ db', db.update t.schema.name id cells = .ok db') ↔
      cells.length = t.schema.columns.length ∧
        (db.setRow t.schema.name id cells).Consistent := by
  have htab := h.tables t ht
  have hmem : t.setRow id cells ∈ db.setRow t.schema.name id cells :=
    (mem_replace h.names ht).mpr (Or.inl rfl)
  have hrow : (id, cells) ∈ (t.setRow id cells).rows := List.mem_map.mpr ⟨_, hold, if_pos rfl⟩
  have hstay : ∀ r ∈ t.rows, r.1 ≠ id → r ∈ (t.setRow id cells).rows :=
    fun r hr hne => List.mem_map.mpr ⟨r, hr, if_neg hne⟩
  have hnames : ((db.setRow t.schema.name id cells).map (·.schema.name)).Nodup := by
    have hsame : (db.setRow t.schema.name id cells).map (·.schema.name) =
        db.map (·.schema.name) := replace_names fun u hu => hu
    rw [hsame]
    exact h.names
  constructor
  · rintro ⟨db', hup⟩
    have hnext := (update_intact h hup).consistent
    obtain ⟨hadm, -⟩ := (update_iff h ht hold).mp ⟨db', hup⟩
    obtain ⟨-, -, -, -, -, -, rfl⟩ := update_ok hup
    exact ⟨hadm.arity, hnext⟩
  · rintro ⟨hlen, hcons⟩
    refine (update_iff h ht hold).mpr ⟨⟨hlen, fun c hc v => hcons.types _ hmem _ hrow c hc v,
      fun c hc => hcons.notNull _ hmem _ hrow c hc, fun c hc hu hne r hr hother heq => ?_,
      fun fk hfk v hv => ?_⟩,
      restrict_iff.mpr fun o ho fk hfk hto key hkey hkept r hr hother hv => ?_⟩
    · have hmem' := hstay r hr (by simpa using hother)
      have hdist : (t.setRow id cells).Distinct c.name := hcons.unique _ hmem c hc hu
      refine hdist.apart hrow hmem' (fun hr' => ?_) hne heq.symm
      exact hother (congrArg some (congrArg Prod.fst hr').symm)
    · obtain ⟨u, hu, hun, hval⟩ := hcons.references _ hmem fk hfk _ hrow v hv
      by_cases hself : fk.toTable = t.schema.name
      · have hut : u = t.setRow id cells :=
          List.inj_on_of_nodup_map hnames hu hmem (hun.trans hself)
        subst hut
        obtain ⟨r', hr', hval⟩ := TableState.mem_values.mp hval
        obtain ⟨r, hr, rfl⟩ := List.mem_map.mp hr'
        unfold admitted
        rw [if_pos hself]
        refine List.mem_map.mpr ⟨r, hr, ?_⟩
        by_cases hid : r.1 = id
        · rw [if_pos hid] at hval
          rw [if_pos (congrArg some hid)]
          exact hval
        · rw [if_neg hid] at hval
          rw [if_neg (by simpa using hid)]
          exact hval
      · rcases (mem_replace h.names ht).mp hu with rfl | ⟨hu, -⟩
        · exact absurd hun.symm hself
        · exact admitted_of_mem h.names hu hun hself hval
    · -- the key still stands in some row, not in the changed one, and before the change
      -- in that one alone
      obtain ⟨o', ho', hon, hro, hcell⟩ : ∃ o' ∈ db.setRow t.schema.name id cells,
          o'.schema = o.schema ∧ r ∈ o'.rows ∧ o'.schema.cell r.2 fk.fromCol = some key := by
        by_cases hname : o.schema.name = t.schema.name
        · have hot : o = t := List.inj_on_of_nodup_map h.names ho ht hname
          subst hot
          exact ⟨_, hmem, rfl, hstay r hr fun hid => hother ⟨rfl, hid⟩, hv⟩
        · exact ⟨o, (mem_replace h.names ht).mpr (Or.inr ⟨ho, hname⟩), rfl, hr, hv⟩
      obtain ⟨u, hu, hun, hval⟩ := hcons.references o' ho' fk (hon ▸ hfk) r hro key hcell
      have hut : u = t.setRow id cells := List.inj_on_of_nodup_map hnames hu hmem (hun.trans hto)
      subst hut
      obtain ⟨r', hr', hval⟩ := TableState.mem_values.mp hval
      obtain ⟨r₀, hr₀, rfl⟩ := List.mem_map.mp hr'
      by_cases hid : r₀.1 = id
      · rw [if_pos hid] at hval
        have hkeep : t.schema.cell cells fk.toCol = some key := hval
        rw [hkeep] at hkept
        simp at hkept
      · rw [if_neg hid] at hval
        obtain ⟨-, -, -, w, hw, hwn, d, hd, hdn, hdu, -⟩ := (h.keys o ho fk hfk).closed
        have hwt : w = t := List.inj_on_of_nodup_map h.names hw ht (hwn.trans hto)
        subst hwt
        have hdist := htab.unique d hd hdu
        rw [hdn] at hdist
        have hval' : w.schema.cell r₀.2 fk.toCol = some key := hval
        refine hdist.apart hr₀ hold (fun heq => hid (congrArg Prod.fst heq)) ?_ ?_
        · rw [hval']
          exact Option.some_ne_none _
        · rw [hval', hkey]

/-! ## Delete -/

/-- A delete is accepted when no other row refers to the row. -/
theorem delete_iff (h : db.Intact) (ht : t ∈ db) {row : Row} (hrow : (id, row) ∈ t.rows) :
    (∃ db', db.delete t.schema.name id = .ok db') ↔
      ∀ o ∈ db, ∀ fk ∈ o.schema.fks, fk.toTable = t.schema.name → ∀ key,
        t.schema.cell row fk.toCol = some key → ∀ r ∈ o.rows,
          ¬ (o.schema.name = t.schema.name ∧ r.1 = id) →
            o.schema.cell r.2 fk.fromCol ≠ some key := by
  have hlook := lookup_of_mem h.names ht
  have hat : rowOf t id = .ok row := rowOf_of_mem (h.tables t ht) hrow
  have hres := @restrict_iff _ db t _ id row (fun _ _ => false) ()
  simp only [forall_const] at hres
  rw [← hres]
  constructor
  · rintro ⟨db', hdel⟩
    obtain ⟨u, hu, row', hrow', hok, -⟩ := delete_ok hdel
    rw [hlook] at hu
    cases hu
    rw [hat] at hrow'
    cases hrow'
    exact hok
  · intro hok
    refine ⟨db.replace t.schema.name fun t => { t with rows := t.rows.filter (·.1 ≠ id) }, ?_⟩
    rw [Database.delete, hlook, Outcome.except_ok_bind, hat, Outcome.except_ok_bind, hok]
    rfl

/-- A refused delete of a live row names a foreign key. -/
theorem delete_error (h : db.Intact) (ht : t ∈ db) {row : Row} (hrow : (id, row) ∈ t.rows)
    {e : StoreError} (hdel : db.delete t.schema.name id = .error e) :
    ∃ name, e = .foreignKeyViolation name := by
  have hat : rowOf t id = .ok row := rowOf_of_mem (h.tables t ht) hrow
  rw [Database.delete, lookup_of_mem h.names ht, Outcome.except_ok_bind, hat,
    Outcome.except_ok_bind] at hdel
  cases hres : db.restrict t id row fun _ _ => false with
  | ok u =>
      rw [hres] at hdel
      cases hdel
  | error e' =>
      rw [hres] at hdel
      injection hdel with he
      subst he
      unfold restrict refuseFirst at hres
      split at hres
      · next err hfind =>
          injection hres with he
          subst he
          obtain ⟨o, ho, hfind⟩ := List.exists_of_findSome?_eq_some hfind
          obtain ⟨fk, hfk, herr⟩ := List.exists_of_findSome?_eq_some hfind
          refine ⟨fk.name, ?_⟩
          unfold restrictError at herr
          split at herr
          · cases herr
          · split at herr
            · cases herr
            · split at herr
              · injection herr with herr
                exact herr.symm
              · cases herr
      · cases hres

/-! ## Along a key, both ways -/

/-- The rows that refer to a row. -/
theorem referencingRows_of_mem (h : db.Intact) (ht : t ∈ db) {row : Row}
    (hrow : (id, row) ∈ t.rows) : db.referencingRows t.schema.name id =
      .ok (db.flatMap fun o => o.schema.fks.flatMap (referencingBy t row o)) := by
  have hat : rowOf t id = .ok row := rowOf_of_mem (h.tables t ht) hrow
  rw [Database.referencingRows, lookup_of_mem h.names ht, Outcome.except_ok_bind, hat]
  rfl

omit [DecidableEq ι] in
theorem mem_referencing {row : Row} {x : String × String × ι × Row} :
    x ∈ db.flatMap (fun o => o.schema.fks.flatMap (referencingBy t row o)) ↔
      ∃ o ∈ db, ∃ fk ∈ o.schema.fks, fk.toTable = t.schema.name ∧ ∃ key,
        t.schema.cell row fk.toCol = some key ∧ ∃ r ∈ o.rows,
          o.schema.cell r.2 fk.fromCol = some key ∧ (o.schema.name, fk.name, r.1, r.2) = x := by
  simp only [List.mem_flatMap]
  refine exists_congr fun o => and_congr_right fun _ => exists_congr fun fk =>
    and_congr_right fun _ => ?_
  unfold referencingBy
  by_cases hto : fk.toTable = t.schema.name
  · rw [if_neg (not_not.mpr hto)]
    cases t.schema.cell row fk.toCol with
    | none => simp
    | some key => simp [hto, and_assoc]
  · rw [if_pos hto]
    simp [hto]

omit [DecidableEq ι] in
/-- The table a key leads to. -/
theorem target_unique (h : db.Intact) {s : TableState ι} (hs : s ∈ db) {fk : ForeignKey}
    (hfk : fk ∈ s.schema.fks) (ht : t ∈ db) (hto : fk.toTable = t.schema.name) :
    t.Distinct fk.toCol := by
  obtain ⟨-, -, -, u, hu, hun, d, hd, hdn, hdu, -⟩ := (h.keys s hs fk hfk).closed
  have hut : u = t := List.inj_on_of_nodup_map h.names hu ht (hun.trans hto)
  subst hut
  exact hdn ▸ (h.tables u hu).unique d hd hdu

omit [DecidableEq ι] in
/-- A key is found under its name. -/
theorem find_fk {s : TableState ι} (h : s.Ok) {fk : ForeignKey} (hfk : fk ∈ s.schema.fks) :
    s.schema.fks.find? (·.name == fk.name) = some fk := by
  cases hf : s.schema.fks.find? (·.name == fk.name) with
  | none => exact absurd (by simp) (List.find?_eq_none.mp hf fk hfk)
  | some fk' =>
      have hname : fk'.name = fk.name := by simpa using List.find?_some hf
      exact congrArg some (List.inj_on_of_nodup_map h.fkNames
        (List.mem_of_find?_eq_some hf) hfk hname)

/-- The rows a key leads to. -/
theorem followFk_of_mem (h : db.Intact) {s : TableState ι} (hs : s ∈ db) {fk : ForeignKey}
    (hfk : fk ∈ s.schema.fks) (ht : t ∈ db) (hto : fk.toTable = t.schema.name) {cells : Row}
    (hrow : (id, cells) ∈ s.rows) : db.followFk s.schema.name id fk.name =
      .ok (t.schema.name, (s.schema.cell cells fk.fromCol).elim [] fun key =>
        t.rows.filter fun r => t.schema.cell r.2 fk.toCol = some key) := by
  have hat : rowOf s id = .ok cells := rowOf_of_mem (h.tables s hs) hrow
  rw [Database.followFk, lookup_of_mem h.names hs, Outcome.except_ok_bind,
    find_fk (h.tables s hs) hfk]
  simp only [Outcome.except_ok_bind]
  rw [hat, Outcome.except_ok_bind]
  cases hcell : s.schema.cell cells fk.fromCol with
  | none => exact congrArg (fun n => Except.ok (n, [])) hto
  | some key =>
      show (db.lookup fk.toTable >>= fun target => _) = _
      rw [hto, lookup_of_mem h.names ht]
      rfl

/-- A row with a value is led to one row, and to no other. -/
theorem follow_one (h : db.Intact) {s : TableState ι} (hs : s ∈ db) {fk : ForeignKey}
    (hfk : fk ∈ s.schema.fks) (ht : t ∈ db) (hto : fk.toTable = t.schema.name) {r : ι × Row}
    (hr : r ∈ s.rows) {key : Value} (hkey : s.schema.cell r.2 fk.fromCol = some key) :
    ∃ x, t.rows.filter (fun r => t.schema.cell r.2 fk.toCol = some key) = [x] := by
  obtain ⟨u, hu, hun, hval⟩ := (h.keys s hs fk hfk).values key
    (TableState.mem_values.mpr ⟨r, hr, hkey⟩)
  have hut : u = t := List.inj_on_of_nodup_map h.names hu ht (hun.trans hto)
  subst hut
  obtain ⟨x, hx, hxv⟩ := TableState.mem_values.mp hval
  have hdist := target_unique h hs hfk ht hto
  have hnd : (u.rows.filter fun r => u.schema.cell r.2 fk.toCol = some key).Nodup :=
    (List.Nodup.of_map _ ((h.tables u hu).fitted.rows.nodup
      (h.tables u hu).fitted.issued)).filter _
  refine ⟨x, List.perm_singleton.mp ((List.perm_ext_iff_of_nodup hnd
    (List.nodup_singleton x)).mpr fun y => ?_)⟩
  rw [List.mem_filter, decide_eq_true_eq, List.mem_singleton]
  constructor
  · rintro ⟨hy, hyv⟩
    by_contra hne
    exact hdist.apart hy hx hne (by rw [hyv]; exact Option.some_ne_none _) (hyv.trans hxv.symm)
  · rintro rfl
    exact ⟨hx, hxv⟩

end Database

namespace Store

open Pager

variable {led : Ledger RowId} {pg : Pager Disk} {db : Database RowId} {t : TableState RowId}

/-- What an edit answers on the store, when there is room. -/
theorem Mirrored.edit_iff (h : Mirrored led pg db) {op : Op RowId} (he : led.Covers (.call op))
    {r : RowId → Except StoreError (Database RowId)} {reply : RowId → Reply RowId}
    (hstep : ∀ fresh, db.step fresh op = db.edited (reply fresh) (r fresh))
    (hsame : ∀ fresh fresh', (∃ db', r fresh = .ok db') → ∃ db', r fresh' = .ok db')
    (hroom : (run op pg).1 ≠ .err .outOfSpace) (fresh : RowId) :
    (∃ a, (run op pg).1 = .ok a) ↔ ∃ db', r fresh = .ok db' := by
  obtain ⟨f, -, ho, -, -⟩ := happen_mirrored h (.call op) he
  have ho' : (run op pg).1 = Outcome.ofExcept (db.happen f (.call op)).1 := ho
  cases f with
  | none => exact absurd ho' hroom
  | some f =>
      have hf : (run op pg).1 = Outcome.ofExcept (db.edited (reply f) (r f)).1 := by
        rw [ho', ← hstep f]
        rfl
      rw [hf]
      constructor
      · rintro ⟨a, ha⟩
        refine hsame f fresh ?_
        cases hr : r f with
        | ok db' => exact ⟨db', rfl⟩
        | error e =>
            rw [hr] at ha
            cases ha
      · intro hr
        obtain ⟨db', hr⟩ := hsame fresh f hr
        rw [hr]
        exact ⟨_, rfl⟩

/-- Which rows an insert accepts, when there is room: those that keep the
database consistent. Only a row that would be the one target of its own key is
refused nevertheless. -/
theorem insert_accepts {d : Disk} (hq : d.Quiet) (h : Reachable d led pg) :
    ∃ db, Mirrored led pg db ∧ ∀ t ∈ db, ∀ cells id, id ∉ t.issued →
      (run (.insert t.schema.name cells) pg).1 ≠ .err .outOfSpace →
      (((∃ a, (run (.insert t.schema.name cells) pg).1 = .ok a) ↔
          cells.length = t.schema.columns.length ∧
            (db.withRow t.schema.name id cells).Consistent) ↔
        (cells.length = t.schema.columns.length ∧
            (db.withRow t.schema.name id cells).Consistent →
          Database.ServedByOthers t cells)) := by
  obtain ⟨db, hdb⟩ := h.mirrored hq
  refine ⟨db, hdb, fun t ht cells id hnew hroom => ?_⟩
  have hins := fun fresh : RowId => @Database.insert_iff _ _ db t cells fresh hdb.intact ht
  have hrun := @Mirrored.edit_iff _ _ _ hdb (.insert t.schema.name cells) trivial _ _
    (fun _ => rfl)
    (fun f f' hok => (hins f').mpr ((hins f).mp hok)) hroom id
  rw [hrun, hins id, Database.admits_none_iff hdb.intact ht hnew]
  tauto

/-- A table whose one column is a key into itself. -/
def selfKeyed : Database RowId :=
  [⟨⟨"t", [⟨"k", .string, true, true, none⟩], [⟨"k_fk", "k", "t", "k"⟩], []⟩, [], []⟩]

theorem selfKeyed_seated : ∃ pg, Seated wideDisk 2100 [] pg selfKeyed := by
  obtain ⟨pg, -, h⟩ := wideDisk_seated
  obtain ⟨-, h₁⟩ := @Seated.createTable _ _ _ _ _ h "t" (by decide) (by simp) (by decide)
  obtain ⟨-, h₂⟩ := @Seated.addColumn _ _ _ _ _ h₁ _ (List.mem_singleton_self _)
    ⟨"k", .string, true, true, none⟩ rfl rfl rfl (by decide) _ rfl
  obtain ⟨-, h₃⟩ := @Seated.addFk _ _ _ _ _ h₂ _ (List.mem_singleton_self _) "k" "k" _ _ rfl rfl
    rfl rfl rfl _ rfl (by decide) _ rfl
  exact ⟨_, h₃⟩

theorem insert_accepts_selfKeyed : ∃ (pg : Pager Disk) (db : Database RowId),
    Mirrored [] pg db ∧ ∃ t ∈ db, t.schema.name = "t" ∧ ∀ cells id, id ∉ t.issued →
      (run (.insert "t" cells) pg).1 ≠ .err .outOfSpace →
      (((∃ a, (run (.insert "t" cells) pg).1 = .ok a) ↔
          cells.length = t.schema.columns.length ∧ (db.withRow "t" id cells).Consistent) ↔
        (cells.length = t.schema.columns.length ∧ (db.withRow "t" id cells).Consistent →
          Database.ServedByOthers t cells)) := by
  obtain ⟨pg, h⟩ := selfKeyed_seated
  obtain ⟨db, hdb, hall⟩ := insert_accepts wideDisk_quiet h.reach
  obtain ⟨t, ht, hname, -⟩ := hdb.of_scan (h.mirrored.scan (List.mem_singleton_self _))
  have hall' := hall t ht
  rw [show t.schema.name = "t" from hname] at hall'
  exact ⟨pg, db, hdb, t, ht, hname, hall'⟩

/-- A row that refers to itself leaves the database consistent, and an insert
refuses it. -/
theorem insert_refuses_own_target : ∃ pg, Reachable wideDisk [] pg ∧ Mirrored [] pg selfKeyed ∧
    (∀ id, (selfKeyed.withRow "t" id [some (.str "x")]).Consistent) ∧
    (run (.insert "t" [some (.str "x")]) pg).1 = .err (.foreignKeyViolation "k_fk") := by
  obtain ⟨pg, h⟩ := selfKeyed_seated
  refine ⟨pg, h.reach, h.mirrored, fun id => ?_, ?_⟩
  · have htype : (Value.str "x").typeOf = .string := rfl
    refine ⟨?_, ?_, ?_, ?_⟩ <;>
      simp [selfKeyed, Database.withRow, Database.replace, TableState.withRow, Table.cell,
        Table.columnIndex, cellAt, TableState.values, htype]
  · obtain ⟨fresh, hnew, ho, -, -⟩ :=
      happen_mirrored h.mirrored (.call (.insert "t" [some (.str "x")])) trivial
    have hstep : ∀ id, selfKeyed.step id (.insert "t" [some (.str "x")]) =
        (.error (.foreignKeyViolation "k_fk"), selfKeyed) := fun _ => rfl
    cases fresh with
    | none =>
        obtain ⟨op, hop, -, hok⟩ := hnew.room rfl
        cases hop
        obtain ⟨a, db', hok⟩ := hok ⟨0, 0⟩
        rw [hstep] at hok
        cases hok
    | some fresh =>
        have hans : selfKeyed.happen (some fresh) (.call (.insert "t" [some (.str "x")])) = _ :=
          hstep fresh
        rw [hans] at ho
        exact ho

/-! ## A row of another table -/

/-- Two texts in a row. -/
def pairs : Table :=
  ⟨"pairs", [⟨"left", .string, true, false, none⟩, ⟨"right", .string, true, false, none⟩], [], []⟩

/-- Without its ids, the family takes the same pages. -/
theorem family_pages (ann bob : RowId) (rest : Database RowId) :
    Database.pages (family ann bob ++ rest) =
      blocks chainCap (catalogLen ("people" :: rest.map (·.schema.name))) +
        (4 + (rest.map (·.pages)).sum) := by
  have hpeople : ((family ann bob).map (·.pages)).sum = 4 := by
    show (TableState.pages (⟨people, [((), [some (.str "Ann"), none]),
      ((), [some (.str "Bob"), some (.str "Ann")])], [(), ()]⟩ : TableState Unit)) + 0 = 4
    decide
  rw [Database.pages, List.map_append, List.sum_append, hpeople]
  rfl

/-- The family, and no pair yet. -/
theorem pairs_seated : ∃ ann bob pg, Seated wideDisk 2100
    [("people", ann), ("people", bob)] pg (family ann bob ++ [⟨pairs, [], []⟩]) := by
  obtain ⟨ann, bob, pg, h⟩ := family_seated
  have h₁ := (@Seated.createTable _ _ _ _ _ h "pairs" (by decide) (by simp [family, people]) (by
    have hpages := family_pages ann bob []
    rw [List.append_nil] at hpages
    rw [hpages]
    show _ + blocks chainCap (catalogLen ["people", "pairs"]) + _ ≤ _
    decide)).2
  have h₂ : Seated wideDisk 2100 [("people", ann), ("people", bob)] _ (family ann bob ++
      [⟨⟨"pairs", [⟨"left", .string, true, false, none⟩], [], []⟩, [], []⟩]) :=
    (@Seated.addColumn _ _ _ _ _ h₁ ⟨Table.new "pairs", [], []⟩ (by simp)
      ⟨"left", .string, true, false, none⟩ rfl rfl rfl (by
        rw [family_pages]
        show _ + blocks chainCap (catalogLen ["people", "pairs"]) + _ ≤ _
        decide) _ rfl).2
  have h₃ : Seated wideDisk 2100 [("people", ann), ("people", bob)] _
      (family ann bob ++ [⟨pairs, [], []⟩]) :=
    (@Seated.addColumn _ _ _ _ _ h₂
      ⟨⟨"pairs", [⟨"left", .string, true, false, none⟩], [], []⟩, [], []⟩
      (by simp) ⟨"right", .string, true, false, none⟩ rfl rfl rfl (by
        rw [family_pages]
        show _ + blocks chainCap (catalogLen ["people", "pairs"]) + _ ≤ _
        decide) _ rfl).2
  exact ⟨ann, bob, _, h₃⟩

/-- The family, with these cells for Ann. -/
def twoPeople (ann bob : RowId) (cells : Row) : TableState RowId :=
  ⟨people, [(ann, cells), (bob, [some (.str "Bob"), some (.str "Ann")])], [ann, bob]⟩

/-- An update of another table with the id of Ann. -/
theorem stray_laid {ann bob : RowId} {pg : Pager Disk} {sch : Table} {cells : Row}
    (h : Seated wideDisk 2100 [("people", ann), ("people", bob)] pg
      (family ann bob ++ [⟨sch, [], []⟩])) (hname : sch.name = "pairs") (hfks : sch.fks = [])
    (hv : Database.validate (family ann bob ++ [⟨sch, [], []⟩]) ⟨sch, [], []⟩ cells
      (some ann) = .ok ())
    (hn : nchunks (Codec.encodeRow cells) + Database.pages (family ann bob ++ [⟨sch, [], []⟩]) ≤
      2100 - Journal.firstDataPage) : ann ≠ bob ∧
    ∃ pg' L, run (.update "pairs" ann cells) pg = (.ok .done, pg') ∧ Laid pg' L ∧
      dbOf L = [twoPeople ann bob cells, ⟨sch, [], []⟩] ∧ pg'.sb.totalPages = 2100 ∧
      (dbOf L).Closed := by
  have hne : ann ≠ bob := by
    have hnd := (h.mirrored.intact.tables (twoPeople ann bob [some (.str "Ann"), none])
      (by simp [family, twoPeople])).fitted.issued
    simpa [twoPeople] using hnd
  obtain ⟨L, hL, hdb⟩ := h.mirrored.stores
  have hmem : ⟨sch, [], []⟩ ∈ dbOf L ∧ twoPeople ann bob [some (.str "Ann"), none] ∈ dbOf L := by
    simp [hdb, family, twoPeople]
  have hkeys : ∀ o ∈ dbOf L, ∀ fk ∈ o.schema.fks, fk.toTable ≠ sch.name := by
    simp [hdb, hname, hfks, family, people]
  rw [← hdb] at hv
  rw [← hdb, ← h.total] at hn
  obtain ⟨pg', L', hrun, hL', htotal, hdb'⟩ := @Laid.update _ _ _ ann _ cells L hL.laid
    (h.total ▸ h.small) hL.intact.closed hmem.1 hmem.2 List.mem_cons_self hv
    (Database.restrict_unkeyed hkeys _ _ _) hn
  have hcells : dbOf L' = [twoPeople ann bob cells, ⟨sch, [], []⟩] := by
    rw [hdb', hdb]
    simp [Database.replace, family, twoPeople, people, hname, hne.symm]
  have hclosed : (dbOf L').Closed := hL.intact.closed.of_schemas (by rw [hcells, hdb]; rfl)
  rw [show (TableState.mk sch [] [] : TableState RowId).schema.name = "pairs" from hname] at hrun
  exact ⟨hne, pg', L', hrun, hL', hcells, htotal.trans h.total, hclosed⟩

/-- The parent of Bob is nobody's name. -/
def orphaned (ann bob : RowId) : Database RowId :=
  [twoPeople ann bob [some (.str "Zed"), none], ⟨pairs, [], []⟩]

theorem orphaned_laid : ∃ ann bob pg pg' L, ann ≠ bob ∧
    Reachable wideDisk [("people", ann), ("people", bob)] pg ∧
    run (.update "pairs" ann [some (.str "Zed"), none]) pg = (.ok .done, pg') ∧ Laid pg' L ∧
    dbOf L = orphaned ann bob ∧ pg'.sb.totalPages = 2100 ∧ (dbOf L).Closed := by
  obtain ⟨ann, bob, pg, h⟩ := pairs_seated
  obtain ⟨hne, pg', L, hrun, hL⟩ := @stray_laid _ _ _ _ [some (.str "Zed"), none] h rfl rfl rfl (by
    rw [family_pages]
    decide)
  exact ⟨ann, bob, pg, pg', L, hne, h.reach, hrun, hL⟩

theorem people_columns {P : Column → Prop} (hname : P ⟨"name", .string, true, true, none⟩)
    (hparent : P ⟨"parent", .string, true, false, none⟩) : ∀ c ∈ people.columns, P c := by
  intro c hc
  rcases List.mem_cons.mp hc with rfl | hc
  · exact hname
  · exact List.mem_singleton.mp hc ▸ hparent

theorem orphaned_room (ann bob : RowId) :
    nchunks (Codec.encodeRow [some (.str "Zoe"), none]) + (orphaned ann bob).pages ≤
      2100 - Journal.firstDataPage := by
  have hpages : (orphaned ann bob).pages = Database.pages [⟨people,
    [((), [some (.str "Zed"), none]), ((), [some (.str "Bob"), some (.str "Ann")])], [(), ()]⟩,
    ⟨pairs, [], []⟩] := rfl
  rw [hpages]
  decide

/-- Nobody is called what Ann is called now, so she can be renamed. -/
theorem orphaned_validate (db : Database RowId) (ann bob : RowId) :
    db.validate (twoPeople ann bob [some (.str "Zed"), none]) [some (.str "Zoe"), none]
      (some ann) = .ok () := by
  have hnames : people.names.Nodup := by decide
  refine (Database.validate_iff hnames).mpr ⟨rfl, ?_, ?_, ?_, ?_⟩
  · refine people_columns (fun v hv => ?_) fun v hv => ?_
    · injection (show some (Value.str "Zoe") = some v from hv) with hv
      exact hv ▸ rfl
    · cases (show (none : Option Value) = some v from hv)
  · exact people_columns nofun nofun
  · refine people_columns (fun _ _ r hr hout => ?_) nofun
    rcases List.mem_cons.mp hr with rfl | hr
    · exact absurd rfl hout
    · rw [List.mem_singleton.mp hr]
      exact fun heq => absurd (show some (Value.str "Bob") = some (.str "Zoe") from heq) (by decide)
  · intro fk hfk v hv
    rw [List.mem_singleton.mp hfk] at hv
    cases hv

theorem orphaned_restrict (ann bob : RowId) :
    (orphaned ann bob).restrict (twoPeople ann bob [some (.str "Zed"), none]) ann
      (fit 2 [some (.str "Zed"), none])
      (fun col key => people.cell [some (.str "Zoe"), none] col == some key) = .ok () := by
  refine Database.restrict_iff.mpr fun o ho fk hfk hto key hkey _ r hr hout => ?_
  rcases List.mem_cons.mp ho with rfl | ho
  · rw [List.mem_singleton.mp hfk] at hkey ⊢
    cases hkey
    rcases List.mem_cons.mp hr with rfl | hr
    · exact absurd ⟨rfl, rfl⟩ hout
    · rw [List.mem_singleton.mp hr]
      exact fun heq => absurd (show some (Value.str "Ann") = some (.str "Zed") from heq) (by decide)
  · rw [List.mem_singleton.mp ho] at hfk
    cases hfk

/-! ## What updates and deletes accept -/

/-- Which updates and deletes are accepted, when there is room. -/
theorem update_delete_accept {d : Disk} (hq : d.Quiet) (h : Reachable d led pg) :
    ∃ db, Mirrored led pg db ∧ ∀ t ∈ db, ∀ id row, (id, row) ∈ t.rows →
      (∀ cells, (run (.update t.schema.name id cells) pg).1 ≠ .err .outOfSpace →
        ((∃ a, (run (.update t.schema.name id cells) pg).1 = .ok a) ↔
          cells.length = t.schema.columns.length ∧
            (db.setRow t.schema.name id cells).Consistent)) ∧
      ((run (.delete t.schema.name id) pg).1 ≠ .err .outOfSpace →
        ((∃ a, (run (.delete t.schema.name id) pg).1 = .ok a) ↔
          ∀ o ∈ db, ∀ fk ∈ o.schema.fks, fk.toTable = t.schema.name → ∀ key,
            t.schema.cell row fk.toCol = some key → ∀ r ∈ o.rows,
              ¬ (o.schema.name = t.schema.name ∧ r.1 = id) →
                o.schema.cell r.2 fk.fromCol ≠ some key)) := by
  obtain ⟨db, hdb⟩ := h.mirrored hq
  refine ⟨db, hdb, fun t ht id row hrow => ⟨fun cells hroom => ?_, fun hroom => ?_⟩⟩
  · have hled := hdb.covers ht hrow
    rw [@Mirrored.edit_iff _ _ _ hdb (.update t.schema.name id cells) hled _ _ (fun _ => rfl)
      (fun _ _ hok => hok) hroom ⟨0, 0⟩, Database.update_consistent_iff hdb.intact ht hrow]
  · have hled := hdb.covers ht hrow
    rw [@Mirrored.edit_iff _ _ _ hdb (.delete t.schema.name id) hled _ _ (fun _ => rfl)
      (fun _ _ hok => hok) hroom ⟨0, 0⟩, Database.delete_iff hdb.intact ht hrow]

theorem update_delete_accept_family : ∃ (bob : RowId) (led : Ledger RowId) (pg : Pager Disk)
    (db : Database RowId), Mirrored led pg db ∧ ∃ t ∈ db, t.schema.name = "people" ∧
      (bob, [some (.str "Bob"), some (.str "Ann")]) ∈ t.rows ∧
      ∀ cells, (run (.update "people" bob cells) pg).1 ≠ .err .outOfSpace →
        ((∃ a, (run (.update "people" bob cells) pg).1 = .ok a) ↔
          cells.length = t.schema.columns.length ∧ (db.setRow "people" bob cells).Consistent) := by
  obtain ⟨ann, bob, pg, h⟩ := family_seated
  obtain ⟨db, hdb, hall⟩ := update_delete_accept wideDisk_quiet h.reach
  obtain ⟨t, ht, hname, hrows⟩ := hdb.of_scan (h.mirrored.scan (List.mem_singleton_self _))
  have hbob : (bob, [some (.str "Bob"), some (.str "Ann")]) ∈ t.rows := by
    rw [hrows]
    exact List.mem_cons_of_mem _ (List.mem_singleton_self _)
  have hall' := (hall t ht bob _ hbob).1
  rw [show t.schema.name = "people" from hname] at hall'
  exact ⟨bob, _, pg, db, hdb, t, ht, hname, hbob, hall'⟩

/-- Ann was renamed as if she were a pair, and the parent of Bob is gone; she is renamed once
more, and accepted. -/
theorem dangling_key_accepted : ∃ ann bob pg pg' es pg'',
    Reachable wideDisk [("people", ann), ("people", bob)] pg ∧
    run (.update "pairs" ann [some (.str "Zed"), none]) pg = (.ok .done, pg') ∧
    OnPages pg' es (orphaned ann bob) ∧
    run (.update "people" ann [some (.str "Zoe"), none]) pg' = (.ok .done, pg'') ∧
    ¬ ((orphaned ann bob).setRow "people" ann [some (.str "Zoe"), none]).Consistent := by
  obtain ⟨ann, bob, pg, pg', L, hne, hreach, hrun, hL, hdb, htotal, hc⟩ := orphaned_laid
  have hroom := orphaned_room ann bob
  rw [← hdb, ← htotal] at hroom
  have hpeople : twoPeople ann bob [some (.str "Zed"), none] ∈ dbOf L := by
    simp [hdb, orphaned]
  obtain ⟨pg'', L', hrun', -⟩ := @Laid.update _ _ _ ann _ [some (.str "Zoe"), none] L
    hL (htotal ▸ by decide) hc hpeople hpeople List.mem_cons_self (orphaned_validate _ _ _)
    (hdb ▸ orphaned_restrict ann bob) hroom
  have hpages := hL.onPages
  rw [hdb] at hpages
  refine ⟨ann, bob, pg, pg', _, pg'', hreach, hrun, hpages, hrun', fun hcons => ?_⟩
  -- the parent of Bob
  have hset : (orphaned ann bob).setRow "people" ann [some (.str "Zoe"), none] =
      [twoPeople ann bob [some (.str "Zoe"), none], ⟨pairs, [], []⟩] := by
    simp [Database.setRow, TableState.setRow, Database.replace, orphaned, twoPeople, people, pairs,
      hne.symm]
  rw [hset] at hcons
  obtain ⟨u, hu, hun, hval⟩ := hcons.references _ List.mem_cons_self
    ⟨"parent_fk", "parent", "people", "name"⟩ (List.mem_singleton_self _)
    (bob, [some (.str "Bob"), some (.str "Ann")])
    (List.mem_cons_of_mem _ (List.mem_singleton_self _)) (.str "Ann") rfl
  rcases List.mem_cons.mp hu with rfl | hu
  · have hnames : some (Value.str "Ann") ∈ [some (.str "Zoe"), some (.str "Bob")] := hval
    exact absurd hnames (by decide)
  · rw [List.mem_singleton.mp hu] at hun
    exact absurd hun (by decide)

/-- The two ways along a foreign key, and what guards a delete, agree. -/
theorem navigation_agrees {d : Disk} (hq : d.Quiet) (h : Reachable d led pg) :
    ∃ db, Mirrored led pg db ∧ ∀ t ∈ db, ∀ id row, (id, row) ∈ t.rows →
      ∃ refs, (run (.referencingRows t.schema.name id) pg).1 = .ok (.referencing refs) ∧
        (∀ s ∈ db, ∀ fk ∈ s.schema.fks, fk.toTable = t.schema.name → ∀ r cells,
          (r, cells) ∈ s.rows → ∃ rows,
            (run (.followFk s.schema.name r fk.name) pg).1 = .ok (.followed t.schema.name rows) ∧
            ((s.schema.name, fk.name, r) ∈ refs.map (fun x => (x.1, x.2.1, x.2.2.1)) ↔
              id ∈ rows.map (·.1)) ∧
            (s.schema.cell cells fk.fromCol ≠ none → ∃ x, rows = [x]) ∧
            (s.schema.cell cells fk.fromCol = none → rows = [])) ∧
        ((∃ name, (run (.delete t.schema.name id) pg).1 = .err (.foreignKeyViolation name)) ↔
          ∃ x ∈ refs, ¬ (x.1 = t.schema.name ∧ x.2.2.1 = id)) := by
  obtain ⟨db, hdb⟩ := h.mirrored hq
  refine ⟨db, hdb, fun t ht id row hrow => ?_⟩
  have hi := hdb.intact
  refine ⟨db.flatMap fun o => o.schema.fks.flatMap (Database.referencingBy t row o), ?_,
    fun s hs fk hfk hto r cells hr => ?_, ?_⟩
  · rw [@Mirrored.reads _ _ _ hdb (.referencingRows t.schema.name id) rfl
      (hdb.covers ht hrow) ⟨0, 0⟩]
    show Outcome.ofExcept (Reply.referencing <$> db.referencingRows t.schema.name id) = _
    rw [Database.referencingRows_of_mem hi ht hrow]
    rfl
  · refine ⟨(s.schema.cell cells fk.fromCol).elim [] fun key =>
      t.rows.filter fun r => t.schema.cell r.2 fk.toCol = some key, ?_, ?_, fun hne => ?_,
        fun hnone => by rw [hnone]; rfl⟩
    · rw [@Mirrored.reads _ _ _ hdb (.followFk s.schema.name r fk.name) rfl (hdb.covers hs hr)
        ⟨0, 0⟩]
      show Outcome.ofExcept ((fun r => Reply.followed r.1 r.2) <$>
        db.followFk s.schema.name r fk.name) = _
      rw [Database.followFk_of_mem hi hs hfk ht hto hr]
      rfl
    · simp only [List.mem_map, Prod.mk.injEq]
      constructor
      · rintro ⟨x, hx, hsx, hfx, hrx⟩
        obtain ⟨o, ho, fk', hfk', -, key, hkey, r', hr', hcell, rfl⟩ :=
          Database.mem_referencing.mp hx
        have hos : o = s := List.inj_on_of_nodup_map hi.names ho hs hsx
        subst hos
        have hff : fk' = fk := List.inj_on_of_nodup_map (hi.tables o ho).fkNames hfk' hfk hfx
        subst hff
        have hrow' := Database.row_unique (hi.tables o ho) hr' hr hrx
        subst hrow'
        refine ⟨(id, row), ?_, rfl⟩
        rw [hcell]
        exact List.mem_filter.mpr ⟨hrow, decide_eq_true hkey⟩
      · rintro ⟨x, hx, rfl⟩
        cases hcell : s.schema.cell cells fk.fromCol with
        | none =>
            rw [hcell] at hx
            cases hx
        | some key =>
            rw [hcell] at hx
            obtain ⟨hx, hkey⟩ := List.mem_filter.mp hx
            have hxr := Database.row_unique (hi.tables t ht) hx hrow rfl
            have hrx : row = x.2 := (congrArg Prod.snd hxr).symm
            exact ⟨_, Database.mem_referencing.mpr ⟨s, hs, fk, hfk, hto, key,
              hrx ▸ of_decide_eq_true hkey, (r, cells), hr, hcell, rfl⟩, rfl, rfl, rfl⟩
    · obtain ⟨key, hkey⟩ := Option.ne_none_iff_exists'.mp hne
      rw [hkey]
      exact Database.follow_one hi hs hfk ht hto hr hkey
  · have hiff := Database.delete_iff hi ht hrow
    have hother : (∃ x ∈ db.flatMap fun o => o.schema.fks.flatMap (Database.referencingBy t row o),
        ¬ (x.1 = t.schema.name ∧ x.2.2.1 = id)) ↔
        ¬ ∃ db', db.delete t.schema.name id = .ok db' := by
      rw [hiff]
      simp only [Database.mem_referencing]
      push Not
      constructor
      · rintro ⟨_, ⟨o, ho, fk, hfk, hto, key, hkey, r, hr, hcell, rfl⟩, hne⟩
        exact ⟨o, ho, fk, hfk, hto, key, hkey, r, hr, hne, hcell⟩
      · rintro ⟨o, ho, fk, hfk, hto, key, hkey, r, hr, hne, hcell⟩
        exact ⟨_, ⟨o, ho, fk, hfk, hto, key, hkey, r, hr, hcell, rfl⟩, hne⟩
    rw [hother]
    obtain ⟨f, hnew, ho, -, -⟩ := happen_mirrored hdb (.call (.delete t.schema.name id))
      (hdb.covers ht hrow)
    have ho' : (run (.delete t.schema.name id) pg).1 =
      Outcome.ofExcept (db.happen f (.call (.delete t.schema.name id))).1 := ho
    rw [ho']
    cases f with
    | none =>
        obtain ⟨op, hop, -, hall⟩ := hnew.room rfl
        cases hop
        obtain ⟨a, db', hok⟩ := hall ⟨0, 0⟩
        have hdel := (Database.edited_ok hok).1
        refine ⟨fun ⟨n, hn⟩ => ?_, fun hno => absurd ⟨db', hdel⟩ hno⟩
        cases hn
    | some f =>
        show (∃ n, Outcome.ofExcept (db.edited .done (db.delete t.schema.name id)).1 = _) ↔ _
        cases hdel : db.delete t.schema.name id with
        | ok db' =>
            refine ⟨fun ⟨n, hn⟩ => ?_, fun hno => absurd ⟨db', rfl⟩ hno⟩
            cases hn
        | error e =>
            obtain ⟨name, rfl⟩ := Database.delete_error hi ht hrow hdel
            exact ⟨fun _ ⟨db', hok⟩ => (nomatch hok), fun _ => ⟨name, rfl⟩⟩

theorem navigation_agrees_family : ∃ (ann bob : RowId) (pg : Pager Disk) (refs : _) (rows : _),
    (run (.referencingRows "people" ann) pg).1 = .ok (.referencing refs) ∧
    (run (.followFk "people" bob "parent_fk") pg).1 = .ok (.followed "people" rows) ∧
    (("people", "parent_fk", bob) ∈ refs.map (fun x => (x.1, x.2.1, x.2.2.1)) ↔
      ann ∈ rows.map (·.1)) ∧ ∃ x, rows = [x] := by
  obtain ⟨ann, bob, pg, h⟩ := family_seated
  obtain ⟨db, hdb, hall⟩ := navigation_agrees wideDisk_quiet h.reach
  obtain ⟨t, ht, hname, hrows⟩ := hdb.of_scan (h.mirrored.scan (List.mem_singleton_self _))
  have hschema : t.schema = people := by
    have hold := h.mirrored.shown (List.mem_singleton_self _)
    have hnew := hdb.shown ht
    rw [hname, hold] at hnew
    injection hnew with hnew
    exact hnew.symm
  have hann : (ann, [some (.str "Ann"), none]) ∈ t.rows := by
    rw [hrows]
    exact List.mem_cons_self
  have hbob : (bob, [some (.str "Bob"), some (.str "Ann")]) ∈ t.rows := by
    rw [hrows]
    exact List.mem_cons_of_mem _ (List.mem_singleton_self _)
  obtain ⟨refs, hrefs, hkeys, -⟩ := hall t ht ann _ hann
  have hkey := hkeys t ht ⟨"parent_fk", "parent", "people", "name"⟩
    (hschema ▸ List.mem_singleton_self _) (hschema ▸ rfl) bob _ hbob
  rw [hschema] at hkey hrefs
  obtain ⟨rows, hfollow, hiff, hone, -⟩ := hkey
  exact ⟨ann, bob, pg, refs, rows, hrefs, hfollow, hiff, hone (by decide)⟩

theorem rowOf_bob {ann bob : RowId} (hne : ann ≠ bob) (cells : Row) :
    Database.rowOf (twoPeople ann bob cells) bob = .ok [some (.str "Bob"), some (.str "Ann")] := by
  simp [Database.rowOf, twoPeople, hne]

/-- There the key of Bob leads to no row. -/
theorem key_followed_nowhere : ∃ ann bob pg pg',
    Reachable wideDisk [("people", ann), ("people", bob)] pg ∧
    run (.update "pairs" ann [some (.str "Zed"), none]) pg = (.ok .done, pg') ∧
    (run (.getRow "people" bob) pg').1 = .ok (.row [some (.str "Bob"), some (.str "Ann")]) ∧
    (run (.followFk "people" bob "parent_fk") pg').1 = .ok (.followed "people" []) := by
  obtain ⟨ann, bob, pg, pg', L, hne, hreach, hrun, hL, hdb, htotal, hc⟩ := orphaned_laid
  obtain ⟨avail, cat, hr⟩ := hL.readable
  have hstate : ∀ t ∈ L, t.state = twoPeople ann bob [some (.str "Zed"), none] ∨
      t.state = ⟨pairs, [], []⟩ := by
    intro t ht
    have hmem : t.state ∈ orphaned ann bob := hdb ▸ List.mem_map_of_mem ht
    simpa [orphaned] using hmem
  have harity : Arity L := by
    intro t ht r hrow
    rw [← Stored.state_schema]
    rcases hstate t ht with heq | heq <;> rw [heq] at hrow ⊢
    · rcases List.mem_cons.mp hrow with rfl | hrow
      · rfl
      · rw [List.mem_singleton.mp hrow]
        rfl
    · cases hrow
  have hid : ∀ t ∈ L, t.schema.name = "people" → bob ∈ t.state.issued := by
    intro t ht hname
    rw [← Stored.state_schema] at hname
    rcases hstate t ht with heq | heq <;> rw [heq] at hname ⊢
    · exact List.mem_cons_of_mem _ (List.mem_singleton_self bob)
    · exact absurd hname (by decide)
  have hmem : twoPeople ann bob [some (.str "Zed"), none] ∈ dbOf L := by simp [hdb, orphaned]
  have hget := hL.getRow hc.names hmem (List.mem_cons_of_mem _ (List.mem_singleton_self _))
  have hfollow := followFk_run hr hc harity "parent_fk" hid
  have hlook : (orphaned ann bob).lookup "people" =
      .ok (twoPeople ann bob [some (.str "Zed"), none]) := rfl
  rw [hdb, Database.followFk, hlook] at hfollow
  refine ⟨ann, bob, pg, pg', hreach, hrun, hget, ?_⟩
  refine (run_answer hL.clean hL.quiet rfl (ask_of_eval hL.clean hfollow)).trans ?_
  rw [Outcome.except_ok_bind]
  show Outcome.ofExcept (_ <$> (Database.rowOf _ bob >>= _)) = _
  rw [rowOf_bob hne]
  rfl

end Store

end TablesOS
