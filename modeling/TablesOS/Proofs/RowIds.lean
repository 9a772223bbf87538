import TablesOS.Proofs.Ownership

/-!
# Row ids are stable

A table grows: it never forgets an id it gave out, its rows keep their order,
and a row that appears has an id of its own (`Grows`). A step on any table
makes the others grow and carries every row but the one it deletes; a run does
the same, one step after the other (`history_grows`). What the store says of
an id after a run is read off from the table it has grown into. All this is
for ids that the store gave out for the table they are used on: with a made-up
one a delete frees the page of another row, and the catalog is written to it
(`row_under_catalog`).
-/

namespace TablesOS

namespace TableState

variable {ι : Type}

/-- `t'` is what became of `t`. -/
structure Grows (t t' : TableState ι) : Prop where
  issued : t.issued <+: t'.issued
  order : ∃ kept new, t'.rows.map (·.1) = kept ++ new ∧ kept.Sublist (t.rows.map (·.1)) ∧
    ∀ id ∈ new, id ∉ t.issued

theorem Grows.refl (t : TableState ι) : Grows t t :=
  ⟨List.prefix_rfl, _, [], (List.append_nil _).symm, List.Sublist.refl _, nofun⟩

theorem Grows.trans {t t' t'' : TableState ι} (h : Grows t t') (h' : Grows t' t'') :
    Grows t t'' := by
  obtain ⟨kept, new, hrows, hkept, hnew⟩ := h.order
  obtain ⟨kept', new', hrows', hkept', hnew'⟩ := h'.order
  rw [hrows] at hkept'
  obtain ⟨k, n, rfl, hk, hn⟩ := List.sublist_append_iff.mp hkept'
  refine ⟨h.issued.trans h'.issued, k, n ++ new', by rw [hrows', List.append_assoc],
    hk.trans hkept, fun id hid => ?_⟩
  rcases List.mem_append.mp hid with hid | hid
  · exact hnew id (hn.subset hid)
  · exact fun hold => hnew' id hid (h.issued.subset hold)

/-- An id without a row never gets one. -/
theorem Grows.dead {t t' : TableState ι} (h : Grows t t') {id : ι} (hid : id ∈ t.issued)
    (hdead : id ∉ t.rows.map (·.1)) : id ∈ t'.issued ∧ id ∉ t'.rows.map (·.1) := by
  obtain ⟨kept, new, hrows, hkept, hnew⟩ := h.order
  refine ⟨h.issued.subset hid, fun hlive => ?_⟩
  rw [hrows] at hlive
  rcases List.mem_append.mp hlive with hlive | hlive
  · exact hdead (hkept.subset hlive)
  · exact hnew id hlive hid

variable [DecidableEq ι] {t : TableState ι} {fresh : ι} {op : Op ι}

/-- One step. -/
theorem grows_next (hfresh : ∀ cells, op = .insert t.schema.name cells → fresh ∉ t.issued) :
    Grows t (t.next fresh op) := by
  have hmap : (t.next fresh op).issued = t.issued →
      (t.next fresh op).rows = t.rows.map (fun r => (r.1, t.schema.carry r.1 op r.2)) →
      Grows t (t.next fresh op) := by
    intro hissued hrows
    refine ⟨hissued ▸ List.prefix_rfl, t.rows.map (·.1), [], ?_, List.Sublist.refl _, nofun⟩
    rw [hrows, List.map_map, List.append_nil]
    rfl
  cases op with
  | insert table cells =>
      by_cases hname : t.schema.name = table
      · refine ⟨⟨[fresh], (if_pos hname).symm⟩, t.rows.map (·.1), [fresh], ?_,
          List.Sublist.refl _, fun id hid => ?_⟩
        · rw [show (t.next fresh (.insert table cells)).rows = t.rows ++ [(fresh, cells)] from
            if_pos hname, List.map_append]
          rfl
        · rw [List.mem_singleton.mp hid]
          exact hfresh cells (by rw [hname])
      · have hnext : t.next fresh (.insert table cells) = t :=
          next_same rfl (if_neg hname) (if_neg hname)
        rw [hnext]
        exact Grows.refl t
  | delete table id =>
      refine ⟨List.prefix_rfl, (t.next fresh (.delete table id)).rows.map (·.1), [],
        (List.append_nil _).symm, List.Sublist.map _ ?_, nofun⟩
      by_cases hname : t.schema.name = table
      · rw [show (t.next fresh (.delete table id)).rows = t.rows.filter (·.1 ≠ id) from
          if_pos hname]
        exact List.filter_sublist
      · rw [show (t.next fresh (.delete table id)).rows = t.rows from if_neg hname]
  | _ => exact hmap rfl rfl

/-- A row that a step does not delete is carried. -/
theorem carry_mem {id : ι} {row : Row} (hrow : (id, row) ∈ t.rows)
    (hop : op ≠ .delete t.schema.name id) :
    (id, t.schema.carry id op row) ∈ (t.next fresh op).rows := by
  have hmap : (t.next fresh op).rows = t.rows.map (fun r => (r.1, t.schema.carry r.1 op r.2)) →
      (id, t.schema.carry id op row) ∈ (t.next fresh op).rows := by
    intro hrows
    rw [hrows]
    exact List.mem_map.mpr ⟨(id, row), hrow, rfl⟩
  cases op with
  | insert table cells =>
      show (id, row) ∈ if t.schema.name = table then t.rows ++ [(fresh, cells)] else t.rows
      split
      · exact List.mem_append_left _ hrow
      · exact hrow
  | delete table id' =>
      show (id, row) ∈ if t.schema.name = table then t.rows.filter (·.1 ≠ id') else t.rows
      split
      · next hname =>
          refine List.mem_filter.mpr ⟨hrow, decide_eq_true fun hid => hop ?_⟩
          rw [hname]
          exact congrArg _ hid.symm
      · exact hrow
  | _ => exact hmap rfl

end TableState

namespace Database

variable {ι : Type} [DecidableEq ι] {db : Database ι} {t : TableState ι}

theorem next_mem (ht : t ∈ db) {fresh : ι} {op : Op ι} (hop : op ≠ .dropTable t.schema.name) :
    t.next fresh op ∈ db.after fresh op := by
  cases op with
  | createTable name =>
      have hnext : t.next fresh (.createTable name) = t :=
        TableState.next_same rfl (List.map_id' _) rfl
      rw [hnext]
      exact List.mem_append_left _ ht
  | dropTable name =>
      have hnext : t.next fresh (.dropTable name) = t :=
        TableState.next_same rfl (List.map_id' _) rfl
      rw [hnext]
      refine List.mem_filter.mpr ⟨ht, decide_eq_true fun hname => hop ?_⟩
      rw [hname]
  | _ => exact List.mem_map_of_mem ht

end Database

namespace Store

open Pager

/-! ## What happens in a run -/

section Histories

variable {D : Type} [BlockDevice D]

/-- The history has this event, and it was answered. -/
def Succeeds (e : StoreEvent RowId) (es : List (StoreEvent RowId)) (pg : Pager D) : Prop :=
  ∃ a, (e, Outcome.ok a) ∈ es.zip (history es pg).1

/-- The schema that the store shows of a table. -/
def shown (table : String) (pg : Pager D) : Option Table :=
  match (run (.getTable table) pg).1 with
  | .ok (.schema t) => some t
  | _ => none

/-- What one event makes of the cells of row `id`: those that an update gives
it, moved about by every change of the columns. -/
def carriedBy (table : String) (id : RowId) (e : StoreEvent RowId) (pg : Pager D) (row : Row) :
    Row :=
  match e, (happen e pg).1, shown table pg with
  | .call op, .ok _, some t => t.carry id op row
  | _, _, _ => row

/-- What the events of a history make of the cells of row `id`. -/
def carried (table : String) (id : RowId) : List (StoreEvent RowId) → Pager D → Row → Row
  | [], _, row => row
  | e :: es, pg, row => carried table id es (happen e pg).2 (carriedBy table id e pg row)

theorem succeeds_cons {e e' : StoreEvent RowId} {es : List (StoreEvent RowId)} {pg : Pager D} :
    Succeeds e' (e :: es) pg ↔
      (e' = e ∧ ∃ a, (happen e pg).1 = .ok a) ∨ Succeeds e' es (happen e pg).2 := by
  simp only [Succeeds, history_cons, List.zip_cons_cons, List.mem_cons, Prod.mk.injEq]
  constructor
  · rintro ⟨a, ⟨he, ha⟩ | h⟩
    · exact Or.inl ⟨he, a, ha.symm⟩
    · exact Or.inr ⟨a, h⟩
  · rintro (⟨he, a, ha⟩ | ⟨a, h⟩)
    · exact ⟨a, Or.inl ⟨he, ha.symm⟩⟩
    · exact ⟨a, Or.inr h⟩

end Histories

variable {led : Ledger RowId} {pg : Pager Disk} {db : Database RowId} {t : TableState RowId}

theorem Mirrored.shown (h : Mirrored led pg db) (ht : t ∈ db) :
    shown t.schema.name pg = some t.schema := by
  have hget := @Mirrored.reads _ _ _ h (.getTable t.schema.name) rfl trivial ⟨0, 0⟩
  have hstep : (db.step ⟨0, 0⟩ (.getTable t.schema.name)).1 = .ok (.schema t.schema) := by
    show Reply.schema <$> ((·.schema) <$> db.lookup t.schema.name) = _
    rw [Database.lookup_of_mem h.intact.names ht]
    rfl
  rw [hstep] at hget
  rw [Store.shown, hget]
  rfl

/-- One event, on a table that it does not drop. -/
theorem happen_grows (h : Mirrored led pg db) (e : StoreEvent RowId) (he : led.Covers e)
    (ht : t ∈ db)
    (hdrop : e = .call (.dropTable t.schema.name) → ∀ a, (happen e pg).1 ≠ .ok a) :
    ∃ db' t', Mirrored (led.after e (happen e pg).1) (happen e pg).2 db' ∧ t' ∈ db' ∧
      t'.schema.name = t.schema.name ∧ t.Grows t' ∧
      (∀ id row, (id, row) ∈ t.rows →
        (e = .call (.delete t.schema.name id) → ∀ a, (happen e pg).1 ≠ .ok a) →
          (id, carriedBy t.schema.name id e pg row) ∈ t'.rows) ∧
      ∀ cells id, e = .call (.insert t.schema.name cells) →
        (happen e pg).1 = .ok (.inserted id) → id ∉ t.issued := by
  obtain ⟨fresh, hnew, ho, hnext, herr⟩ := happen_mirrored h e he
  cases hr : (db.happen fresh e).1 with
  | error err =>
      rw [hr] at ho
      have herr' : (happen e pg).1 = .err err := ho
      rw [(herr err herr').2] at hnext
      refine ⟨db, t, hnext, ht, rfl, TableState.Grows.refl t, fun id row hrow _ => ?_, ?_⟩
      · have hcarried : carriedBy t.schema.name id e pg row = row := by
          unfold carriedBy
          rw [herr']
          cases e <;> rfl
        rw [hcarried]
        exact hrow
      · intro cells id _ hok
        rw [herr'] at hok
        cases hok
  | ok a =>
      rw [hr] at ho
      have hok : (happen e pg).1 = .ok a := ho
      cases e with
      | remount =>
          refine ⟨db, t, hnext, ht, rfl, TableState.Grows.refl t, fun id row hrow _ => hrow, ?_⟩
          rintro cells id hins
          cases hins
      | call op =>
          cases fresh with
          | none => cases hr
          | some fresh =>
              have hstep : db.step fresh op = (.ok a, (db.step fresh op).2) :=
                Prod.ext hr rfl
              have hafter := Database.step_ok h.intact.names hstep
              have hmem : t.next fresh op ∈ (db.step fresh op).2 := by
                rw [hafter]
                exact Database.next_mem ht fun hop => hdrop (congrArg _ hop) a hok
              refine ⟨_, t.next fresh op, hnext, hmem, Database.next_name fresh op t, ?_, ?_, ?_⟩
              · exact TableState.grows_next fun cells hop =>
                  hnew.id fresh rfl _ cells (congrArg _ hop) t ht rfl
              · intro id row hrow hdel
                have hcarried : carriedBy t.schema.name id (.call op) pg row =
                    t.schema.carry id op row := by
                  unfold carriedBy
                  rw [hok, h.shown ht]
                rw [hcarried]
                exact TableState.carry_mem hrow fun hop => hdel (congrArg _ hop) a hok
              · rintro cells id hins hans
                cases hins
                have hid : id = fresh := by
                  have ha := (Database.edited_ok hstep).2
                  rw [hok, ha] at hans
                  injection hans with hans
                  injection hans with hans
                  exact hans.symm
                rw [hid]
                exact hnew.id fresh rfl _ cells rfl t ht rfl

/-- Every history, on a table that it does not drop. -/
theorem history_grows (es : List (StoreEvent RowId)) :
    ∀ {led : Ledger RowId} {pg : Pager Disk} {db : Database RowId} {t : TableState RowId},
      Mirrored led pg db → HandedOut es led pg → t ∈ db →
      ¬ Succeeds (.call (.dropTable t.schema.name)) es pg →
      ∃ db' t', Mirrored (ledger es led pg) (history es pg).2 db' ∧ t' ∈ db' ∧
        t'.schema.name = t.schema.name ∧ t.Grows t' ∧
        (∀ id row, (id, row) ∈ t.rows → ¬ Succeeds (.call (.delete t.schema.name id)) es pg →
          (id, carried t.schema.name id es pg row) ∈ t'.rows) ∧
        ∀ cells id, (StoreEvent.call (.insert t.schema.name cells), Outcome.ok (.inserted id)) ∈
          es.zip (history es pg).1 → id ∉ t.issued := by
  induction es with
  | nil =>
      intro led pg db t h _ ht _
      exact ⟨db, t, h, ht, rfl, TableState.Grows.refl t, fun _ _ hrow _ => hrow, nofun⟩
  | cons e es ih =>
      intro led pg db t h hes ht hdrop
      rw [succeeds_cons, not_or] at hdrop
      obtain ⟨db₁, t₁, h₁, ht₁, hname, hgrows, hcarry, hins⟩ :=
        happen_grows h e hes.1 ht fun hop a ha => hdrop.1 ⟨hop.symm, a, ha⟩
      rw [← hname] at hdrop
      obtain ⟨db₂, t₂, h₂, ht₂, hname₂, hgrows₂, hcarry₂, hins₂⟩ := ih h₁ hes.2 ht₁ hdrop.2
      rw [hname] at hcarry₂ hins₂
      refine ⟨db₂, t₂, h₂, ht₂, hname₂.trans hname, hgrows.trans hgrows₂, ?_, ?_⟩
      · intro id row hrow hdel
        rw [succeeds_cons, not_or] at hdel
        refine hcarry₂ id _ (hcarry id row hrow fun hop a ha => ?_) hdel.2
        exact hdel.1 ⟨hop.symm, a, ha⟩
      · intro cells id hmem
        rw [history_cons, List.zip_cons_cons, List.mem_cons, Prod.mk.injEq] at hmem
        rcases hmem with ⟨hop, ha⟩ | hmem
        · exact hins cells id hop.symm ha.symm
        · exact fun hold => hins₂ cells id hmem (hgrows.issued.subset hold)

/-! ## What the store says of a row -/

theorem Mirrored.scan (h : Mirrored led pg db) (ht : t ∈ db) :
    (run (.scan t.schema.name) pg).1 = .ok (.rows t.rows) := by
  have hread := @Mirrored.reads _ _ _ h (.scan t.schema.name) rfl trivial ⟨0, 0⟩
  have hstep : (db.step ⟨0, 0⟩ (.scan t.schema.name)).1 = .ok (.rows t.rows) := by
    show Reply.rows <$> ((·.rows) <$> db.lookup t.schema.name) = _
    rw [Database.lookup_of_mem h.intact.names ht]
    rfl
  rw [hread, hstep]
  rfl

/-- A table that can be scanned is one of the model. -/
theorem Mirrored.of_scan (h : Mirrored led pg db) {table : String} {rows : List (RowId × Row)}
    (hscan : (run (.scan table) pg).1 = .ok (.rows rows)) :
    ∃ t ∈ db, t.schema.name = table ∧ t.rows = rows := by
  have hread := @Mirrored.reads _ _ _ h (.scan table) rfl trivial ⟨0, 0⟩
  rw [hscan] at hread
  cases hl : db.lookup table with
  | error e =>
      have hstep : (db.step ⟨0, 0⟩ (.scan table)).1 = .error e := by
        show Reply.rows <$> ((·.rows) <$> db.lookup table) = _
        rw [hl]
        rfl
      rw [hstep] at hread
      cases hread
  | ok t =>
      obtain ⟨ht, rfl⟩ := Database.lookup_mem hl
      refine ⟨t, ht, rfl, ?_⟩
      have hlive := h.scan ht
      rw [hscan] at hlive
      injection hlive with hlive
      injection hlive with hlive
      exact hlive.symm

/-- The id of a live row is in the ledger. -/
theorem Mirrored.covers (h : Mirrored led pg db) (ht : t ∈ db) {id : RowId} {row : Row}
    (hrow : (id, row) ∈ t.rows) : (t.schema.name, id) ∈ led := by
  refine (h.ledger _).mpr (Database.mem_ids.mpr ⟨t, ht, rfl, ?_⟩)
  exact (h.intact.tables t ht).fitted.rows.subset (List.mem_map_of_mem hrow)

theorem Mirrored.getRow (h : Mirrored led pg db) (ht : t ∈ db) {id : RowId} {row : Row}
    (hrow : (id, row) ∈ t.rows) : (run (.getRow t.schema.name id) pg).1 = .ok (.row row) := by
  have hok := h.intact.tables t ht
  have hread := @Mirrored.reads _ _ _ h (.getRow t.schema.name id) rfl (h.covers ht hrow) ⟨0, 0⟩
  have hstep : (db.step ⟨0, 0⟩ (.getRow t.schema.name id)).1 = .ok (.row row) := by
    show Reply.row <$> (db.lookup t.schema.name >>= fun u => Database.rowOf u id) = _
    rw [Database.lookup_of_mem h.intact.names ht]
    exact congrArg _ (Database.rowOf_of_mem hok hrow)
  rw [hread, hstep]
  rfl

/-- An event that the model refuses is refused, if not for lack of room. -/
theorem Mirrored.refused (h : Mirrored led pg db) {op : Op RowId} (he : led.Covers (.call op))
    (hstep : ∀ fresh, ∃ e, (db.step fresh op).1 = .error e) : ∃ e, (run op pg).1 = .err e := by
  obtain ⟨f, -, ho, -, -⟩ := happen_mirrored h (.call op) he
  have ho' : (run op pg).1 = Outcome.ofExcept (db.happen f (.call op)).1 := ho
  rw [ho']
  cases f with
  | none => exact ⟨_, rfl⟩
  | some fresh =>
      obtain ⟨e, hstep⟩ := hstep fresh
      show ∃ e, Outcome.ofExcept (db.step fresh op).1 = .err e
      rw [hstep]
      exact ⟨e, rfl⟩

theorem rowOf_dead {id : RowId} (hdead : id ∉ t.rows.map (·.1)) :
    Database.rowOf t id = .error (.notFound "row (deleted)") := by
  unfold Database.rowOf
  have hfind : t.rows.find? (·.1 == id) = none := by
    rw [List.find?_eq_none]
    intro r hr hid
    exact hdead (List.mem_map.mpr ⟨r, hr, by simpa using hid⟩)
  rw [hfind]

/-- With the id of a deleted row nothing can be done. -/
theorem Mirrored.dead (h : Mirrored led pg db) (ht : t ∈ db) {id : RowId} (hid : id ∈ t.issued)
    (hdead : id ∉ t.rows.map (·.1)) :
    (∃ e, (run (.getRow t.schema.name id) pg).1 = .err e) ∧
      (∀ cells, ∃ e, (run (.update t.schema.name id cells) pg).1 = .err e) ∧
      ∃ e, (run (.delete t.schema.name id) pg).1 = .err e := by
  have hlook := Database.lookup_of_mem h.intact.names ht
  have hrow := rowOf_dead hdead
  have hled : (t.schema.name, id) ∈ led :=
    (h.ledger _).mpr (Database.mem_ids.mpr ⟨t, ht, rfl, hid⟩)
  refine ⟨h.refused hled fun fresh => ?_, fun cells => h.refused hled fun fresh => ?_,
    h.refused hled fun fresh => ?_⟩
  · refine ⟨.notFound "row (deleted)", ?_⟩
    show Reply.row <$> (db.lookup t.schema.name >>= fun u => Database.rowOf u id) = _
    rw [hlook]
    exact congrArg (Reply.row <$> ·) hrow
  · cases hup : db.update t.schema.name id cells with
    | error e => exact ⟨e, congrArg (fun r => (db.edited Reply.done r).1) hup⟩
    | ok db' =>
        obtain ⟨u, hu, -, old, hold, -⟩ := Database.update_ok hup
        rw [hlook] at hu
        cases hu
        rw [hrow] at hold
        cases hold
  · cases hdel : db.delete t.schema.name id with
    | error e => exact ⟨e, congrArg (fun r => (db.edited Reply.done r).1) hdel⟩
    | ok db' =>
        obtain ⟨u, hu, row, hold, -⟩ := Database.delete_ok hdel
        rw [hlook] at hu
        cases hu
        rw [hrow] at hold
        cases hold

/-- A row that a history deletes stays deleted. -/
theorem history_deletes (es : List (StoreEvent RowId)) :
    ∀ {led : Ledger RowId} {pg : Pager Disk} {db : Database RowId} {t : TableState RowId}
      {id : RowId}, Mirrored led pg db → HandedOut es led pg → t ∈ db →
      ¬ Succeeds (.call (.dropTable t.schema.name)) es pg →
      Succeeds (.call (.delete t.schema.name id)) es pg →
      ∃ db' t', Mirrored (ledger es led pg) (history es pg).2 db' ∧ t' ∈ db' ∧
        t'.schema.name = t.schema.name ∧ id ∈ t'.issued ∧ id ∉ t'.rows.map (·.1) := by
  induction es with
  | nil =>
      rintro led pg db t id - - - - ⟨a, ha⟩
      cases ha
  | cons e es ih =>
      intro led pg db t id h hes ht hdrop hdel
      rw [succeeds_cons, not_or] at hdrop
      rw [succeeds_cons] at hdel
      rcases hdel with ⟨rfl, a, ha⟩ | hdel
      · obtain ⟨fresh, hnew, ho, hnext, -⟩ := happen_mirrored h _ hes.1
        rw [ha] at ho
        have hid : id ∈ t.issued := h.uses hes.1 t ht rfl
        cases fresh with
        | none => cases ho
        | some fresh =>
            have hr : (db.step fresh (.delete t.schema.name id)).1 = .ok a :=
              Outcome.ofExcept_eq_ok.mp ho.symm
            have hstep : db.step fresh (.delete t.schema.name id) =
                (.ok a, (db.step fresh (.delete t.schema.name id)).2) := Prod.ext hr rfl
            have hmem : t.next fresh (.delete t.schema.name id) ∈
                (db.happen (some fresh) (.call (.delete t.schema.name id))).2 := by
              show _ ∈ (db.step fresh (.delete t.schema.name id)).2
              rw [Database.step_ok h.intact.names hstep]
              exact Database.next_mem ht nofun
            have hrows : (t.next fresh (.delete t.schema.name id)).rows =
                t.rows.filter (·.1 ≠ id) := if_pos rfl
            obtain ⟨db', t', h', ht', hname, hgrows, -, -⟩ :=
              history_grows es hnext hes.2 hmem hdrop.2
            refine ⟨db', t', h', ht', hname, hgrows.dead hid fun hlive => ?_⟩
            rw [hrows] at hlive
            obtain ⟨r, hr, rfl⟩ := List.mem_map.mp hlive
            exact of_decide_eq_true (List.mem_filter.mp hr).2 rfl
      · obtain ⟨db₁, t₁, h₁, ht₁, hname, -⟩ :=
          happen_grows h e hes.1 ht fun hop a ha => hdrop.1 ⟨hop.symm, a, ha⟩
        rw [← hname] at hdrop hdel
        obtain ⟨db₂, t₂, h₂, ht₂, hname₂, hid⟩ := ih h₁ hes.2 ht₁ hdrop.2 hdel
        exact ⟨db₂, t₂, h₂, ht₂, hname₂.trans hname, hid⟩

/-- A row id is stable. What an insert answers is listed; what is listed, with
its cells as later events leave them, stays listed once and in its place, and
no other row gets its id; once its row is deleted, nothing can be done with
it. -/
theorem rowId_stable {d : Disk} (hq : d.Quiet) {led : Ledger RowId} {pg : Pager Disk}
    (h : Reachable d led pg) (table : String) (id : RowId) :
    (∀ cells, (run (.insert table cells) pg).1 = .ok (.inserted id) →
      ∃ rows, (run (.scan table) (run (.insert table cells) pg).2).1 =
        .ok (.rows (rows ++ [(id, cells)]))) ∧
    ∀ rows, (run (.scan table) pg).1 = .ok (.rows rows) → ∀ es, HandedOut es led pg →
      ¬ Succeeds (.call (.dropTable table)) es pg →
      (∀ cells i, (StoreEvent.call (.insert table cells), Outcome.ok (.inserted i)) ∈
        es.zip (history es pg).1 → (table, i) ∉ led) ∧
      (∀ row, (id, row) ∈ rows → ¬ Succeeds (.call (.delete table id)) es pg →
        (run (.getRow table id) (history es pg).2).1 =
          .ok (.row (carried table id es pg row)) ∧
        ∃ kept new, (run (.scan table) (history es pg).2).1 = .ok (.rows (kept ++ new)) ∧
          (id, carried table id es pg row) ∈ kept ∧ ((kept ++ new).map (·.1)).Nodup ∧
          (kept.map (·.1)).Sublist (rows.map (·.1)) ∧ ∀ r ∈ new, (table, r.1) ∉ led) ∧
      (Succeeds (.call (.delete table id)) es pg →
        (∃ e, (run (.getRow table id) (history es pg).2).1 = .err e) ∧
        (∀ cells, ∃ e, (run (.update table id cells) (history es pg).2).1 = .err e) ∧
        ∃ e, (run (.delete table id) (history es pg).2).1 = .err e) := by
  obtain ⟨db, hdb⟩ := h.mirrored hq
  refine ⟨fun cells hins => ?_, fun rows hscan es hes hdrop => ?_⟩
  · obtain ⟨fresh, hnew, ho, hnext, -⟩ := happen_mirrored hdb (.call (.insert table cells)) trivial
    have ho' : (run (.insert table cells) pg).1 = _ := ho
    rw [hins] at ho'
    cases fresh with
    | none => cases ho'
    | some fresh =>
        have hr : (db.step fresh (.insert table cells)).1 = .ok (.inserted id) :=
          Outcome.ofExcept_eq_ok.mp ho'.symm
        have hstep : db.step fresh (.insert table cells) =
            (.ok (.inserted id), (db.step fresh (.insert table cells)).2) := Prod.ext hr rfl
        obtain ⟨hok, hid⟩ := Database.edited_ok hstep
        obtain ⟨t, hlook, -, hdb'⟩ := Database.insert_ok hok
        obtain ⟨ht, rfl⟩ := Database.lookup_mem hlook
        injection hid with hid
        have hmem : { t with rows := t.rows ++ [(id, cells)], issued := t.issued ++ [id] } ∈
            (db.happen (some fresh) (.call (.insert t.schema.name cells))).2 := by
          show _ ∈ (db.step fresh (.insert t.schema.name cells)).2
          rw [hdb', hid]
          exact (Database.mem_replace hdb.intact.names ht).mpr (Or.inl rfl)
        exact ⟨t.rows, hnext.scan hmem⟩
  · obtain ⟨t, ht, rfl, rfl⟩ := hdb.of_scan hscan
    have hled : ∀ i, (t.schema.name, i) ∈ led → i ∈ t.issued := by
      intro i hi
      obtain ⟨u, hu, hname, hid⟩ := Database.mem_ids.mp ((hdb.ledger _).mp hi)
      have hut : u = t := List.inj_on_of_nodup_map hdb.intact.names hu ht hname
      exact hut ▸ hid
    obtain ⟨db', t', h', ht', hname, hgrows, hcarry, hins⟩ := history_grows es hdb hes ht hdrop
    refine ⟨fun cells i hi hold => hins cells i hi (hled i hold), fun row hrow hdel => ?_,
      fun hdel => ?_⟩
    · have hrow' := hcarry id row hrow hdel
      have hnd : (t'.rows.map (·.1)).Nodup :=
        (h'.intact.tables t' ht').fitted.rows.nodup (h'.intact.tables t' ht').fitted.issued
      rw [← hname]
      refine ⟨h'.getRow ht' (hname ▸ hrow'), ?_⟩
      obtain ⟨kept, new, hrows, hkept, hnew⟩ := hgrows.order
      obtain ⟨ks, ns, hsplit, hks, hns⟩ := List.map_eq_append_iff.mp hrows
      refine ⟨ks, ns, ?_, ?_, ?_, ?_, ?_⟩
      · rw [← hsplit]
        exact h'.scan ht'
      · rw [hsplit, List.mem_append] at hrow'
        rw [hname]
        refine hrow'.resolve_right fun hmem => ?_
        refine hnew id (hns ▸ List.mem_map_of_mem hmem) ?_
        exact (hdb.intact.tables t ht).fitted.rows.subset (List.mem_map_of_mem hrow)
      · rw [← hsplit]
        exact hnd
      · rw [hks]
        exact hkept
      · intro r hr hold
        rw [hname] at hold
        exact hnew r.1 (hns ▸ List.mem_map_of_mem hr) (hled r.1 hold)
    · obtain ⟨db₂, t₂, h₂, ht₂, hname₂, hid, hdead⟩ := history_deletes es hdb hes ht hdrop hdel
      rw [← hname₂]
      exact h₂.dead ht₂ hid hdead

theorem rowId_stable_family : ∃ (ann bob : RowId) (pg : Pager Disk),
    (run (.scan "people") pg).1 = .ok (.rows [(ann, [some (.str "Ann"), none]),
      (bob, [some (.str "Bob"), some (.str "Ann")])]) ∧
    ∀ es, HandedOut es [("people", ann), ("people", bob)] pg →
      ¬ Succeeds (.call (.dropTable "people")) es pg →
      ¬ Succeeds (.call (.delete "people" bob)) es pg →
      (run (.getRow "people" bob) (history es pg).2).1 =
        .ok (.row (carried "people" bob es pg [some (.str "Bob"), some (.str "Ann")])) := by
  obtain ⟨ann, bob, pg, h⟩ := family_seated
  have hscan := h.mirrored.scan (List.mem_singleton_self _)
  refine ⟨ann, bob, pg, hscan, fun es hes hdrop hdel => ?_⟩
  have hstable := (rowId_stable wideDisk_quiet h.reach "people" bob).2 _ hscan es hes hdrop
  exact (hstable.2.1 _ (by simp) hdel).1

/-- A catalog is no record: its second byte is the length of a name, its third the name's first
letter. -/
theorem decodeRow_catalog {sch : Table} {len letter : Byte} {name : List Byte}
    (hname : Codec.putStr sch.name = len :: letter :: name) (hlen : len ≠ 0)
    (hletter : Ty.fromTag letter = none) (s n : Nat) (ips : List Nat) :
    Codec.decodeRow (encodeCatalog [entryOf sch s ips n]) = .error (.corrupt "bad type tag") := by
  have hcount : Codec.putUvarint 1 = [1] := by decide
  have hcell : ∀ rest, Codec.getCell (len :: letter :: rest) =
      .error (.corrupt "bad type tag") := by
    intro rest
    simp [Codec.getCell, Codec.getByte, bind, StateT.bind, Except.bind, hlen, hletter]
    rfl
  rw [encodeCatalog, Codec.putVec, List.flatMap_singleton, putCatEntry]
  show Codec.decodeRow (Codec.putUvarint 1 ++ (Codec.putStr sch.name ++ _)) = _
  rw [hcount, hname, List.singleton_append, List.cons_append, List.cons_append]
  have hone : ∀ rest, Codec.getUvarint (1 :: rest) = .ok (1, rest) := fun _ => rfl
  have hvec : ∀ rest, Codec.getVec Codec.getCell (1 :: len :: letter :: rest) =
      .error (.corrupt "bad type tag") := by
    intro rest
    rw [Codec.getVec, Decoder.bind_ok (hone _)]
    show (Codec.getCell (len :: letter :: rest) >>= _) = _
    rw [hcell]
    rfl
  rw [Codec.decodeRow, StateT.run', hvec]
  rfl

/-- The first of two notes, after the second was replaced and an id that is neither of theirs
was deleted. -/
theorem row_under_catalog : ∃ pg a b text id, formatStore wideDisk = (.ok pg, pg.dev) ∧
    (history noteCalls pg).1 = [.ok .done, .ok .done, .ok (.inserted a), .ok (.inserted b)] ∧
    (run (.getRow "notes" a) (history noteCalls pg).2).1 = .ok (.row [some (.str "a")]) ∧
    b ≠ a ∧ id ≠ a ∧
    (history [.call (.update "notes" b [some (.str text)]), .call (.delete "notes" id)]
      (history noteCalls pg).2).1 = [.ok .done, .ok .done] ∧
    (run (.getRow "notes" a) (history (noteCalls ++ [.call (.update "notes" b [some (.str text)]),
      .call (.delete "notes" id)]) pg).2).1 = .err (.corrupt "bad type tag") := by
  obtain ⟨pg, a, b, text, id, pg', h⟩ := @forged "notes" "text" (by decide) (by decide) (by decide)
    (by decide)
  refine ⟨pg, a, b, text, id, h.format, h.calls, h.row, h.apart.1, h.apart.2,
    congrArg Prod.fst h.edits, ?_⟩
  obtain ⟨n, ips, heads, rest, k, s, c, avail, hspread, rfl, hk⟩ := h.spread
  have hafter := congrArg (fun x => (run (.getRow "notes" (rowIdAt ips k)) x).1)
    (congrArg Prod.snd h.edits)
  have hget := hspread.getRow hk (Multiset.mem_cons_self _ _)
  have hname : Codec.putStr "notes" = [5, 110, 111, 116, 101, 115] := by decide
  rw [decodeRow_catalog hname (by decide) (by decide)] at hget
  rw [history_append]
  exact hafter.trans hget

end Store

end TablesOS
