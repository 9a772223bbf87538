import TablesOS.Proofs.RowNavigation
import TablesOS.Proofs.ScreenTurns

/-!
# Browsers and what they were asked for

A browser follows its intent while its filter has the intent's name and its sort
the intent's position. An edit of the columns underneath that leaves the browser's
own name and position alone keeps it so, and so does every other call; what the
browser shows is then what it was asked for.

A short session on a small store goes, key by key, from the table list over a row
to the browser of the rows that refer to it. A column renamed underneath leaves that
browser what it is, unless it is the one that it filters by.
-/

namespace TablesOS

open Store Pager

namespace Views

open Asking Ui

/-! ## One table -/

/-- On that schema the browser remembers what it was asked for. -/
structure KeptBy (t : Table) (b : Browser) (i : Intent) : Prop where
  filter : i.filter = b.filter.map (·.1)
  column : ∀ c, i.filter = some c → c ∈ t.names
  sort : ∀ c, i.sort = some c → ∃ ci asc, b.sort = some (ci, asc) ∧ t.names[ci]? = some c

section Schema

variable {t t' : Table} {b : Browser} {i : Intent} {op : Op RowId}

/-- Columns may come behind the last. -/
theorem KeptBy.more (h : KeptBy t b i) {new : List String} (hnames : t'.names = t.names ++ new) :
    KeptBy t' b i := by
  refine ⟨h.filter, fun c hc => ?_, fun c hc => ?_⟩
  · rw [hnames]
    exact List.mem_append_left _ (h.column c hc)
  · obtain ⟨ci, asc, hsort, hci⟩ := h.sort c hc
    refine ⟨ci, asc, hsort, ?_⟩
    rw [hnames, List.getElem?_append_left (List.getElem?_eq_some_iff.mp hci).1]
    exact hci

/-- What a call makes of the names, where it does not move, rename or drop. -/
theorem names_edit (hnd : t.names.Nodup) (hop : reshapes op = false) :
    ∃ new, (t.edit op).names = t.names ++ new := by
  have hsame : ∀ u : Table, u.names = t.names → ∃ new, u.names = t.names ++ new := fun u hu =>
    ⟨[], by rw [hu, List.append_nil]⟩
  have hset : ∀ col f, (∀ c, (f c).name = c.name ∧ (f c).ty = c.ty ∧ (f c).nullable = c.nullable) →
      (Database.withColumn t col f).names = t.names := fun col f hf =>
    @Database.names_withColumn RowId ⟨t, [], []⟩ col f hf hnd
  cases op with
  | moveColumn => cases hop
  | renameColumn => cases hop
  | dropColumn => cases hop
  | addColumn table col =>
      simp only [Table.edit]
      split_ifs
      · exact ⟨[col.name], List.map_append⟩
      · exact hsame t rfl
  | setUnique table col unique =>
      simp only [Table.edit]
      split_ifs
      · exact hsame _ (hset col _ fun c => ⟨rfl, rfl, rfl⟩)
      · exact hsame t rfl
  | setDisplayWidth table col width =>
      simp only [Table.edit]
      split_ifs
      · exact hsame _ (hset col _ fun c => ⟨rfl, rfl, rfl⟩)
      · exact hsame t rfl
  | addFk table fromCol toTable toCol =>
      simp only [Table.edit]
      split_ifs <;> exact hsame _ rfl
  | dropFk table fkName =>
      simp only [Table.edit]
      split_ifs <;> exact hsame _ rfl
  | setReferenceColumns table cols =>
      simp only [Table.edit]
      split_ifs <;> exact hsame _ rfl
  | _ => exact hsame t rfl

theorem keptBy_move {table col : String} {new : ℕ} (h : KeptBy t b i) (hname : t.name = b.table)
    (hnew : t.name = table → new < t.columns.length)
    (hsp : b.Spared t i (.moveColumn table col new)) :
    KeptBy (t.edit (.moveColumn table col new : Op RowId)) b i := by
  by_cases htable : t.name = table
  · simp only [Table.edit, if_pos htable]
    cases hcol : t.columnIndex col with
    | none =>
        rw [Option.getD_none, Database.moved, List.getElem?_eq_none (Nat.le_refl _)]
        exact h
    | some old =>
        obtain ⟨c, hc, -⟩ := Table.columnIndex_lt hcol
        have hold := (List.getElem?_eq_some_iff.mp hc).1
        have hperm := (Database.perm_moved hold (hnew htable)).map (·.name)
        refine ⟨h.filter, fun c hc => hperm.mem_iff.mpr (h.column c hc), fun c hc => ?_⟩
        obtain ⟨ci, asc, hsort, hci⟩ := h.sort c hc
        refine ⟨ci, asc, hsort, ?_⟩
        have hsame := hsp (htable.symm.trans hname) (by rw [hc]; exact Option.some_ne_none c)
          ci asc hsort old hcol
        show ((Database.moved old new t.columns).map (·.name))[ci]? = _
        rw [List.getElem?_map, hsame, ← List.getElem?_map]
        exact hci
  · simp only [Table.edit, if_neg htable]
    exact h

theorem names_renamed (htable : t.name = b.table) {table old new : String} (hne : old ≠ new) :
    (t.edit (.renameColumn table old new : Op RowId)).names =
      t.names.map fun c => if table = b.table ∧ c = old then new else c := by
  simp only [Table.edit, if_neg hne, renameIn]
  by_cases hown : t.name = table
  · rw [if_pos (beq_iff_eq.mpr hown), Table.names_rename]
    simp [← htable, hown]
  · rw [if_neg (by simpa using hown)]
    rw [htable] at hown
    simp [Table.names, Ne.symm hown]

theorem keptBy_rename {table old new : String} (h : KeptBy t b i) (hname : t.name = b.table)
    (hsp : b.Spared t i (.renameColumn table old new)) :
    KeptBy (t.edit (.renameColumn table old new : Op RowId)) b
      (.follow b.table (.renameColumn table old new) i) := by
  have hfollow : Intent.follow b.table (.renameColumn table old new) i =
      ⟨i.filter.map fun c => if table = b.table ∧ c = old then new else c,
        i.sort.map fun c => if table = b.table ∧ c = old then new else c⟩ := by
    unfold Intent.follow
    by_cases htable : table = b.table <;> simp [htable]
  by_cases heq : old = new
  · subst heq
    have hid : (fun c => if table = b.table ∧ c = old then old else c) = id := by
      funext c
      split_ifs with hc
      · exact hc.2.symm
      · rfl
    rw [hfollow, hid, Option.map_id]
    simpa [Table.edit] using h
  · rw [hfollow]
    have hnames := @names_renamed t b hname table old new heq
    refine ⟨?_, fun c hc => ?_, fun c hc => ?_⟩
    · rw [h.filter]
      rcases hf : b.filter with _ | ⟨c, val⟩
      · rfl
      · refine congrArg some (ite_eq_right_iff.mpr ?_)
        rintro ⟨htable, rfl⟩
        exact hsp htable c val hf rfl
    · obtain ⟨d, hd, rfl⟩ := Option.map_eq_some_iff.mp hc
      rw [hnames]
      exact List.mem_map_of_mem (h.column d hd)
    · obtain ⟨d, hd, rfl⟩ := Option.map_eq_some_iff.mp hc
      obtain ⟨ci, asc, hsort, hci⟩ := h.sort d hd
      refine ⟨ci, asc, hsort, ?_⟩
      rw [hnames, List.getElem?_map, hci]
      rfl

theorem keptBy_drop {table col : String} (h : KeptBy t b i) (hnd : t.names.Nodup)
    (hname : t.name = b.table) (hsp : b.Spared t i (.dropColumn table col)) :
    KeptBy (t.edit (.dropColumn table col : Op RowId)) b
      (.follow b.table (.dropColumn table col) i) := by
  by_cases htable : t.name = table
  · obtain ⟨hfilter, hsort⟩ := hsp (htable.symm.trans hname)
    simp only [Table.edit, if_pos htable, Intent.follow, if_pos (htable.symm.trans hname)]
    have hleft : ∀ {o : Option String} {c : String}, o.filter (· ≠ col) = some c →
        o = some c ∧ c ≠ col := by
      intro o c hc
      simpa using Option.filter_eq_some_iff.mp hc
    have hfilter' : i.filter.filter (· ≠ col) = b.filter.map (·.1) := by
      rw [h.filter]
      rcases hf : b.filter with _ | ⟨c, val⟩
      · rfl
      · rw [Option.map_some, Option.filter_some, if_pos]
        simpa using hfilter c val hf
    cases hcol : t.columnIndex col with
    | none =>
        rw [Option.getD_none, List.eraseIdx_of_length_le (Nat.le_refl _)]
        exact ⟨hfilter', fun c hc => h.column c (hleft hc).1, fun c hc => h.sort c (hleft hc).1⟩
    | some old =>
        have hat : t.names[old]? = some col := (Table.columnIndex_eq_some hnd).mp hcol
        have hnames : (t.columns.eraseIdx old).map (·.name) = t.names.eraseIdx old :=
          (List.eraseIdx_map _ _ _).symm
        refine ⟨hfilter', fun c hc => ?_, fun c hc => ?_⟩
        · obtain ⟨hc, hne⟩ := hleft hc
          obtain ⟨k, hk⟩ := List.mem_iff_getElem?.mp (h.column c hc)
          show c ∈ (t.columns.eraseIdx old).map (·.name)
          rw [hnames, List.mem_eraseIdx_iff_getElem?]
          refine ⟨k, ?_, hk⟩
          rintro rfl
          exact hne (Option.some_inj.mp (hk.symm.trans hat))
        · obtain ⟨hc, hne⟩ := hleft hc
          obtain ⟨ci, asc, hsorted, hci⟩ := h.sort c hc
          have hle : ci ≤ old :=
            hsort (by rw [hc]; exact Option.some_ne_none c) ci asc hsorted old hcol
          have hlt : ci < old := by
            refine lt_of_le_of_ne hle ?_
            rintro rfl
            exact hne (Option.some_inj.mp (hci.symm.trans hat))
          refine ⟨ci, asc, hsorted, ?_⟩
          show ((t.columns.eraseIdx old).map (·.name))[ci]? = _
          rw [hnames, List.getElem?_eraseIdx_of_lt hlt]
          exact hci
  · have hother : ¬ table = b.table := fun heq => htable (hname.trans heq.symm)
    simp only [Table.edit, if_neg htable, Intent.follow, if_neg hother]
    exact h

end Schema

/-- Calls that do not edit columns spare every browser. -/
theorem spared_of_plain {t : Table} {b : Browser} {i : Intent} {op : Op RowId}
    (hop : reshapes op = false) : b.Spared t i op := by
  cases op with
  | moveColumn => cases hop
  | renameColumn => cases hop
  | dropColumn => cases hop
  | _ => trivial

theorem follow_of_plain {table : String} {i : Intent} {op : Op RowId} (hop : reshapes op = false) :
    Intent.follow table op i = i := by
  cases op with
  | renameColumn => cases hop
  | dropColumn => cases hop
  | _ => rfl

/-! ## The tables there are -/

/-- The browser remembers what it was asked for. -/
def Kept (db : Database RowId) (b : Browser) (i : Intent) : Prop :=
  ∃ t, tableOf db b.table = some t ∧ KeptBy t.schema b i

section Tables

variable {db db' : Database RowId} {b : Browser} {i : Intent} {op : Op RowId} {fresh : RowId}
  {a : Reply RowId}

/-- One call underneath a browser that it spares. -/
theorem Kept.call (h : Kept db b i) (hi : db.Intact) (hi' : db'.Intact)
    (hstep : db.step fresh op = (.ok a, db')) (hdrop : ∀ n, op ≠ .dropTable n)
    (hsp : ∀ t, tableOf db b.table = some t → b.Spared t.schema i op) :
    Kept db' b (.follow b.table op i) := by
  obtain ⟨t, ht, hk⟩ := h
  obtain ⟨hmem, hname⟩ := tableOf_mem ht
  have hnd : t.schema.names.Nodup := (hi.tables t hmem).columns
  have hnext : t.next fresh op ∈ db' := by
    rw [Database.step_ok hi.names hstep]
    exact Database.next_mem hmem (hdrop _)
  have hname' : (t.next fresh op).schema.name = b.table := by
    rw [Database.next_name]
    exact hname
  refine ⟨t.next fresh op, hname' ▸ tableOf_of_mem hi' hnext, ?_⟩
  show KeptBy (t.schema.edit op) b _
  have hspared := hsp t ht
  cases hop : reshapes op with
  | false =>
      obtain ⟨new, hnames⟩ := names_edit hnd hop
      rw [follow_of_plain hop]
      exact hk.more hnames
  | true =>
      cases op with
      | moveColumn table col new =>
          refine keptBy_move hk hname (fun htable => ?_) hspared
          obtain ⟨u, hu, hun, -, -, hnew, -⟩ :=
            Database.moveColumn_ok (Database.edited_ok hstep).1
          rw [List.inj_on_of_nodup_map hi.names hmem hu (htable.trans hun.symm)]
          exact hnew
      | renameColumn table old new => exact keptBy_rename hk hname hspared
      | dropColumn table col => exact keptBy_drop hk hnd hname hspared
      | _ => cases hop

theorem kept_opened (hi : db.Intact) (h : Openable db b) : Kept db b (.opened (.browser b)) := by
  obtain ⟨t, ht, hname⟩ := h.table
  refine ⟨t, hname ▸ tableOf_of_mem hi ht, rfl, fun c hc => ?_, fun c hc => by cases hc⟩
  obtain ⟨⟨col, val⟩, hf, rfl⟩ := Option.map_eq_some_iff.mp hc
  obtain ⟨u, hu, hun, hcol⟩ := h.filter col val hf
  rw [List.inj_on_of_nodup_map hi.names ht hu (hname.trans hun.symm)]
  exact hcol

end Tables

/-! ## The stack and the intents -/

/-- A screen and the intent behind it. -/
def Follows (db : Database RowId) (scr : Screen) (i : Intent) : Prop :=
  ∀ b, scr = .browser b → Kept db b i

/-- The names of the columns, by the tables there are. -/
def columnOf (db : Database RowId) (table : String) (ci : ℕ) : Option String :=
  ((tableOf db table).map (·.schema)).bind fun t => t.columns[ci]?.map (·.name)

section Stack

variable {db : Database RowId} {ops : List (Op RowId)} {scr scr' : Screen} {i : Intent}

/-- The browser after an event, with a sort that was just chosen or as before. -/
theorem follows_next (hlike : Likes scr scr') (h : Follows db scr (.followed ops scr i)) :
    Follows db scr' (.next (columnOf db) ops scr scr' i) := by
  rintro b' rfl
  obtain ⟨b, rfl, htable, hfilter⟩ := hlike b' rfl
  obtain ⟨t, ht, hk⟩ := h b rfl
  refine ⟨t, htable ▸ ht, ?_⟩
  unfold Intent.next Intent.chosen
  dsimp only
  split_ifs with hsort
  · exact ⟨hk.filter.trans (by rw [hfilter]), hk.column, hsort ▸ hk.sort⟩
  · refine ⟨hk.filter.trans (by rw [hfilter]), hk.column, fun c hc => ?_⟩
    obtain ⟨⟨ci, asc⟩, hs, hcol⟩ := Option.bind_eq_some_iff.mp hc
    refine ⟨ci, asc, hs, ?_⟩
    rw [htable, columnOf, ht] at hcol
    rw [List.getElem?_map]
    exact hcol

theorem follows_zip {stack kept : List Screen} {is : List Intent}
    (hlike : List.Forall₂ Likes stack kept)
    (h : List.Forall₂ (fun scr i => Follows db scr (.followed ops scr i)) stack is) :
    List.Forall₂ (Follows db) kept
      (List.zipWith (fun p i => .next (columnOf db) ops p.1 p.2 i) (stack.zip kept) is) := by
  induction hlike generalizing is with
  | nil => exact .nil
  | cons hl _ ih =>
      cases h with
      | cons hi hrest => exact .cons (follows_next hl hi) (ih hrest)

/-- The intents stay beside the stack. -/
theorem follows_turned {w : World} {stack stack' : List Screen} {is : List Intent}
    (hi : w.db.Intact) (ht : Turns w.db stack stack')
    (h : List.Forall₂ (fun scr i => Follows w.db scr (.followed ops scr i)) stack is) :
    List.Forall₂ (Follows w.db) stack' (Intent.turned (columnOf w.db) ops stack stack' is) := by
  unfold Intent.turned
  cases ht with
  | stays j hlike =>
      have hlen := hlike.length_eq
      rw [List.length_drop] at hlen
      have hcome : stack'.length - stack.length = 0 := by omega
      have hgone : stack.drop (stack.length - stack'.length) = stack.drop j := by
        by_cases hj : j ≤ stack.length
        · rw [← hlen, Nat.sub_sub_self hj]
        · rw [List.drop_eq_nil_of_le (by omega), List.drop_eq_nil_of_le (by omega)]
      dsimp only
      rw [hcome, List.take_zero, List.map_nil, List.nil_append, List.drop_zero]
      exact follows_zip (hgone ▸ hlike) (List.forall₂_drop _ h)
  | @opens kept scr hopen hlike =>
      have hlen := hlike.length_eq
      have hcome : (scr :: kept).length - stack.length = 1 := by
        rw [List.length_cons]
        omega
      have hgone : stack.length - (scr :: kept).length = 0 := by
        rw [List.length_cons]
        omega
      dsimp only
      rw [hcome, hgone]
      refine .cons ?_ (follows_zip hlike h)
      rintro b rfl
      exact kept_opened hi (hopen b rfl)

theorem length_turned {column : String → ℕ → Option String} {stack stack' : List Screen}
    {is : List Intent} (h : is.length = stack.length) :
    (Intent.turned column ops stack stack' is).length = stack'.length := by
  simp only [Intent.turned, List.length_append, List.length_map, List.length_take,
    List.length_zipWith, List.length_zip, List.length_drop]
  omega

end Stack

/-! ## Sessions -/

section Sessions

variable {w : World} {s s' : Session Disk}

theorem tableShown_eq {pg : Pager Disk} (h : w.At pg) (table : String) :
    tableShown pg table = (tableOf w.db table).map (·.schema) := by
  obtain ⟨pg', hrun, -⟩ := reads_getTable table pg h.mirrored
  unfold tableShown
  rw [hrun]

theorem columnShown_eq {pg : Pager Disk} (h : w.At pg) : columnShown pg = columnOf w.db := by
  funext table ci
  rw [columnShown, columnOf, tableShown_eq h]

theorem asks_eq (h : w.At s.store) (e : Ui.Event) : s.asks e = asked w.db s.desk.stack e := by
  cases e with
  | key k a =>
      unfold Session.asks asked
      rcases hstack : s.desk.stack with _ | ⟨scr, rest⟩
      · rfl
      · cases scr with
        | schema sch =>
            cases k with
            | char c =>
                simp only [askedOn, schemaAsk, columnShown, tableShown_eq h]
            | _ => rfl
        | prompt p => cases k <;> rfl
        | confirm action => cases k <;> rfl
        | _ => rfl
  | _ => rfl

/-- An edit that was carried out and should have been refused has changed no name. -/
theorem spared_of_refuses (h : w.At s.store) {op : Op RowId} {fresh : RowId} {a : Reply RowId}
    {db' : Database RowId} (hstep : w.db.step fresh op = (.ok a, db')) (hr : s.Refuses op)
    (t : Table) (b : Browser) (i : Intent) : b.Spared t i op := by
  have hi := h.mirrored.intact
  have hseen : ∀ {o : String} {u : Table}, tableShown s.store o = some u →
      ∃ v ∈ w.db, v.schema.name = o ∧ v.schema = u := by
    intro o u hu
    rw [tableShown_eq h] at hu
    obtain ⟨v, hv, rfl⟩ := Option.map_eq_some_iff.mp hu
    exact ⟨v, (tableOf_mem hv).1, (tableOf_mem hv).2, rfl⟩
  cases op with
  | renameColumn table old new =>
      have hok := (Database.edited_ok hstep).1
      rcases Database.renameColumn_ok hok with ⟨rfl, -⟩ | ⟨u, hu, hun, -, -, hnew, -⟩
      · exact fun _ _ _ _ _ => rfl
      · rcases hr with rfl | ⟨t', ht', c, hc, hcn⟩
        · rw [Database.renameColumn, Database.refuse_pos rfl] at hok
          cases hok
        · obtain ⟨v, hv, hvn, rfl⟩ := hseen ht'
          rw [List.inj_on_of_nodup_map hi.names hu hv (hun.trans hvn.symm)] at hnew
          exact absurd (hcn ▸ List.mem_map_of_mem hc) hnew
  | dropColumn table col =>
      obtain ⟨u, hu, hun, -, -, hfrom, hto, -⟩ :=
        Database.dropColumn_ok (Database.edited_ok hstep).1
      obtain ⟨o, t', ht', hkey⟩ := hr
      obtain ⟨v, hv, hvn, rfl⟩ := hseen ht'
      rcases hkey with ⟨rfl, hany⟩ | htargets
      · obtain ⟨fk, hfk, hcol⟩ := List.any_eq_true.mp hany
        rw [List.inj_on_of_nodup_map hi.names hu hv (hun.trans hvn.symm)] at hfrom
        exact absurd (eq_of_beq hcol) (hfrom fk hfk)
      · obtain ⟨fk, hfk, hkey⟩ := List.any_eq_true.mp htargets
        rw [Bool.and_eq_true] at hkey
        exact absurd (eq_of_beq hkey.2) (hto v hv fk hfk (eq_of_beq hkey.1))
  | _ => exact hr.elim

/-- The session stands on that world: the row cache is right, and the browsers
remember what they were asked for. -/
structure Fits (w : World) (s : Session Disk) : Prop where
  store : w.At s.store
  cache : CacheRight w s.desk
  upright : Upright w.led s.desk.stack
  intents : List.Forall₂ (Follows w.db) s.desk.stack s.intents

theorem fits_start {d : Disk} (hq : d.Quiet) {led : Ledger RowId} {pg : Pager Disk}
    (h : Reachable d led pg) : ∃ w, Fits w (Session.start pg) := by
  obtain ⟨db, hdb⟩ := h.mirrored hq
  refine ⟨⟨led, db, pg.sb.generation⟩, ⟨hdb, rfl⟩, fun c hc => ?_, Upright.bottom led 0, ?_⟩
  · cases hc
  · exact .cons (fun b hb => nomatch hb) .nil

/-- The calls of one event, and the intents after them. -/
theorem Fits.followed {w' : World} {desk' : Desk} (h : Fits w s) {e : Ui.Event} (he : s.Spares e)
    (hi' : w'.db.Intact) (hp : Pressed (asked w.db s.desk.stack e) w s.desk w' desk') :
    List.Forall₂ (Follows w'.db) desk'.stack
      (Intent.turned (columnOf w'.db)
        (desk'.carried.take (desk'.carried.length - s.desk.carried.length)) s.desk.stack desk'.stack
        s.intents) := by
  rcases hp.ops with ⟨rfl, hcar⟩ | ⟨op, a, hcar, hc, hasks, hdrop⟩
  · rw [hcar, Nat.sub_self, List.take_zero]
    refine follows_turned hi' hp.turns (h.intents.imp fun scr i hf => ?_)
    rintro b rfl
    exact hf b rfl
  · have htake : desk'.carried.take (desk'.carried.length - s.desk.carried.length) = [op] := by
      rw [hcar, List.length_cons, Nat.add_sub_cancel_left]
      rfl
    rw [htake]
    by_cases hd : ∃ n, op = .dropTable n
    · obtain ⟨n, hn⟩ := hd
      obtain ⟨m, hm⟩ := hdrop n hn
      rw [List.forall₂_iff_zip, hm]
      refine ⟨(length_turned h.intents.length_eq.symm).symm, fun {scr i} hmem => ?_⟩
      rintro b rfl
      cases List.mem_singleton.mp (List.of_mem_zip hmem).1
    · obtain ⟨fresh, hstep⟩ := hc.step
      refine follows_turned hi' hp.turns
        (List.forall₂_iff_zip.mpr ⟨h.intents.length_eq, fun {scr i} hmem => ?_⟩)
      rintro b rfl
      have hk := (List.forall₂_iff_zip.mp h.intents).2 hmem b rfl
      refine hk.call h.store.mirrored.intact hi' hstep (fun n hn => hd ⟨n, hn⟩) fun t ht => ?_
      cases hop : reshapes op with
      | false => exact spared_of_plain hop
      | true =>
          by_cases hr : s.Refuses op
          · exact spared_of_refuses h.store hstep hr _ _ _
          · refine he.edits op ((asks_eq h.store e).trans (hasks hop)) hr b i hmem t.schema ?_
            rw [tableShown_eq h.store, ht]
            rfl

theorem Fits.step (h : Fits w s) {e : Ui.Event} (he : s.Spares e) (hstep : s.step e = .ok s') :
    ∃ w', Fits w' s' := by
  unfold Session.step at hstep
  rcases hrun : handle e s.desk s.store with r | err | _ | _
  · obtain ⟨⟨u, desk'⟩, pg'⟩ := r
    rw [hrun] at hstep
    cases hstep
    have hcount : w.generation + 1 < 2 ^ 64 := by
      have hgen := he.counter
      rwa [show Store.generation s.store = w.generation from h.store.generation] at hgen
    obtain ⟨w', hpg', hp⟩ := leads_handle e h.cache hcount h.upright s.store h.store _ _ _ hrun
    refine ⟨w', hpg', hp.cache, hp.upright, ?_⟩
    dsimp only
    rw [columnShown_eq hpg']
    exact h.followed he hpg'.mirrored.intact hp
  · exact err.elim
  · rw [hrun] at hstep
    cases hstep
  · rw [hrun] at hstep
    cases hstep

theorem fits_of_reaches {s₀ : Session Disk} (h₀ : ∃ w, Fits w s₀) (h : Session.Reaches s₀ s) :
    ∃ w, Fits w s := by
  induction h with
  | start => exact h₀
  | event _ e he hstep ih =>
      obtain ⟨w, hw⟩ := ih
      exact hw.step he hstep

/-- The rows of a browser that remembers what it was asked for. -/
theorem met_of_kept {b : Browser} {i : Intent} (h : w.At s.store) (hk : Kept w.db b i) :
    ∃ t, tableShown s.store b.table = some t ∧
      i.Met t b (queried w.db b.table b.filter b.sort) := by
  obtain ⟨t, ht, hkept⟩ := hk
  obtain ⟨hmem, hname⟩ := tableOf_mem ht
  have hi := h.mirrored.intact
  have hnd : t.schema.names.Nodup := (hi.tables t hmem).columns
  have hf : ∀ f, b.filter = some f → f.1 ∈ t.schema.names := fun f hf =>
    hkept.column f.1 (by rw [hkept.filter, hf]; rfl)
  have hshown : queried w.db b.table b.filter b.sort = shownRows t b.filter b.sort := by
    obtain ⟨pg₁, hrun₁, -⟩ := reads_rows b.table b.filter b.sort s.store h.mirrored
    obtain ⟨pg₂, hrun₂, -⟩ := sees_rows hi hmem hf b.sort s.store h.mirrored
    rw [hname, hrun₁] at hrun₂
    injection hrun₂ with hpair
    exact congrArg Prod.fst hpair
  refine ⟨t.schema, by rw [tableShown_eq h, ht]; rfl, ?_, ?_⟩
  · intro col val hfilter r hr
    refine ⟨col, by rw [hkept.filter, hfilter]; rfl, ?_⟩
    rw [hshown, (shownRows_perm t b.filter b.sort).mem_iff, List.mem_filter, hfilter] at hr
    exact eq_of_beq hr.2
  · intro c hc
    obtain ⟨ci, asc, hsort, hci⟩ := hkept.sort c hc
    refine ⟨ci, asc, hsort, ?_⟩
    have hcell : ∀ row, t.schema.cell row c = cellAt row ci := fun row =>
      Table.cell_eq ((Table.columnIndex_eq_some hnd).mpr hci) row
    rw [hshown, hsort]
    refine (sortRows_inOrder ci asc _).ordered.imp fun {x y} hxy => ?_
    rw [hcell, hcell]
    exact hxy

/-- While no edit of columns moves what a browser remembers, and the commit counter
has not come to its end, the browser on top draws what it was asked for. -/
theorem browser_keeps_intent {d : Disk} (hq : d.Quiet) {led : Ledger RowId} {pg : Pager Disk}
    (h : Reachable d led pg) {s : Session Disk} (hs : Session.Reaches (Session.start pg) s)
    {b : Browser} {rest : List Screen} (htop : s.desk.stack = .browser b :: rest) :
    ∃ i is t rs desk pg', s.intents = i :: is ∧ tableShown s.store b.table = some t ∧
      drawnRows s.desk s.store = .ok ((rs, desk), pg') ∧ i.Met t b rs := by
  obtain ⟨w, hw⟩ := fits_of_reaches (fits_start hq h) hs
  have hintents := hw.intents
  rw [htop] at hintents
  obtain ⟨i, is, hf, -, his⟩ := List.forall₂_cons_left_iff.mp hintents
  obtain ⟨t, ht, hmet⟩ := met_of_kept hw.store (hf b rfl)
  obtain ⟨c, pg', hrun, -, -, hfresh, hcase⟩ :=
    cachedRows_run hw.store.mirrored b.table b.filter b.sort s.desk.rowCache
  have hrows : c.rows = queried w.db b.table b.filter b.sort := by
    rcases hcase with hsame | ⟨-, hnew⟩
    · obtain ⟨htable, hfilter, hsort, hgen⟩ := of_fresh hfresh
      rw [hw.store.generation] at hgen
      rw [(hw.cache c hsame).2 hgen, htable, hfilter, hsort]
    · exact hnew
  exact ⟨i, is, t, c.rows, { s.desk with rowCache := some c }, pg', his, ht,
    (drawnRows_run htop).trans (cached_run hrun), hrows ▸ hmet⟩

end Sessions

/-! ## Steps that come to an end -/

/-- A desk and a handle with these tables, on a volume of `n` pages. -/
structure Seen (n : ℕ) (w : World) (desk : Desk) (pg : Pager Disk) : Prop where
  store : w.At pg
  total : pg.sb.totalPages = n
  cache : CacheRight w desk

/-- The step comes to `a`, and nothing has changed but the row cache. -/
def Shows {α : Type} (n : ℕ) (w : World) (m : Ui Disk α) (a : α) : Prop :=
  ∀ desk pg, Seen n w desk pg → ∃ desk' pg', m desk pg = .ok ((a, desk'), pg') ∧
    Seen n w desk' pg' ∧ desk'.stack = desk.stack ∧ desk'.carried = desk.carried

section Steps

variable {α β : Type} {n : ℕ} {w : World}

theorem shows_pure (a : α) : Shows n w (pure a : Ui Disk α) a :=
  fun desk pg h => ⟨desk, pg, rfl, h, rfl, rfl⟩

theorem Shows.bind {m : Ui Disk α} {a : α} {f : α → Ui Disk β} {b : β} (hm : Shows n w m a)
    (hf : Shows n w (f a) b) : Shows n w (m >>= f) b := by
  intro desk pg h
  obtain ⟨d₁, pg₁, hrun₁, h₁, hs₁, hc₁⟩ := hm desk pg h
  obtain ⟨d₂, pg₂, hrun₂, h₂, hs₂, hc₂⟩ := hf d₁ pg₁ h₁
  exact ⟨d₂, pg₂, (ui_bind_run hrun₁ f).trans hrun₂, h₂, hs₂.trans hs₁, hc₂.trans hc₁⟩

theorem shows_onStore {m : Asking Disk α} {a : α} (hm : Reads w.led w.db m a) :
    Shows n w (onStore m) a := by
  intro desk pg h
  obtain ⟨pg', hrun, hstill, hclean⟩ := hm pg h.store.mirrored
  refine ⟨desk, pg', onStore_eq hrun, ⟨⟨h.store.mirrored.still hstill hclean, ?_⟩, ?_, h.cache⟩,
    rfl, rfl⟩
  · exact (congrArg Superblock.generation hstill.sb).trans h.store.generation
  · exact (congrArg Superblock.totalPages hstill.sb).trans h.total

theorem shows_cached (table : String) (filter : Option (String × Value))
    (sort : Option (ℕ × Bool)) :
    Shows n w (cached table filter sort) (queried w.db table filter sort) := by
  intro desk pg h
  obtain ⟨c, pg', hrun, hstill, hclean, -⟩ :=
    cachedRows_run h.store.mirrored table filter sort desk.rowCache
  have hcached := cached_run hrun
  obtain ⟨w', hpg', rfl, hs, hcar, hc, hrows⟩ :=
    looks_cached table filter sort desk h.cache pg h.store _ _ _ hcached
  rw [← hrows]
  exact ⟨_, pg', hcached, ⟨hpg', (congrArg Superblock.totalPages hstill.sb).trans h.total, hc⟩,
    rfl, rfl⟩

end Steps

/-! ## Keys that come to an end -/

/-- What a move makes of the stack. -/
def stackAfter (nav : Nav Screen) (stack : List Screen) : List Screen :=
  match nav with
  | .none => stack
  | .pop => if 1 < stack.length then stack.tail else stack
  | .push scr => scr :: stack
  | .popToList => stack.dropWhile fun scr => !scr.isList

/-- A session with these tables, this stack and these intents. -/
structure Stands (n : ℕ) (w : World) (stack : List Screen) (is : List Intent)
    (s : Session Disk) : Prop where
  seen : Seen n w s.desk s.store
  stack : s.desk.stack = stack
  intents : s.intents = is

section Keys

variable {n : ℕ} {w : World} {s : Session Disk} {scr : Screen} {rest : List Screen}
  {is : List Intent}

theorem back_run {scr : Screen} {nav : Nav Screen} (desk : Desk) (pg : Pager Disk) :
    back scr nav desk pg =
      .ok (((), { desk with stack := stackAfter nav (scr :: desk.stack.tail) }), pg) := by
  cases nav <;> rfl

/-- An event that has come to its end. -/
theorem step_run {e : Ui.Event} {desk' : Desk} {pg' : Pager Disk}
    (h : handle e s.desk s.store = .ok (((), desk'), pg')) :
    s.step e = .ok ⟨desk', pg', Intent.turned (columnShown pg')
      (desk'.carried.take (desk'.carried.length - s.desk.carried.length)) s.desk.stack desk'.stack
        s.intents⟩ := by
  unfold Session.step
  rw [h]
  rfl

theorem onKey_run {a : Around} {k : Ps2.Key} {desk : Desk} (pg : Pager Disk)
    (h : desk.stack = scr :: rest) : onKey a k desk pg = keyOn a k scr desk pg := by
  have hget : (get : Ui Disk Desk) desk pg = .ok ((desk, desk), pg) := rfl
  unfold onKey
  rw [ui_bind_run hget, h]

/-- A key that the screen on top answers by looking. -/
theorem Stands.look {α : Type} {a : Around} {k : Ps2.Key} {m : Ui Disk α} {x : α}
    {scr' : α → Screen} {nav : α → Nav Screen} (h : Stands n w (scr :: rest) is s)
    (hkey : keyOn a k scr = m >>= fun x => back (scr' x) (nav x)) (hm : Shows n w m x)
    {stack : List Screen} (hstack : stackAfter (nav x) (scr' x :: rest) = stack) :
    ∃ s', s.step (.key k a) = .ok s' ∧
      Stands n w stack (Intent.turned (columnOf w.db) [] (scr :: rest) stack is) s' := by
  obtain ⟨d₁, pg₁, hrun, h₁, hs, hcar⟩ := hm s.desk s.store h.seen
  have hend : handle (.key k a) s.desk s.store =
      .ok (((), { d₁ with stack := stack }), pg₁) := by
    show onKey a k s.desk s.store = _
    rw [onKey_run _ h.stack, hkey, ui_bind_run hrun, back_run, hs, h.stack, List.tail_cons, hstack]
  refine ⟨_, step_run hend, ⟨h₁.store, h₁.total, h₁.cache⟩, rfl, ?_⟩
  show Intent.turned (columnShown pg₁) (d₁.carried.take _) s.desk.stack stack s.intents = _
  rw [columnShown_eq h₁.store, hcar, Nat.sub_self, List.take_zero, h.stack, h.intents]

end Keys

/-! ## Two people -/

section Family

variable {ann bob : RowId} {g : ℕ} {w : World} {s : Session Disk} {rest : List Screen}
  {is : List Intent}

/-- What is pressed, with ten rows to see. -/
def pressed (k : Ps2.Key) : Ui.Event := .key k ⟨10, none, false, .none⟩

/-- A key on a browser. -/
theorem Stands.browser {w : World} {b b' : Browser} {k : Ps2.Key} {nav : Nav Screen}
    (h : Stands n w (.browser b :: rest) is s) (hm : Shows n w (browserKey 10 b k) (b', nav)) :
    ∃ s', s.step (pressed k) = .ok s' ∧ Stands n w (stackAfter nav (.browser b' :: rest))
      (Intent.turned (columnOf w.db) [] (.browser b :: rest) (stackAfter nav (.browser b' :: rest))
        is) s' := by
  have hkey : keyOn ⟨10, none, false, .none⟩ k (.browser b) =
      (browserKey 10 b k >>= fun r => back (.browser r.1) r.2 : Ui Disk Unit) := rfl
  exact h.look hkey hm rfl

/-- The world of the two. -/
def familyWorld (ann bob : RowId) (g : ℕ) : World :=
  ⟨[("people", ann), ("people", bob)], family ann bob, g⟩

/-- The browser over all people. -/
def allPeople : Browser := ⟨"people", 0, 0, 0, none, none⟩

/-- The browser over Ann's children. -/
def childrenOfAnn : Browser := ⟨"people", 0, 0, 0, some ("parent", .str "Ann"), none⟩

theorem shows_getTable (table : String) :
    Shows n w (onStore (getTable table)) ((tableOf w.db table).map (·.schema)) :=
  shows_onStore (reads_getTable table)

/-- What is asked for on the table list and on a row: nothing. -/
def nothing : Intent := ⟨none, none⟩

theorem enter_list (h : Stands n (familyWorld ann bob g) [.list 0] [nothing] s) :
    ∃ s', s.step (pressed .enter) = .ok s' ∧ Stands n (familyWorld ann bob g)
      [.browser allPeople, .list 0] [nothing, nothing] s' := by
  have hnames : Shows n (familyWorld ann bob g) tableNames ["people"] :=
    (shows_onStore (@reads_ask _ _ .listTables rfl trivial)).bind (shows_pure _)
  have hkey : Shows n (familyWorld ann bob g) (listKey ⟨10, none, false, .none⟩ 0 .enter)
      (0, .push (.browser allPeople)) := hnames.bind (shows_pure _)
  exact h.look rfl hkey rfl

theorem enter_browser (h : Stands n (familyWorld ann bob g) [.browser allPeople, .list 0]
    [nothing, nothing] s) :
    ∃ s', s.step (pressed .enter) = .ok s' ∧ Stands n (familyWorld ann bob g)
      [.rowView ⟨"people", ann, 0⟩, .browser allPeople, .list 0]
      [nothing, nothing, nothing] s' := by
  have hrows : Shows n (familyWorld ann bob g) (cached "people" none none)
      [(ann, [some (.str "Ann"), none]), (bob, [some (.str "Bob"), some (.str "Ann")])] :=
    shows_cached "people" none none
  have hunder : Shows n (familyWorld ann bob g) (rowUnder allPeople) ann :=
    hrows.bind ((shows_onStore (reads_pure _)).bind (shows_pure _))
  have hhandle : Shows n (familyWorld ann bob g) (browserHandle 10 allPeople 2 2 .enter)
      (allPeople, .push (.rowView ⟨"people", ann, 0⟩)) := hunder.bind (shows_pure _)
  have hkey : Shows n (familyWorld ann bob g) (browserKey 10 allPeople .enter)
      (allPeople, .push (.rowView ⟨"people", ann, 0⟩)) :=
    (shows_getTable "people").bind (hrows.bind (hhandle.bind (shows_pure _)))
  exact h.browser hkey

/-- Enter on Ann's row leads to the rows that refer to it. -/
theorem reads_children {led : Ledger RowId} {pg : Pager Disk}
    (h : Mirrored led pg (family ann bob)) :
    Sees led (family ann bob) (RowView.dispatch ⟨"people", ann, 0⟩ .enter)
      (⟨"people", ann, 0⟩, .push childrenOfAnn) := by
  obtain ⟨out, inc, hsees, hout, hinc⟩ := sees_navTargets h (List.mem_singleton_self _)
    (show (ann, [some (.str "Ann"), none]) ∈ _ from List.mem_cons_self)
  have hkeys : valuedKeys people [some (.str "Ann"), none] = [] := rfl
  have hrefs : (family ann bob).flatMap (fun o => o.schema.fks.flatMap
      (Database.referencingBy ⟨people, [(ann, [some (.str "Ann"), none]),
        (bob, [some (.str "Bob"), some (.str "Ann")])], [ann, bob]⟩ [some (.str "Ann"), none] o)) =
      [("people", "parent_fk", bob, [some (.str "Bob"), some (.str "Ann")])] := rfl
  have hnone : out = [] := List.forall₂_nil_left_iff.mp (hkeys ▸ hout)
  rw [hrefs] at hinc
  obtain ⟨e, inc', he, hnil, rfl⟩ := List.forall₂_cons_left_iff.mp hinc
  obtain rfl := List.forall₂_nil_left_iff.mp hnil
  subst hnone
  obtain ⟨u, hu, fk, hfk, -, -, -, hval, htable, hcol⟩ := he.key
  obtain rfl := List.mem_singleton.mp hu
  obtain rfl := List.mem_singleton.mp hfk
  obtain ⟨label, tbl, col, val⟩ := e
  obtain rfl : tbl = "people" := htable
  obtain rfl : col = "parent" := hcol
  obtain rfl : .str "Ann" = val := Option.some_inj.mp hval
  exact hsees.bind (sees_pure _)

theorem shows_children : Shows n (familyWorld ann bob g)
    (onStore (RowView.dispatch ⟨"people", ann, 0⟩ .enter))
      (⟨"people", ann, 0⟩, .push childrenOfAnn) := by
  intro desk pg h
  obtain ⟨pg', hrun, -⟩ := reads_children h.store.mirrored pg h.store.mirrored
  have he : ("people", ann) ∈ (familyWorld ann bob g).led := List.mem_cons_self
  obtain ⟨hstill, hclean, -⟩ := @peeks_dispatch _ _ h.store.mirrored.intact ⟨"people", ann, 0⟩ he
    .enter pg h.store.mirrored _ _ hrun
  refine ⟨desk, pg', onStore_eq hrun, ⟨⟨h.store.mirrored.still hstill hclean, ?_⟩, ?_, h.cache⟩,
    rfl, rfl⟩
  · exact (congrArg Superblock.generation hstill.sb).trans h.store.generation
  · exact (congrArg Superblock.totalPages hstill.sb).trans h.total

/-- The stack with the browser over Ann's children on top. -/
def overChildren (ann : RowId) : List Screen :=
  [.browser childrenOfAnn, .rowView ⟨"people", ann, 0⟩, .browser allPeople, .list 0]

theorem enter_row (h : Stands n (familyWorld ann bob g)
    [.rowView ⟨"people", ann, 0⟩, .browser allPeople, .list 0] [nothing, nothing, nothing] s) :
    ∃ s', s.step (pressed .enter) = .ok s' ∧ Stands n (familyWorld ann bob g) (overChildren ann)
      [⟨some "parent", none⟩, nothing, nothing, nothing] s' :=
  h.look rfl shows_children rfl

/-! ## A column renamed underneath -/

/-- The intents while the schema screen, or a prompt too, is above the browser. -/
def beneath (n : ℕ) (filter : String) : List Intent :=
  List.replicate n nothing ++ [⟨some filter, none⟩, nothing, nothing, nothing]

/-- The column at a position, and a new name for it. -/
inductive Renaming : ℕ → String → String → Prop where
  | name : Renaming 0 "name" "namex"
  | parent : Renaming 1 "parent" "parentx"

variable {sel : ℕ} {old new : String}

theorem schema_browser (h : Stands n (familyWorld ann bob g) (overChildren ann)
    (beneath 0 "parent") s) :
    ∃ s', s.step (pressed (.char 's')) = .ok s' ∧ Stands n (familyWorld ann bob g)
      (.schema ⟨"people", 0⟩ :: overChildren ann) (beneath 1 "parent") s' := by
  have hrows : Shows n (familyWorld ann bob g) (cached "people" (some ("parent", .str "Ann")) none)
      [(bob, [some (.str "Bob"), some (.str "Ann")])] :=
    shows_cached "people" (some ("parent", .str "Ann")) none
  have hkey : Shows n (familyWorld ann bob g) (browserKey 10 childrenOfAnn (.char 's'))
      (childrenOfAnn, .push (.schema ⟨"people", 0⟩)) :=
    (shows_getTable "people").bind (hrows.bind (shows_pure _))
  exact h.browser hkey

theorem down_schema (h : Stands n (familyWorld ann bob g)
    (.schema ⟨"people", 0⟩ :: overChildren ann) (beneath 1 "parent") s) :
    ∃ s', s.step (pressed .down) = .ok s' ∧ Stands n (familyWorld ann bob g)
      (.schema ⟨"people", 1⟩ :: overChildren ann) (beneath 1 "parent") s' := by
  have hkey : Shows n (familyWorld ann bob g) (schemaKey ⟨"people", 0⟩ .down)
      (⟨"people", 1⟩, .none) := (shows_getTable "people").bind (shows_pure _)
  exact h.look rfl hkey rfl

/-- The prompt for a new name of the column. -/
def renamePrompt (old : String) (text : Chars) : Screen :=
  .prompt ⟨text, text.length, .renameColumn "people" old⟩

theorem rename_schema (hc : Renaming sel old new) (h : Stands n (familyWorld ann bob g)
    (.schema ⟨"people", sel⟩ :: overChildren ann) (beneath 1 "parent") s) :
    ∃ s', s.step (pressed (.char 'r')) = .ok s' ∧ Stands n (familyWorld ann bob g)
      (renamePrompt old old.toList :: .schema ⟨"people", sel⟩ :: overChildren ann)
      (beneath 2 "parent") s' := by
  have hkey : Shows n (familyWorld ann bob g) (schemaKey ⟨"people", sel⟩ (.char 'r'))
      (⟨"people", sel⟩, .push (renamePrompt old old.toList)) := by
    cases hc <;> exact (shows_getTable "people").bind (shows_pure _)
  exact h.look rfl hkey rfl

theorem type_prompt (hc : Renaming sel old new) (h : Stands n (familyWorld ann bob g)
    (renamePrompt old old.toList :: .schema ⟨"people", sel⟩ :: overChildren ann)
    (beneath 2 "parent") s) :
    ∃ s', s.step (pressed (.char 'x')) = .ok s' ∧ Stands n (familyWorld ann bob g)
      (renamePrompt old new.toList :: .schema ⟨"people", sel⟩ :: overChildren ann)
      (beneath 2 "parent") s' := by
  refine @Stands.look _ _ _ _ _ _ _ _ _ (pure ()) () (fun _ => renamePrompt old new.toList)
    (fun _ => .none) h ?_ (shows_pure ()) _ rfl
  cases hc <;> rfl

/-- The two after the renaming. -/
def renamedFamily (ann bob : RowId) (old new : String) : Database RowId :=
  [⟨renameIn "people" old new true people,
    [(ann, [some (.str "Ann"), none]), (bob, [some (.str "Bob"), some (.str "Ann")])], [ann, bob]⟩]

/-- The world of the two after the renaming. -/
def renamedWorld (ann bob : RowId) (old new : String) (g : ℕ) : World :=
  ⟨[("people", ann), ("people", bob)], renamedFamily ann bob old new, g⟩

theorem rename_room (hc : Renaming sel old new) :
    Roomy 2100 (family ann bob) (.renameColumn "people" old new) := by
  have hcat : Database.catalogPages (family ann bob) = Database.catalogPages
      (family ⟨0, 0⟩ ⟨0, 0⟩) := rfl
  have hpages : Database.pages (family ann bob) = Database.pages (family ⟨0, 0⟩ ⟨0, 0⟩) := rfl
  have hfits : nchunks (renameIn "people" old new true people).encode +
      Database.catalogPages (family ann bob) + Database.pages (family ann bob) ≤
      2100 - Journal.firstDataPage := by
    rw [hcat, hpages]
    cases hc <;> decide
  cases hc <;>
    exact @roomy_rename 2100 ⟨people, _, [ann, bob]⟩ _ _ (by decide) (by decide) rfl rfl hfits

theorem rename_step (hc : Renaming sel old new) (fresh : RowId) :
    (family ann bob).step fresh (.renameColumn "people" old new) =
      (.ok .done, renamedFamily ann bob old new) := by
  cases hc <;> rfl

theorem carry_run {op : Op RowId} {a : Reply RowId} {desk : Desk} {pg : Pager Disk}
    (h : (run op pg).1 = .ok a) : carry op desk pg =
      .ok ((.ok a, { desk with carried := op :: desk.carried }), (run op pg).2) := by
  have hask : ask op pg = .ok (.ok a, (run op pg).2) := by
    unfold Asking.ask
    rcases hop : run op pg with ⟨o, pg'⟩
    rw [hop] at h
    rw [show o = _ from h]
  unfold carry
  rw [ui_bind_run (onStore_eq hask)]
  rfl

theorem enter_prompt (hg : g + 1 < 2 ^ 64) (hc : Renaming sel old new)
    (h : Stands 2100 (familyWorld ann bob g)
      (renamePrompt old new.toList :: .schema ⟨"people", sel⟩ :: overChildren ann)
      (beneath 2 "parent") s) :
    ∃ s', s.step (pressed .enter) = .ok s' ∧ Stands 2100 (renamedWorld ann bob old new (g + 1))
      (.schema ⟨"people", sel⟩ :: overChildren ann)
      (beneath 1 (if old = "parent" then new else "parent")) s' := by
  obtain ⟨fresh, a, db', -, hstep, hrun, hnext, htotal, hgen⟩ :=
    run_roomy h.seen.store.mirrored h.seen.total (by decide)
      (.renameColumn "people" old new) trivial (rename_room hc)
  have hdb := (rename_step hc fresh).symm.trans hstep
  injection hdb with ha hdb
  injection ha with ha
  subst ha hdb
  rw [show s.store.sb.generation = g from h.seen.store.generation, Nat.mod_eq_of_lt hg] at hgen
  have hpop : pop s.desk s.store = .ok (((), { s.desk with
      stack := .schema ⟨"people", sel⟩ :: overChildren ann }), s.store) := by
    show Outcome.ok (((), { s.desk with
      stack := if 1 < s.desk.stack.length then s.desk.stack.tail else s.desk.stack }), s.store) = _
    rw [h.stack]
    rfl
  have hend : handle (pressed .enter) s.desk s.store = .ok (((), { s.desk with
      stack := .schema ⟨"people", sel⟩ :: overChildren ann
      carried := .renameColumn "people" old new :: s.desk.carried }),
      (run (.renameColumn "people" old new) s.store).2) := by
    have hkey : keyOn ⟨10, none, false, .none⟩ .enter (renamePrompt old new.toList) =
        (pop >>= fun _ => (carry (.renameColumn "people" old new) >>= fun _ => pure ()) :
          Ui Disk Unit) := by
      cases hc <;> rfl
    show onKey _ _ s.desk s.store = _
    rw [onKey_run _ h.stack, hkey, ui_bind_run hpop, ui_bind_run (carry_run hrun)]
    rfl
  have hcarries : Carries (familyWorld ann bob g) (.renameColumn "people" old new) .done
      (renamedWorld ann bob old new (g + 1)) :=
    ⟨⟨fresh, hstep⟩, rfl, Or.inl (Nat.mod_eq_of_lt hg).symm⟩
  refine ⟨_, step_run hend, ⟨⟨hnext, hgen⟩, htotal, cacheRight_carried h.seen.cache hg hcarries⟩,
    rfl, ?_⟩
  show Intent.turned _ (List.take _ (.renameColumn "people" old new :: s.desk.carried))
    s.desk.stack _ s.intents = _
  rw [List.length_cons, Nat.add_sub_cancel_left, h.stack, h.intents]
  cases hc <;> rfl

theorem esc_schema {filter : String} (hc : Renaming sel old new)
    (h : Stands n (renamedWorld ann bob old new g) (.schema ⟨"people", sel⟩ :: overChildren ann)
      (beneath 1 filter) s) :
    ∃ s', s.step (pressed .esc) = .ok s' ∧
      Stands n (renamedWorld ann bob old new g) (overChildren ann) (beneath 0 filter) s' := by
  have hkey : Shows n (renamedWorld ann bob old new g) (schemaKey ⟨"people", sel⟩ .esc)
      (⟨"people", sel⟩, .pop) := by
    cases hc <;> exact (shows_getTable "people").bind (shows_pure _)
  exact h.look rfl hkey rfl

/-! ## The whole session -/

theorem stands_start {led : Ledger RowId} {pg : Pager Disk} {db : Database RowId}
    (h : Seated wideDisk 2100 led pg db) :
    Stands 2100 ⟨led, db, pg.sb.generation⟩ [.list 0] [nothing] (Session.start pg) :=
  ⟨⟨⟨h.mirrored, rfl⟩, h.total, fun c hc => by cases hc⟩, rfl, rfl⟩

/-- An event that asks for no edit of columns. -/
theorem Stands.spares {w : World} {stack : List Screen} {e : Ui.Event} (h : Stands n w stack is s)
    (hg : w.generation + 1 < 2 ^ 64) (hask : asked w.db stack e = none) : s.Spares e := by
  refine ⟨?_, fun op hop => ?_⟩
  · rw [show Store.generation s.store = w.generation from h.seen.store.generation]
    exact hg
  · rw [asks_eq h.seen.store, h.stack, hask] at hop
    cases hop

/-- An edit that spares every browser beneath. -/
theorem Stands.spares_edit {w : World} {stack : List Screen} {e : Ui.Event} {op : Op RowId}
    (h : Stands n w stack is s) (hg : w.generation + 1 < 2 ^ 64)
    (hask : asked w.db stack e = some op)
    (hop : ∀ b i, (.browser b, i) ∈ stack.zip is → ∀ t, b.Spared t i op) : s.Spares e := by
  refine ⟨?_, fun op' hop' _ b i hmem t _ => ?_⟩
  · rw [show Store.generation s.store = w.generation from h.seen.store.generation]
    exact hg
  · rw [asks_eq h.seen.store, h.stack, hask] at hop'
    cases hop'
    rw [h.stack, h.intents] at hmem
    exact hop b i hmem t

theorem run_cons {e : Ui.Event} {s' : Session Disk} (h : s.step e = .ok s') (es : List Ui.Event) :
    Session.run (e :: es) s = Session.run es s' := by
  show (s.step e >>= Session.run es) = _
  rw [h]
  rfl

end Family

/-- Ann's children are listed, and the column of the names is renamed underneath. -/
theorem browser_keeps_intent_children : ∃ (pg : Pager Disk) (s : Session Disk) (b : Browser)
    (rest : List Screen) (i : Intent) (is : List Intent) (t : Table) (rs : List (RowId × Row))
    (desk : Desk) (pg' : Pager Disk), Session.Reaches (Session.start pg) s ∧
      s.desk.stack = .browser b :: rest ∧ b.filter = some ("parent", .str "Ann") ∧
      s.intents = i :: is ∧ tableShown s.store b.table = some t ∧ t.names = ["namex", "parent"] ∧
      drawnRows s.desk s.store = .ok ((rs, desk), pg') ∧ i.Met t b rs := by
  obtain ⟨ann, bob, pg, h, hg⟩ := family_fresh
  have hg' : pg.sb.generation + 1 < 2 ^ 64 := by omega
  have h₀ := stands_start h
  obtain ⟨s₁, hstep₁, h₁⟩ := enter_list h₀
  obtain ⟨s₂, hstep₂, h₂⟩ := enter_browser h₁
  obtain ⟨s₃, hstep₃, h₃⟩ := enter_row h₂
  obtain ⟨s₄, hstep₄, h₄⟩ := schema_browser h₃
  obtain ⟨s₅, hstep₅, h₅⟩ := rename_schema .name h₄
  obtain ⟨s₆, hstep₆, h₆⟩ := type_prompt .name h₅
  obtain ⟨s₇, hstep₇, h₇⟩ := enter_prompt hg' .name h₆
  obtain ⟨s₈, hstep₈, h₈⟩ := esc_schema .name h₇
  -- the browser of the children filters by the other column
  have hspares : s₆.Spares (pressed .enter) := by
    refine @Stands.spares_edit _ _ _ _ _ _ _ h₆ hg' rfl fun b i hmem t _ c val hfilter hc => ?_
    subst hc
    have hb : b = childrenOfAnn ∧ i = ⟨some "parent", none⟩ ∨ b = allPeople ∧ i = nothing := by
      simpa [overChildren, beneath, renamePrompt, nothing] using hmem
    rcases hb with ⟨rfl, -⟩ | ⟨rfl, -⟩
    · have hcol : some "parent" = some "name" := congrArg (Option.map Prod.fst) hfilter
      exact absurd hcol (by decide)
    · cases hfilter
  have hg₈ : pg.sb.generation + 1 + 1 < 2 ^ 64 := by omega
  have hreach : Session.Reaches (Session.start pg) s₈ :=
    (((((((Session.Reaches.start.event _ (h₀.spares hg' rfl) hstep₁).event _ (h₁.spares hg' rfl)
      hstep₂).event _ (h₂.spares hg' rfl) hstep₃).event _ (h₃.spares hg' rfl) hstep₄).event _
      (h₄.spares hg' rfl) hstep₅).event _ (h₅.spares hg' rfl) hstep₆).event _ hspares
      hstep₇).event _ (h₇.spares hg₈ rfl) hstep₈
  obtain ⟨i, is, t, rs, desk, pg', his, ht, hdraw, hmet⟩ :=
    browser_keeps_intent wideDisk_quiet h.reach hreach h₈.stack
  have hshown := (tableShown_eq h₈.seen.store "people").symm.trans ht
  cases hshown
  exact ⟨pg, s₈, childrenOfAnn, _, i, is, _, rs, desk, pg', hreach, h₈.stack, rfl, his, ht, rfl,
    hdraw, hmet⟩

/-- To Ann's children, then to the schema and a new name for the parent column, and
back. -/
def nineKeys : List Ui.Event :=
  [pressed .enter, pressed .enter, pressed .enter, pressed (.char 's'), pressed .down,
    pressed (.char 'r'), pressed (.char 'x'), pressed .enter, pressed .esc]

/-- After nine keys a browser over Ann's children lists Ann as well. -/
theorem renamed_filter_lists_all : ∃ (led : Ledger RowId) (pg : Pager Disk) (s : Session Disk)
    (b : Browser) (rest : List Screen) (i : Intent) (is : List Intent) (t : Table)
    (rs : List (RowId × Row)) (desk : Desk) (pg' : Pager Disk), Reachable wideDisk led pg ∧
      Session.run nineKeys (Session.start pg) = .ok s ∧ s.desk.stack = .browser b :: rest ∧
      b.filter = some ("parent", .str "Ann") ∧ s.intents = i :: is ∧ i.filter = some "parentx" ∧
      tableShown s.store b.table = some t ∧ drawnRows s.desk s.store = .ok ((rs, desk), pg') ∧
      (∃ r ∈ rs, t.cell r.2 "parentx" ≠ some (.str "Ann")) ∧ ¬ i.Met t b rs := by
  obtain ⟨ann, bob, pg, h, hg⟩ := family_fresh
  have hg' : pg.sb.generation + 1 < 2 ^ 64 := by omega
  obtain ⟨s₁, hstep₁, h₁⟩ := enter_list (stands_start h)
  obtain ⟨s₂, hstep₂, h₂⟩ := enter_browser h₁
  obtain ⟨s₃, hstep₃, h₃⟩ := enter_row h₂
  obtain ⟨s₄, hstep₄, h₄⟩ := schema_browser h₃
  obtain ⟨s₅, hstep₅, h₅⟩ := down_schema h₄
  obtain ⟨s₆, hstep₆, h₆⟩ := rename_schema .parent h₅
  obtain ⟨s₇, hstep₇, h₇⟩ := type_prompt .parent h₆
  obtain ⟨s₈, hstep₈, h₈⟩ := enter_prompt hg' .parent h₇
  obtain ⟨s₉, hstep₉, h₉⟩ := esc_schema .parent h₈
  have hrun : Session.run nineKeys (Session.start pg) = .ok s₉ :=
    (run_cons hstep₁ _).trans <| (run_cons hstep₂ _).trans <| (run_cons hstep₃ _).trans <|
      (run_cons hstep₄ _).trans <| (run_cons hstep₅ _).trans <| (run_cons hstep₆ _).trans <|
        (run_cons hstep₇ _).trans <| (run_cons hstep₈ _).trans <| (run_cons hstep₉ _).trans rfl
  -- the old name is no column, and every row passes
  have hall : Shows 2100 (renamedWorld ann bob "parent" "parentx" (pg.sb.generation + 1))
      (cached "people" (some ("parent", .str "Ann")) none)
      [(ann, [some (.str "Ann"), none]), (bob, [some (.str "Bob"), some (.str "Ann")])] :=
    shows_cached "people" (some ("parent", .str "Ann")) none
  obtain ⟨desk, pg', hcached, -⟩ := hall s₉.desk s₉.store h₉.seen
  have hdraw : drawnRows s₉.desk s₉.store = .ok ((_, desk), pg') :=
    (drawnRows_run h₉.stack).trans hcached
  have hann : Table.cell (renameIn "people" "parent" "parentx" true people)
      [some (.str "Ann"), none] "parentx" ≠ some (.str "Ann") := by
    show (none : Option Value) ≠ some (.str "Ann")
    exact (Option.some_ne_none _).symm
  refine ⟨_, pg, s₉, childrenOfAnn, _, _, _, _, _, desk, pg', h.reach, hrun, h₉.stack, rfl,
    h₉.intents, rfl, tableShown_eq h₉.seen.store "people", hdraw, ⟨_, List.mem_cons_self, hann⟩, ?_⟩
  intro hmet
  obtain ⟨c, hc, hcell⟩ := hmet.filter "parent" (.str "Ann") rfl _ List.mem_cons_self
  cases hc
  exact hann hcell

end Views

end TablesOS
