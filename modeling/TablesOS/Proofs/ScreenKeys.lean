import TablesOS.Proofs.ScreenSteps

/-!
# The screens, key by key

One lemma for each screen's handler. The table list, the browser and the row view
only look; the schema screen and the label make one call each; the other screens
work on the stack as well, and come to what a key may come to by themselves.
-/

namespace TablesOS

open Store Pager

namespace Views

open Asking Ui

variable {w w' : World} {desk desk' : Desk} {asks : Option (Op RowId)}

/-- A screen that holds no rows. -/
theorem likes_other {scr scr' : Screen} (h : ∀ b, scr' ≠ .browser b) :
    Likes scr scr' :=
  fun b hb => absurd hb (h b)

/-! ## The table list -/

theorem looks_tableNames :
    Looks w (tableNames : Ui Disk _) fun names => ∀ n ∈ names, ∃ t ∈ w.db, t.schema.name = n :=
  fun _ hc => leads_tableNames fun _ h => ⟨rfl, rfl, rfl, hc, h⟩

/-- A browser as it is opened on a table. -/
theorem opening_plain {table : String} (h : ∃ t ∈ w.db, t.schema.name = table) :
    Opening w (.browser ⟨table, 0, 0, 0, none, none⟩) := by
  refine ⟨fun b hb => ?_, trivial, rfl⟩
  cases hb
  exact ⟨rfl, h, fun c val hf => by cases hf⟩

theorem listLetter_pushes (a : Around) (c : Char) :
    listLetter a c ≠ .pop ∧ Pushes w (listLetter a c) := by
  unfold listLetter
  split_ifs
  · exact ⟨(fun h => nomatch h), pushes_push (opening_other (fun _ h => nomatch h) trivial rfl)⟩
  · exact ⟨(fun h => nomatch h), pushes_push (opening_other (fun _ h => nomatch h) trivial rfl)⟩
  · exact ⟨(fun h => nomatch h), pushes_push (opening_other (fun _ h => nomatch h) trivial rfl)⟩
  · exact ⟨(fun h => nomatch h), pushes_push (opening_other (fun _ h => nomatch h) trivial rfl)⟩
  · exact ⟨(fun h => nomatch h), pushes_none⟩

theorem handed_list {sel sel' : ℕ} {nav : Nav Screen} (h : nav ≠ .pop ∧ Pushes w nav) :
    Handed w (.list sel) (.list sel') nav :=
  ⟨likes_other (fun _ h => nomatch h), trivial, rfl, fun hpop => absurd hpop h.1, h.2⟩

theorem looks_listKey (a : Around) (sel : ℕ) (k : Ps2.Key) :
    Looks w (listKey a sel k : Ui Disk _) fun r => Handed w (.list sel) (.list r.1) r.2 := by
  have hstay : (.none : Nav Screen) ≠ .pop ∧ Pushes w .none := ⟨(fun h => nomatch h), pushes_none⟩
  refine looks_tableNames.bind fun names hnames => looks_pure ?_
  split
  · exact handed_list hstay
  · exact handed_list hstay
  · split
    · next t ht =>
        have hopen := opening_plain (hnames t (List.mem_of_getElem? ht))
        exact handed_list ⟨(fun h => nomatch h), pushes_push hopen⟩
    · exact handed_list hstay
  · exact handed_list (listLetter_pushes a _)
  · exact handed_list hstay

/-! ## The browser -/

/-- A browser that shows the same table and filter. -/
structure Same (b b' : Browser) : Prop where
  table : b'.table = b.table
  filter : b'.filter = b.filter

theorem Same.likes {b b' : Browser} (h : Same b b') : Likes (.browser b) (.browser b') := by
  intro b₁ hb
  cases hb
  exact ⟨b, rfl, h.table, h.filter⟩

theorem looks_order (b : Browser) : Looks w (order b : Ui Disk _) (Same b) := by
  refine (looks_cached _ _ _).bind fun rs _ => ?_
  dsimp only
  split
  · exact looks_pure ⟨rfl, rfl⟩
  · exact (looks_cached _ _ _).bind fun rs' _ => looks_pure ⟨rfl, rfl⟩

/-- The row under the cursor is one that the table has given out. -/
theorem looks_rowUnder (b : Browser) :
    Looks w (rowUnder b : Ui Disk _) fun id => (b.table, id) ∈ w.led := by
  refine looks_known fun hw => (looks_cached _ _ _).bind fun rs hrs => ?_
  refine (looks_onStore (peeks_indexed _)).bind fun r hr => looks_pure ?_
  exact queried_given hw (hrs ▸ List.mem_of_getElem? hr)

theorem looks_openEditorOn {table : String} {id : Option RowId}
    (h : ∀ i, id = some i → (table, i) ∈ w.led) :
    Looks w (openEditorOn table id : Ui Disk _) (Pushes w) := by
  refine (looks_onStore (peeks_openEditor h)).bind fun o ho => looks_pure ?_
  cases o with
  | none => exact pushes_none
  | some ed =>
      obtain ⟨htable, hid⟩ := ho ed rfl
      refine pushes_push (opening_other (fun _ h => nomatch h) (fun i hi => ?_) rfl)
      rw [htable]
      exact h i (hid ▸ hi)

/-- What the browser hands back. -/
def BrowserHanded (w : World) (b : Browser) (r : Browser × Nav Screen) : Prop :=
  Same b r.1 ∧ Pushes w r.2

theorem looks_browserLetter (b : Browser) (nrows ncols : ℕ) (c : Char) :
    Looks w (browserLetter b nrows ncols c : Ui Disk _) (BrowserHanded w b) := by
  have hsame : Same b b := ⟨rfl, rfl⟩
  unfold browserLetter
  split_ifs with ho hi hu hd hs
  · exact (looks_order b).bind fun b' hb' => looks_pure ⟨hb', pushes_none⟩
  · have hopen : Looks w (openEditorOn b.table none : Ui Disk _) (Pushes w) :=
      looks_openEditorOn fun i h => by cases h
    exact hopen.bind fun nav hnav => looks_pure ⟨hsame, hnav⟩
  · refine (looks_rowUnder b).bind fun id hid => ?_
    have hopen : Looks w (openEditorOn b.table (some id) : Ui Disk _) (Pushes w) :=
      looks_openEditorOn fun i h => by cases h; exact hid
    exact hopen.bind fun nav hnav => looks_pure ⟨hsame, hnav⟩
  · exact (looks_rowUnder b).bind fun id hid => looks_pure ⟨hsame,
      pushes_push (opening_other (fun _ h => nomatch h) hid rfl)⟩
  · exact looks_pure ⟨hsame, pushes_push (opening_other (fun _ h => nomatch h) trivial rfl)⟩
  · exact looks_pure ⟨hsame, pushes_none⟩

theorem looks_browserHandle (vis : ℕ) (b : Browser) (nrows ncols : ℕ) (k : Ps2.Key) :
    Looks w (browserHandle vis b nrows ncols k : Ui Disk _) (BrowserHanded w b) := by
  have hstay : ∀ row col nav, Pushes w nav → BrowserHanded w b ({ b with row, col }, nav) :=
    fun row col nav h => ⟨⟨rfl, rfl⟩, h⟩
  unfold browserHandle
  split
  · exact looks_pure (hstay _ _ _ pushes_none)
  · exact looks_pure (hstay _ _ _ pushes_none)
  · exact looks_pure (hstay _ _ _ pushes_none)
  · exact looks_pure (hstay _ _ _ pushes_none)
  · exact looks_pure (hstay _ _ _ pushes_none)
  · exact looks_pure (hstay _ _ _ pushes_none)
  · exact looks_pure (hstay _ _ _ pushes_pop)
  · split_ifs
    · exact (looks_rowUnder b).bind fun id hid => looks_pure (hstay _ _ _
        (pushes_push (opening_other (fun _ h => nomatch h) hid rfl)))
    · exact looks_pure (hstay _ _ _ pushes_none)
  · exact looks_browserLetter _ _ _ _
  · exact looks_pure (hstay _ _ _ pushes_none)

theorem looks_browserKey (vis : ℕ) (b : Browser) (k : Ps2.Key) :
    Looks w (browserKey vis b k : Ui Disk _) fun r =>
      Handed w (.browser b) (.browser r.1) r.2 := by
  refine (looks_onStore (peeks_getTable b.table)).bind fun t _ => ?_
  refine (looks_cached _ _ _).bind fun rs _ => ?_
  refine (looks_browserHandle vis _ _ _ k).bind fun r hr => looks_pure ?_
  have hlikes : Same b (scrolled vis r.1) := ⟨hr.1.table, hr.1.filter⟩
  exact ⟨hlikes.likes, trivial, rfl, fun _ => rfl, hr.2⟩

/-! ## The row view -/

theorem looks_rowView {v : RowView} (k : Ps2.Key) (he : (v.table, v.id) ∈ w.led) :
    Looks w (onStore (v.dispatch k) : Ui Disk _) fun r =>
      Handed w (.rowView v) (.rowView r.1) (opening r.2) := by
  have hlook : w.Ok → Looks w (onStore (v.dispatch k) : Ui Disk _) _ := fun hw =>
    looks_onStore (peeks_dispatch hw.intact he k)
  refine looks_known fun hw => (hlook hw).mono fun r hr => ?_
  obtain ⟨htable, hid, hopen⟩ := hr
  have hcov : (r.1.table, r.1.id) ∈ w.led := by
    rw [htable, hid]
    exact he
  refine ⟨likes_other (fun _ h => nomatch h), hcov, rfl, fun _ => rfl, ?_⟩
  obtain ⟨v', nav⟩ := r
  cases nav with
  | none => exact pushes_none
  | pop => exact pushes_pop
  | push b => exact pushes_push ⟨fun b' hb => by cases hb; exact hopen b rfl, trivial, rfl⟩
  | popToList => exact fun new h => by cases h

/-! ## The schema and the label -/

/-- A screen that holds no rows, handed back. -/
theorem handed_other {scr₀ scr : Screen} {nav : Nav Screen} (hb : ∀ b, scr ≠ .browser b)
    (hc : scr.Covered w.led) (hl₀ : scr₀.isList = false) (hl : scr.isList = false)
    (h : Pushes w nav) : Handed w scr₀ scr nav :=
  ⟨likes_other hb, hc, hl.trans hl₀.symm, fun _ => hl, h⟩

/-- The edit that a key on the schema screen asks for. -/
def schemaAsk (t : Option Table) (s : Schema) : Ps2.Key → Option (Op RowId)
  | .char c =>
      let n := t.elim 0 (·.columns.length)
      let sel := min s.sel (n - 1)
      (t.bind fun t => t.columns[sel]?.map (·.name)).bind fun col =>
        if c = ',' ∧ 0 < sel then some (.moveColumn s.table col (sel - 1))
        else if c = '.' ∧ sel + 1 < n then some (.moveColumn s.table col (sel + 1))
        else none
  | _ => none

/-- A screen handed back on a stack that is as it was, with one call made at most. -/
structure Acted (asks : Option (Op RowId)) (w : World) (desk : Desk) (scr₀ scr : Screen)
    (nav : Nav Screen) (w' : World) (desk' : Desk) : Prop where
  did : Did asks w desk w' desk'
  stack : desk'.stack = desk.stack
  handed : Handed w' scr₀ scr nav

theorem acted_schema {s s' : Schema} {nav : Nav Screen} (hd : Did asks w desk w' desk')
    (hs : desk'.stack = desk.stack) (h : Pushes w' nav) :
    Acted asks w desk (.schema s) (.schema s') nav w' desk' :=
  ⟨hd, hs, handed_other (fun _ h => nomatch h) trivial rfl rfl h⟩

theorem leads_moveTo {s : Schema} {c : Column} {new : ℕ} (hc : CacheRight w desk)
    (hcount : w.generation + 1 < 2 ^ 64) (hasks : asks = some (.moveColumn s.table c.name new)) :
    Leads w desk (moveTo s c new) fun _ w' desk' =>
      Did asks w desk w' desk' ∧ desk'.stack = desk.stack := by
  have hcall : Leads w desk (carry (.moveColumn s.table c.name new)) fun _ w' desk' =>
      Did asks w desk w' desk' ∧ desk'.stack = desk.stack :=
    leads_did hc hcount (by trivial) (fun _ => hasks) (fun n h => by cases h)
      fun _ _ _ hd hs => ⟨hd, hs⟩
  refine hcall.bind fun r w' desk' h => ?_
  cases r with
  | ok a => exact leads_pure h
  | error e => exact leads_pure h

theorem leads_schemaColumn {s : Schema} {n : ℕ} {col : Column} (c : Char) (hc : CacheRight w desk)
    (hcount : w.generation + 1 < 2 ^ 64)
    (hprev : c = ',' → 0 < s.sel → asks = some (.moveColumn s.table col.name (s.sel - 1)))
    (hnext : c = '.' → s.sel + 1 < n → asks = some (.moveColumn s.table col.name (s.sel + 1)))
    (s₀ : Schema) :
    Leads w desk (schemaColumn s n col c) fun r w' desk' =>
      Acted asks w desk (.schema s₀) (.schema r.1) r.2 w' desk' := by
  have hopen : ∀ scr : Screen, scr.isList = false → (∀ b, scr ≠ .browser b) →
      scr.Covered w.led → Acted asks w desk (.schema s₀) (.schema s) (.push scr) w desk :=
    fun scr hl hb hcov =>
      acted_schema (did_nothing rfl hc) rfl (pushes_push (opening_other hb hcov hl))
  unfold schemaColumn
  split_ifs with hx hr hw hu hp hn
  · exact leads_pure (hopen _ rfl (fun _ h => nomatch h) trivial)
  · exact leads_pure (hopen _ rfl (fun _ h => nomatch h) trivial)
  · exact leads_pure (hopen _ rfl (fun _ h => nomatch h) trivial)
  · have hcall : Leads w desk (carry (.setUnique s.table col.name (!col.unique)))
        fun _ w' desk' => Did asks w desk w' desk' ∧ desk'.stack = desk.stack :=
      leads_did hc hcount (by trivial) (fun h => by cases h) (fun n h => by cases h)
        fun _ _ _ hd hs => ⟨hd, hs⟩
    exact hcall.bind fun _ w' desk' h => leads_pure (acted_schema h.1 h.2 pushes_none)
  · exact (leads_moveTo hc hcount (hprev hp.1 hp.2.2)).bind fun _ w' desk' h =>
      leads_pure (acted_schema h.1 h.2 pushes_none)
  · exact (leads_moveTo hc hcount (hnext hn.1 hn.2.2)).bind fun _ w' desk' h =>
      leads_pure (acted_schema h.1 h.2 pushes_none)
  · exact leads_pure (acted_schema (did_nothing rfl hc) rfl pushes_none)

theorem leads_schemaLetter {s : Schema} {t : Option Table} (c : Char) (hc : CacheRight w desk)
    (hcount : w.generation + 1 < 2 ^ 64)
    (hcol : ∀ u col, t = some u → u.columns[s.sel]? = some col →
      (c = ',' → 0 < s.sel → asks = some (.moveColumn s.table col.name (s.sel - 1))) ∧
        (c = '.' → s.sel + 1 < u.columns.length →
          asks = some (.moveColumn s.table col.name (s.sel + 1)))) (s₀ : Schema) :
    Leads w desk (schemaLetter s t c) fun r w' desk' =>
      Acted asks w desk (.schema s₀) (.schema r.1) r.2 w' desk' := by
  have hopen : ∀ (d : Desk) (scr : Screen), Did asks w desk w d → d.stack = desk.stack →
      scr.isList = false → (∀ b, scr ≠ .browser b) → scr.Covered w.led →
      Acted asks w desk (.schema s₀) (.schema s) (.push scr) w d := fun d scr hd hs hl hb hcov =>
    acted_schema hd hs (pushes_push (opening_other hb hcov hl))
  unfold schemaLetter
  split_ifs
  · exact leads_pure (hopen _ _ (did_nothing rfl hc) rfl rfl (fun _ h => nomatch h) trivial)
  · have hread : Looks w (onStore (getTable s.table) : Ui Disk _) _ :=
      looks_onStore (peeks_getTable s.table)
    refine (hread desk hc).bind ?_
    rintro t' w' desk' ⟨rfl, hs, hcar, hc', -⟩
    exact leads_pure (hopen _ _ (did_nothing hcar hc') hs rfl (fun _ h => nomatch h) trivial)
  · refine leads_pure (acted_schema (did_nothing rfl hc) rfl ?_)
    dsimp only
    split_ifs
    · exact pushes_none
    · exact pushes_push (opening_other (fun _ h => nomatch h) trivial rfl)
  · exact leads_pure (hopen _ _ (did_nothing rfl hc) rfl rfl (fun _ h => nomatch h) trivial)
  · exact leads_pure (hopen _ _ (did_nothing rfl hc) rfl rfl (fun _ h => nomatch h) trivial)
  · split
    · next col hbind =>
        obtain ⟨u, hu, hsome⟩ := Option.bind_eq_some_iff.mp hbind
        obtain ⟨hprev, hnext⟩ := hcol u col hu hsome
        rw [hu]
        exact leads_schemaColumn c hc hcount hprev hnext s₀
    · exact leads_pure (acted_schema (did_nothing rfl hc) rfl pushes_none)

theorem leads_schemaKey (s : Schema) (k : Ps2.Key) (hc : CacheRight w desk)
    (hcount : w.generation + 1 < 2 ^ 64)
    (hasks : asks = schemaAsk ((tableOf w.db s.table).map (·.schema)) s k) :
    Leads w desk (schemaKey s k) fun r w' desk' =>
      Acted asks w desk (.schema s) (.schema r.1) r.2 w' desk' := by
  have hread : Looks w (onStore (getTable s.table) : Ui Disk _) _ :=
    looks_onStore (peeks_getTable s.table)
  refine (hread desk hc).bind ?_
  rintro t w₁ desk₁ ⟨rfl, hs, hcar, hc₁, rfl⟩
  have hstay : ∀ s' nav, Pushes w₁ nav →
      Acted asks w₁ desk (.schema s) (.schema s') nav w₁ desk₁ := fun s' nav h =>
    acted_schema (did_nothing hcar hc₁) hs h
  dsimp only
  split
  · exact leads_pure (hstay _ _ pushes_pop)
  · exact leads_pure (hstay _ _ pushes_none)
  · exact leads_pure (hstay _ _ pushes_none)
  · next c =>
      refine (leads_schemaLetter c hc₁ hcount ?_ s).mono fun r w' desk' h =>
        ⟨h.did.after hcar, h.stack.trans hs, h.handed⟩
      intro u col hu hcol
      rw [hu] at hasks hcol ⊢
      have hcol' : u.columns[min s.sel (u.columns.length - 1)]? = some col := hcol
      have hask : asks = if c = ',' ∧ 0 < min s.sel (u.columns.length - 1) then
          some (.moveColumn s.table col.name (min s.sel (u.columns.length - 1) - 1))
        else if c = '.' ∧ min s.sel (u.columns.length - 1) + 1 < u.columns.length then
          some (.moveColumn s.table col.name (min s.sel (u.columns.length - 1) + 1))
        else none := by
        rw [hasks]
        show Option.bind (Option.map (·.name) u.columns[min s.sel (u.columns.length - 1)]?) _ = _
        rw [hcol']
        rfl
      refine ⟨fun hp hpos => ?_, fun hn hlt => ?_⟩
      · rw [hask, if_pos ⟨hp, hpos⟩]
        rfl
      · have hne : ¬ (c = ',' ∧ 0 < min s.sel (u.columns.length - 1)) := by
          rintro ⟨rfl, -⟩
          exact absurd hn (by decide)
        rw [hask, if_neg hne, if_pos ⟨hn, hlt⟩]
        rfl
  · exact leads_pure (hstay _ _ pushes_none)

theorem leads_refColsKey (r : RefCols) (k : Ps2.Key) (hc : CacheRight w desk)
    (hcount : w.generation + 1 < 2 ^ 64) :
    Leads w desk (refColsKey r k) fun p w' desk' =>
      Acted asks w desk (.refCols r) (.refCols p.1) p.2 w' desk' := by
  have hread : Looks w (onStore (getTable r.table) : Ui Disk _) _ :=
    looks_onStore (peeks_getTable r.table)
  refine (hread desk hc).bind ?_
  rintro t w₁ desk₁ ⟨rfl, hs, hcar, hc₁, rfl⟩
  have hstay : ∀ r' nav, Pushes w₁ nav →
      Acted asks w₁ desk (.refCols r) (.refCols r') nav w₁ desk₁ := fun r' nav h =>
    ⟨did_nothing hcar hc₁, hs, handed_other (fun _ h => nomatch h) trivial rfl rfl h⟩
  dsimp only
  split
  · exact leads_pure (hstay _ _ pushes_pop)
  · exact leads_pure (hstay _ _ pushes_none)
  · exact leads_pure (hstay _ _ pushes_none)
  · split
    · exact leads_pure (hstay _ _ pushes_none)
    · next order _ =>
        have hcall : ∀ table, Leads w₁ desk₁ (carry (.setReferenceColumns table order))
            fun _ w' desk' => Did asks w₁ desk₁ w' desk' ∧ desk'.stack = desk₁.stack := fun table =>
          leads_did hc₁ hcount (by trivial) (fun h => by cases h) (fun n h => by cases h)
            fun _ _ _ hd hs => ⟨hd, hs⟩
        refine (hcall _).bind fun _ w' desk' h => leads_pure ⟨h.1.after hcar, h.2.trans hs, ?_⟩
        exact handed_other (fun _ h => nomatch h) trivial rfl rfl pushes_none

/-! ## The picker of a foreign key -/

theorem mem_of_findEditor {stack : List Screen} {ed : Editor} (h : findEditor stack = some ed) :
    .editor ed ∈ stack := by
  fun_induction findEditor stack with
  | case1 => cases h
  | case2 ed' rest =>
      cases h
      exact List.mem_cons_self
  | case3 scr rest _ ih => exact List.mem_cons_of_mem _ (ih h)

theorem putEditor_likes (ed : Editor) (stack : List Screen) :
    List.Forall₂ Likes stack (putEditor ed stack) := by
  fun_induction putEditor ed stack with
  | case1 => exact .nil
  | case2 ed' rest => exact .cons (likes_other fun _ h => nomatch h) (forall₂_likes _)
  | case3 scr rest _ ih => exact .cons (Likes.refl _) ih

theorem mem_putEditor {ed : Editor} {stack : List Screen} {scr : Screen}
    (h : scr ∈ putEditor ed stack) : scr = .editor ed ∨ scr ∈ stack := by
  fun_induction putEditor ed stack with
  | case1 => exact Or.inr h
  | case2 ed' rest =>
      rcases List.mem_cons.mp h with rfl | h
      · exact Or.inl rfl
      · exact Or.inr (List.mem_cons_of_mem _ h)
  | case3 scr' rest _ ih =>
      rcases List.mem_cons.mp h with rfl | h
      · exact Or.inr List.mem_cons_self
      · exact (ih h).imp_right (List.mem_cons_of_mem _)

theorem putEditor_isList (ed : Editor) (stack : List Screen) :
    (putEditor ed stack).map Screen.isList = stack.map Screen.isList := by
  fun_induction putEditor ed stack with
  | case1 => rfl
  | case2 ed' rest => rfl
  | case3 scr rest _ ih => rw [List.map_cons, List.map_cons, ih]

theorem Upright.putEditor {led : Ledger RowId} {stack : List Screen} (h : Upright led stack)
    {ed : Editor} (hed : (Screen.editor ed).Covered led) : Upright led (putEditor ed stack) := by
  refine h.change (fun scr hscr => ?_) (putEditor_isList ed stack)
  rcases mem_putEditor hscr with rfl | hmem
  · exact hed
  · exact h.covered scr hmem

/-- What a picker leaves behind: nothing was called, and the stack has kept its
screens. -/
structure Filled (w : World) (desk : Desk) (w' : World) (desk' : Desk) : Prop where
  world : w' = w
  carried : desk'.carried = desk.carried
  cache : CacheRight w desk'
  upright : Upright w.led desk'.stack
  likes : List.Forall₂ Likes desk.stack desk'.stack
  top : desk'.stack.head? = desk.stack.head?

theorem leads_fill {p : FkPick} {rest : List Screen} (fi : ℕ) (v : Value) (hc : CacheRight w desk)
    (hu : Upright w.led desk.stack) (hstack : desk.stack = .fkPick p :: rest) :
    Leads w desk (fill fi v) fun _ w' desk' => Filled w desk w' desk' := by
  have hstay : Filled w desk w desk := ⟨rfl, rfl, hc, hu, forall₂_likes _, rfl⟩
  refine (leads_get (Q := fun d w' desk' => d = desk ∧ w' = w ∧ desk' = desk)
    ⟨rfl, rfl, rfl⟩).bind ?_
  rintro d w' desk' ⟨rfl, rfl, rfl⟩
  dsimp only
  split
  · next ed hed =>
      split_ifs
      · have hfilled : ∀ ed' : Editor, ed'.table = ed.table → ed'.id = ed.id →
            Filled w' desk' w' { desk' with stack := putEditor ed' desk'.stack } := by
          intro ed' htable hid
          refine ⟨rfl, rfl, hc, hu.putEditor fun id h => ?_, putEditor_likes _ _, ?_⟩
          · rw [htable]
            exact hu.covered _ (mem_of_findEditor hed) id (hid ▸ h)
          · rw [hstack]
            rfl
        refine (leads_set (Q := fun _ w₁ d => Filled w' desk' w₁ d) ?_).bind
          fun _ _ _ h => leads_pure h
        exact hfilled _ rfl rfl
      · exact leads_pure hstay
  · exact leads_pure hstay

theorem leads_fkSelect {p : FkPick} {rest : List Screen} {id : RowId} (hc : CacheRight w desk)
    (hu : Upright w.led desk.stack) (hstack : desk.stack = .fkPick p :: rest) (q : FkPick)
    (he : (q.toTable, id) ∈ w.led) :
    Leads w desk (fkSelect q id) fun _ w' desk' => Filled w desk w' desk' := by
  have htable : Looks w (onStore (getTable q.toTable) : Ui Disk _) _ :=
    looks_onStore (peeks_getTable q.toTable)
  have hrow : Looks w (onStore (getRow q.toTable id) : Ui Disk _) _ :=
    looks_onStore (peeks_getRow he)
  have hseen : ∀ d : Desk, d.stack = desk.stack → d.carried = desk.carried → CacheRight w d →
      Filled w desk w d := fun d hs hcar hc =>
    ⟨rfl, hcar, hc, hs ▸ hu, hs ▸ forall₂_likes _, by rw [hs]⟩
  refine (htable desk hc).bind ?_
  rintro t w₁ d₁ ⟨rfl, hs₁, hcar₁, hc₁, -⟩
  split
  · exact leads_pure (hseen d₁ hs₁ hcar₁ hc₁)
  · refine (hrow d₁ hc₁).bind ?_
    rintro row w₂ d₂ ⟨rfl, hs₂, hcar₂, hc₂, -⟩
    have hs := hs₂.trans hs₁
    have hcar := hcar₂.trans hcar₁
    split
    · next v _ =>
        refine (leads_fill q.fieldIdx v hc₂ (hs ▸ hu) (hs.trans hstack)).mono fun _ w' desk' h => ?_
        exact ⟨h.world, h.carried.trans hcar, h.cache, h.upright, hs ▸ h.likes, by rw [h.top, hs]⟩
    · exact leads_pure (hseen d₂ hs hcar hc₂)

theorem leads_fkPickKey {p : FkPick} {rest : List Screen} (vis : ℕ) (k : Ps2.Key)
    (hc : CacheRight w desk) (hu : Upright w.led desk.stack)
    (hstack : desk.stack = .fkPick p :: rest) :
    Leads w desk (fkPickKey vis p k) fun r w' desk' =>
      Filled w desk w' desk' ∧ Handed w (.fkPick p) (.fkPick r.1) r.2 := by
  have hcov : ∀ r ∈ p.rows, (p.toTable, r.1) ∈ w.led :=
    hu.covered (.fkPick p) (hstack ▸ List.mem_cons_self)
  have hfilled : Filled w desk w desk := ⟨rfl, rfl, hc, hu, forall₂_likes _, rfl⟩
  have hand : ∀ q : FkPick, q.rows = p.rows → q.toTable = p.toTable → ∀ nav, Pushes w nav →
      Handed w (.fkPick p) (.fkPick q) nav := by
    intro q hrows htable nav h
    refine handed_other (fun _ h => nomatch h) ?_ rfl rfl h
    show ∀ r ∈ q.rows, (q.toTable, r.1) ∈ w.led
    rw [hrows, htable]
    exact hcov
  unfold fkPickKey
  extract_lets n visible q
  have hrows : q.rows = p.rows := by
    show (if n ≤ p.sel then _ else p).rows = _
    split_ifs <;> rfl
  have htable : q.toTable = p.toTable := by
    show (if n ≤ p.sel then _ else p).toTable = _
    split_ifs <;> rfl
  have hstay : ∀ sel top nav, Pushes w nav →
      Filled w desk w desk ∧ Handed w (.fkPick p) (.fkPick { q with sel, top }) nav :=
    fun sel top nav h => ⟨hfilled, hand { q with sel, top } hrows htable nav h⟩
  split
  · exact leads_pure (hstay _ _ _ pushes_pop)
  · split
    · exact leads_pure (hstay _ _ _ pushes_none)
    · exact leads_pure (hstay _ _ _ pushes_none)
  · split
    · exact leads_pure (hstay _ _ _ pushes_none)
    · exact leads_pure (hstay _ _ _ pushes_none)
  · exact leads_pure (hstay _ _ _ pushes_none)
  · exact leads_pure (hstay _ _ _ pushes_none)
  · split
    · next id label hrow =>
        have he : (q.toTable, id) ∈ w.led := by
          rw [htable]
          exact hcov _ (hrows ▸ List.mem_of_getElem? hrow)
        refine (leads_fkSelect hc hu hstack q he).bind fun done w' desk' h => leads_pure ⟨h, ?_⟩
        refine hand q hrows htable _ ?_
        dsimp only
        split_ifs
        · exact pushes_pop
        · exact pushes_none
    · exact leads_pure (hstay _ _ _ pushes_none)
  · exact leads_pure (hstay _ _ _ pushes_none)

end Views

end TablesOS
