import TablesOS.Proofs.ScreenKeys

/-!
# Every event, on any stack

The screens that go away with Enter pop themselves first and then act; the editor
and the builder act first. With these the lemma about a key holds of whichever
screen is on top, and it holds of the cursor put somewhere and of drawing too.
-/

namespace TablesOS

open Store Pager

namespace Views

open Asking Ui

variable {w w' : World} {desk desk' : Desk} {asks : Option (Op RowId)} {scr : Screen}
  {rest : List Screen}

/-! ## What becomes of the top screen -/

/-- The top screen is gone. -/
theorem Did.popped (h : Did asks w desk w' desk') (hs : desk'.stack = rest)
    (hu : Upright w.led desk.stack) (hstack : desk.stack = scr :: rest) (hl : scr.isList = false) :
    Pressed asks w desk w' desk' := by
  rw [hstack] at hu
  refine h.pressed (hs ▸ ((hu.pop hl).1.mono h.led)) (.stays 1 ?_)
  rw [hstack, hs]
  exact forall₂_likes _

/-- The top screen has become another. -/
theorem Did.replaced {new : Screen} (h : Did asks w desk w' desk') (hs : desk'.stack = new :: rest)
    (hu : Upright w.led desk.stack) (hstack : desk.stack = scr :: rest)
    (hlike : Likes scr new) (hcov : new.Covered w'.led) (hl : new.isList = scr.isList) :
    Pressed asks w desk w' desk' := by
  rw [hstack] at hu
  refine h.pressed (hs ▸ (hu.mono h.led).top hcov hl) (.stays 0 ?_)
  rw [hstack, hs]
  exact .cons hlike (forall₂_likes _)

/-- A screen is opened on top. -/
theorem Did.opened {new : Screen} (h : Did asks w desk w' desk')
    (hs : desk'.stack = new :: desk.stack)
    (hu : Upright w.led desk.stack) (hopen : Opening w' new) : Pressed asks w desk w' desk' := by
  refine h.pressed (hs ▸ (hu.mono h.led).push hopen.covered hopen.list) ?_
  rw [hs]
  exact .opens new hopen.browser (forall₂_likes _)

theorem leads_setTop {new : Screen} (h : Did asks w desk w' desk') (hs : desk'.stack = desk.stack)
    (hu : Upright w.led desk.stack) (hstack : desk.stack = scr :: rest)
    (hlike : Likes scr new) (hcov : new.Covered w'.led) (hl : new.isList = scr.isList) :
    Leads w' desk' (setTop new) fun _ w'' desk'' => Pressed asks w desk w'' desk'' := by
  refine leads_modify ?_
  rw [hs, hstack]
  exact (h.restack desk.stack (new :: rest)).replaced rfl hu hstack hlike hcov hl

theorem leads_popped (h : Did asks w desk w' desk') (hs : desk'.stack = desk.stack)
    (hu : Upright w.led desk.stack) (hstack : desk.stack = scr :: rest) (hl : scr.isList = false) :
    Leads w' desk' pop fun _ w'' desk'' => Pressed asks w desk w'' desk'' :=
  leads_pop (hs ▸ hu) (hs.trans hstack) hl
    ((h.restack desk.stack rest).popped rfl hu hstack hl)

theorem leads_opened {new : Screen} (h : Did asks w desk w' desk') (hs : desk'.stack = desk.stack)
    (hu : Upright w.led desk.stack) (hopen : Opening w' new) :
    Leads w' desk' (push new) fun _ w'' desk'' => Pressed asks w desk w'' desk'' := by
  refine leads_modify ?_
  rw [hs]
  exact (h.restack desk.stack (new :: desk.stack)).opened rfl hu hopen

/-! ## Screens that go away with Enter -/

/-- A desk that the top screen is about to leave. -/
structure Left (asks : Option (Op RowId)) (w : World) (desk : Desk) (scr : Screen)
    (rest : List Screen) : Prop where
  cache : CacheRight w desk
  upright : Upright w.led desk.stack
  stack : desk.stack = scr :: rest
  list : scr.isList = false
  counter : w.generation + 1 < 2 ^ 64

/-- What was done with the screen already gone. -/
def Gone (asks : Option (Op RowId)) (w : World) (desk : Desk) (rest : List Screen) (w' : World)
    (desk' : Desk) : Prop :=
  Did asks w desk w' desk' ∧ desk'.stack = rest

theorem Left.gone (h : Left asks w desk scr rest) (hg : Gone asks w desk rest w' desk') :
    Pressed asks w desk w' desk' :=
  hg.1.popped hg.2 h.upright h.stack h.list

theorem Left.nothing (h : Left asks w desk scr rest) :
    Gone asks w desk rest w { desk with stack := rest } :=
  ⟨did_nothing rfl h.cache, rfl⟩

theorem Left.call (h : Left asks w desk scr rest) {op : Op RowId} (he : w.led.Covers (.call op))
    (hasks : reshapes op = true → asks = some op) (hdrop : ∀ n, op ≠ .dropTable n) :
    Leads w { desk with stack := rest } (carry op) fun _ w' desk' =>
      Gone asks w desk rest w' desk' :=
  leads_did (show CacheRight w { desk with stack := rest } from h.cache) h.counter he hasks hdrop
    fun _ _ _ hd hs => ⟨hd.after rfl, hs⟩

theorem Left.look {α : Type} (h : Left asks w desk scr rest) {m : Ui Disk α} {P : α → Prop}
    (hm : Looks w m P) : Leads w { desk with stack := rest } m fun _ w' desk' =>
      w' = w ∧ Gone asks w desk rest w' desk' := by
  refine (hm { desk with stack := rest } h.cache).mono ?_
  rintro a w' desk' ⟨rfl, hs, hcar, hc, -⟩
  exact ⟨rfl, did_nothing hcar hc, hs⟩

/-- A screen opened in the place of the one that is gone. -/
theorem Left.push {new : Screen} (h : Left asks w desk scr rest)
    (hg : Gone asks w desk rest w' desk')
    (hb : ∀ b, new ≠ .browser b) (hcov : new.Covered w'.led) (hl : new.isList = false) :
    Leads w' desk' (push new) fun _ w'' desk'' => Pressed asks w desk w'' desk'' := by
  refine leads_modify ?_
  rw [hg.2]
  exact (hg.1.restack desk.stack (new :: rest)).replaced rfl h.upright h.stack (likes_other hb)
    hcov (hl.trans h.list.symm)

theorem Left.pop {m : Ui Disk Unit} (h : Left asks w desk scr rest)
    (hm : Leads w { desk with stack := rest } m fun _ w' desk' => Pressed asks w desk w' desk') :
    Leads w desk (pop >>= fun _ => m) fun _ w' desk' => Pressed asks w desk w' desk' := by
  refine Leads.bind (P := fun _ w₁ d₁ => w₁ = w ∧ d₁ = { desk with stack := rest })
    (leads_pop h.upright h.stack h.list ⟨rfl, rfl⟩) ?_
  rintro - w₁ d₁ ⟨rfl, rfl⟩
  exact hm

/-- A call, and nothing after it. -/
theorem Left.called (h : Left asks w desk scr rest) {op : Op RowId} (he : w.led.Covers (.call op))
    (hasks : reshapes op = true → asks = some op) (hdrop : ∀ n, op ≠ .dropTable n) :
    Leads w { desk with stack := rest } (do let _ ← carry op; pure ())
      fun _ w' desk' => Pressed asks w desk w' desk' :=
  (h.call he hasks hdrop).bind fun _ _ _ hg => leads_pure (h.gone hg)

/-- The edit that a prompt asks for. -/
def promptAsk (text : Chars) : Action → Option (Op RowId)
  | .renameColumn table old => some (.renameColumn table old (String.ofList text))
  | _ => none

theorem Left.resolvePrompt (h : Left asks w desk scr rest) {action : Action} {text : Chars}
    (hasks : asks = promptAsk text action) :
    Leads w { desk with stack := rest } (resolvePrompt action text)
      fun _ w' desk' => Pressed asks w desk w' desk' := by
  have hstay : Leads w { desk with stack := rest } (pure ())
      fun _ w' desk' => Pressed asks w desk w' desk' := leads_pure (h.gone h.nothing)
  unfold Ui.resolvePrompt
  extract_lets name
  split
  · refine (@Left.call _ _ _ _ _ h (.createTable name) (by trivial) (fun hr => by cases hr)
      (fun n hn => by cases hn)).bind fun r w' desk' hg => ?_
    cases r with
    | ok a => exact h.push hg (fun _ hb => nomatch hb) trivial rfl
    | error e => exact leads_pure (h.gone hg)
  · split_ifs
    · exact hstay
    · exact h.push h.nothing (fun _ hb => nomatch hb) trivial rfl
  · split_ifs
    · exact hstay
    · exact h.called (by trivial) (fun _ => hasks) (fun n hn => by cases hn)
  · split
    · exact h.called (by trivial) (fun hr => by cases hr) (fun n hn => by cases hn)
    · exact hstay
  · exact hstay

theorem looks_uniqueColumns (table : String) :
    Looks w (uniqueColumns table : Ui Disk _) fun _ => True :=
  (looks_onStore (peeks_getTable table)).bind fun _ _ => looks_pure trivial

theorem Left.resolvePick (h : Left asks w desk scr rest) (action : Action) (choice : String) :
    Leads w { desk with stack := rest } (resolvePick action choice)
      fun _ w' desk' => Pressed asks w desk w' desk' := by
  have hstay : Leads w { desk with stack := rest } (pure ())
      fun _ w' desk' => Pressed asks w desk w' desk' := leads_pure (h.gone h.nothing)
  unfold Ui.resolvePick
  split
  · exact h.called (by trivial) (fun hr => by cases hr) (fun n hn => by cases hn)
  · refine (h.look looks_tableNames).bind fun _ w' desk' hg => ?_
    exact h.push hg.2 (fun _ hb => nomatch hb) trivial rfl
  · refine (h.look (looks_uniqueColumns choice)).bind fun _ w' desk' hg => ?_
    split_ifs
    · exact leads_pure (h.gone hg.2)
    · exact h.push hg.2 (fun _ hb => nomatch hb) trivial rfl
  · exact h.called (by trivial) (fun hr => by cases hr) (fun n hn => by cases hn)
  · exact h.called (by trivial) (fun hr => by cases hr) (fun n hn => by cases hn)
  · exact hstay

/-- The edit that a confirmation asks for. -/
def confirmAsk : Action → Option (Op RowId)
  | .dropColumn table col => some (.dropColumn table col)
  | _ => none

/-- A table that was dropped takes the screens above the list with it. -/
theorem Left.dropTable (h : Left asks w desk scr rest) (table : String) :
    Leads w { desk with stack := rest } (resolveConfirm (.dropTable table))
      fun _ w' desk' => Pressed asks w desk w' desk' := by
  have hup : Upright w.led rest := ((h.stack ▸ h.upright).pop h.list).1
  refine Leads.bind (P := fun r w' desk' => desk'.stack = rest ∧ CacheRight w' desk' ∧
    ((∃ a, r = .ok a ∧ desk'.carried = .dropTable table :: desk.carried ∧
      Carries w (.dropTable table) a w') ∨ (∃ e, r = .error e ∧ w' = w ∧
        desk'.carried = desk.carried))) ?_ ?_
  · refine leads_carry (by trivial) (fun a w' hcar => ⟨rfl, ?_, Or.inl ⟨a, rfl, rfl, hcar⟩⟩)
      fun e => ⟨rfl, h.cache, Or.inr ⟨e, rfl, rfl, rfl⟩⟩
    exact cacheRight_carried h.cache h.counter hcar
  · rintro r w' desk' ⟨hs, hc, ⟨a, rfl, hcar, hcarries⟩ | ⟨e, rfl, rfl, hcar⟩⟩
    · obtain ⟨j, n, hdrop, hn⟩ := hup.toList
      refine leads_modify ⟨hc, ?_, .stays (j + 1) ?_, Or.inr ⟨_, a, hcar, hcarries,
        (fun hr => by cases hr), fun m _ => ⟨n, ?_⟩⟩⟩
      · change Upright w'.led (List.dropWhile (fun s => !s.isList) desk'.stack)
        rw [hs, hdrop, hn]
        exact Upright.bottom _ n
      · change List.Forall₂ _ _ (List.dropWhile (fun s => !s.isList) desk'.stack)
        rw [hs, hdrop, h.stack]
        exact forall₂_likes _
      · change List.dropWhile (fun s => !s.isList) desk'.stack = _
        rw [hs, hdrop, hn]
    · exact leads_pure (h.gone ⟨did_nothing hcar hc, hs⟩)

theorem Left.resolveConfirm (h : Left asks w desk scr rest) {action : Action}
    (hscr : scr = .confirm action) (hasks : asks = confirmAsk action) :
    Leads w { desk with stack := rest } (resolveConfirm action)
      fun _ w' desk' => Pressed asks w desk w' desk' := by
  cases action with
  | shutdown => exact leads_never fun pg r hr => by cases hr
  | deleteRow table id =>
      have hmem : Screen.confirm (.deleteRow table id) ∈ desk.stack := by
        rw [h.stack, hscr]
        exact List.mem_cons_self
      have he : (table, id) ∈ w.led := h.upright.covered _ hmem
      exact h.called he (fun hr => by cases hr) (fun n hn => by cases hn)
  | dropTable table => exact h.dropTable table
  | dropColumn table col => exact h.called (by trivial) (fun _ => hasks) (fun n hn => by cases hn)
  | _ => exact leads_pure (h.gone h.nothing)

/-! ## Prompts, pickers, confirmations -/

theorem leads_promptKey {p : Prompt} (k : Ps2.Key) (h : Left asks w desk (.prompt p) rest)
    (hasks : k = .enter → asks = promptAsk p.buf p.action) :
    Leads w desk (promptKey p k) fun _ w' desk' => Pressed asks w desk w' desk' := by
  unfold promptKey
  split
  · exact leads_popped (did_nothing rfl h.cache) rfl h.upright h.stack rfl
  · exact h.pop (h.resolvePrompt (hasks rfl))
  · exact leads_setTop (did_nothing rfl h.cache) rfl h.upright h.stack
      (likes_other fun _ hb => nomatch hb) trivial rfl

theorem leads_pickKey {p : Pick} (k : Ps2.Key) (h : Left asks w desk (.pick p) rest) :
    Leads w desk (pickKey p k) fun _ w' desk' => Pressed asks w desk w' desk' := by
  have hstay : Leads w desk (pure ()) fun _ w' desk' => Pressed asks w desk w' desk' :=
    leads_pure ((did_nothing rfl h.cache).replaced h.stack h.upright h.stack
      (likes_other fun _ hb => nomatch hb) trivial rfl)
  have hmoved : ∀ p', Leads w desk (setTop (.pick p'))
      fun _ w' desk' => Pressed asks w desk w' desk' := fun p' =>
    leads_setTop (did_nothing rfl h.cache) rfl h.upright h.stack
      (likes_other fun _ hb => nomatch hb) trivial rfl
  unfold pickKey
  split
  · exact leads_popped (did_nothing rfl h.cache) rfl h.upright h.stack rfl
  · exact hmoved _
  · exact hmoved _
  · split_ifs
    · exact hstay
    · refine (looks_onStore (peeks_indexed p.options[p.sel]?) desk h.cache).bind ?_
      rintro choice w₁ d₁ ⟨rfl, hs, hcar, hc, -⟩
      have hleft : Left asks w₁ d₁ (.pick p) rest :=
        ⟨hc, hs ▸ h.upright, hs.trans h.stack, rfl, h.counter⟩
      refine (hleft.pop (hleft.resolvePick p.action choice)).mono fun _ w' desk' hp => ?_
      exact ⟨hp.cache, hp.upright, hs ▸ hp.turns, hcar ▸ hp.ops⟩
  · exact hstay

theorem leads_confirmKey {action : Action} (k : Ps2.Key)
    (h : Left asks w desk (.confirm action) rest) (hasks : k = .enter → asks = confirmAsk action) :
    Leads w desk (confirmKey action k) fun _ w' desk' => Pressed asks w desk w' desk' := by
  unfold confirmKey
  split
  · exact leads_popped (did_nothing rfl h.cache) rfl h.upright h.stack rfl
  · exact h.pop (h.resolveConfirm rfl (hasks rfl))
  · exact leads_pure ((did_nothing rfl h.cache).replaced h.stack h.upright h.stack
      (likes_other fun _ hb => nomatch hb)
      (h.upright.covered _ (h.stack ▸ List.mem_cons_self)) rfl)

/-! ## The editor and the builder -/

theorem key_same (ed : Editor) (k : Ps2.Key) :
    (ed.key k).1.table = ed.table ∧ (ed.key k).1.id = ed.id := by
  have htyped : (ed.typed k).table = ed.table ∧ (ed.typed k).id = ed.id := by
    unfold Editor.typed
    split <;> exact ⟨rfl, rfl⟩
  unfold Editor.key
  split
  all_goals first | exact ⟨rfl, rfl⟩ | exact htyped

theorem leads_openFkPicker (fi : ℕ) (toTable toCol : String) (h : Left asks w desk scr rest) :
    Leads w desk (openFkPicker fi toTable toCol)
      fun _ w' desk' => Pressed asks w desk w' desk' := by
  refine leads_known fun hw => ?_
  have hrows : Looks w (onStore (scan toTable) : Ui Disk _) _ :=
    looks_onStore (reads_scan toTable).peeks
  have htable : Looks w (onStore (getTable toTable) : Ui Disk _) _ :=
    looks_onStore (peeks_getTable toTable)
  have hstay : ∀ d : Desk, d.stack = desk.stack → d.carried = desk.carried → CacheRight w d →
      Pressed asks w desk w d := fun d hs hcar hc =>
    (did_nothing hcar hc).replaced (hs.trans h.stack) h.upright h.stack (Likes.refl _)
      (h.upright.covered _ (h.stack ▸ List.mem_cons_self)) rfl
  refine (hrows desk h.cache).bind ?_
  rintro rows w₁ d₁ ⟨rfl, hs₁, hcar₁, hc₁, hrows⟩
  split
  · exact leads_pure (hstay d₁ hs₁ hcar₁ hc₁)
  · next rows =>
      refine (htable d₁ hc₁).bind ?_
      rintro t w₂ d₂ ⟨rfl, hs₂, hcar₂, hc₂, -⟩
      have hs := hs₂.trans hs₁
      have hcar := hcar₂.trans hcar₁
      split
      · exact leads_pure (hstay d₂ hs hcar hc₂)
      · next schema =>
          split_ifs
          · exact leads_pure (hstay d₂ hs hcar hc₂)
          · refine leads_opened (did_nothing hcar hc₂) hs h.upright
              (opening_other (fun _ hb => nomatch hb) (fun r hr => ?_) rfl)
            obtain ⟨r', hr', rfl⟩ := List.mem_map.mp hr
            obtain ⟨t, ht, rfl⟩ := Option.map_eq_some_iff.mp hrows.symm
            obtain ⟨hmem, rfl⟩ := tableOf_mem ht
            exact hw.given t hmem r' hr'

theorem leads_commit {ed₀ ed : Editor} (h : Left asks w desk (.editor ed₀) rest)
    (htable : ed.table = ed₀.table) (hid : ed.id = ed₀.id) :
    Leads w desk (Ui.commit ed) fun _ w' desk' => Pressed asks w desk w' desk' := by
  have hcov₀ : (Screen.editor ed₀).Covered w.led :=
    h.upright.covered _ (h.stack ▸ List.mem_cons_self)
  have hcov : ∀ id, ed.id = some id → (ed.table, id) ∈ w.led := fun id hi =>
    htable ▸ hcov₀ id (hid ▸ hi)
  unfold Ui.commit
  split
  · next cells _ =>
      have he : w.led.Covers (.call (saveOp ed cells)) := by
        unfold saveOp
        split
        · next id hi => exact hcov id hi
        · trivial
      have hshape : reshapes (saveOp ed cells) = true → asks = some (saveOp ed cells) := by
        unfold saveOp
        split <;> exact fun hr => by cases hr
      have hdrop : ∀ n, saveOp ed cells ≠ .dropTable n := by
        unfold saveOp
        split <;> exact fun n hn => by cases hn
      have hcall : Leads w desk (carry (saveOp ed cells)) fun _ w' desk' =>
          Did asks w desk w' desk' ∧ desk'.stack = desk.stack :=
        leads_did h.cache h.counter he hshape hdrop fun _ _ _ hd hs => ⟨hd, hs⟩
      refine hcall.bind fun res w₁ d₁ hd => ?_
      refine (looks_onStore (peeks_saved _ res) d₁ hd.1.cache).bind ?_
      rintro o w₂ d₂ ⟨rfl, hs, hcar, hc, ho⟩
      have hd₂ : Did asks w desk w₂ d₂ := by
        refine ⟨hc, ?_⟩
        rw [hcar]
        exact hd.1.ops
      split
      · exact leads_popped hd₂ (hs.trans hd.2) h.upright h.stack rfl
      · next ed' =>
          obtain ⟨htable', hid'⟩ := ho ed' rfl
          refine leads_setTop hd₂ (hs.trans hd.2) h.upright h.stack
            (likes_other fun _ hb => nomatch hb) (fun id hi => hd₂.led _ ?_) rfl
          rw [htable']
          exact hcov id (hid' ▸ hi)
  · exact leads_setTop (did_nothing rfl h.cache) rfl h.upright h.stack
      (likes_other fun _ hb => nomatch hb) hcov rfl
  · exact leads_never fun pg r hr => by cases hr

theorem leads_editorKey {ed : Editor} (k : Ps2.Key) (h : Left asks w desk (.editor ed) rest) :
    Leads w desk (editorKey ed k) fun _ w' desk' => Pressed asks w desk w' desk' := by
  obtain ⟨htable, hid⟩ := key_same ed k
  have hcov : (Screen.editor ed).Covered w.led := h.upright.covered _ (h.stack ▸ List.mem_cons_self)
  unfold editorKey
  split
  · exact leads_popped (did_nothing rfl h.cache) rfl h.upright h.stack rfl
  · next ed' hkey =>
      rw [hkey] at htable hid
      exact leads_commit h htable hid
  · next ed' fi _ =>
      refine (looks_onStore (peeks_openBuilder ed' fi) desk h.cache).bind ?_
      rintro opened w₁ d₁ ⟨rfl, hs, hcar, hc, -⟩
      cases opened with
      | builder b =>
          exact leads_opened (did_nothing hcar hc) hs h.upright
            (opening_other (fun _ hb => nomatch hb) trivial rfl)
      | fkPicker fi rows toTable toCol =>
          have hleft : Left asks w₁ d₁ (.editor ed) rest :=
            ⟨hc, hs ▸ h.upright, hs.trans h.stack, rfl, h.counter⟩
          refine (leads_openFkPicker fi toTable toCol hleft).mono fun _ w' desk' hp => ?_
          exact ⟨hp.cache, hp.upright, hs ▸ hp.turns, hcar ▸ hp.ops⟩
  · next ed' want _ _ _ hkey =>
      rw [hkey] at htable hid
      refine leads_setTop (did_nothing rfl h.cache) rfl h.upright h.stack
        (likes_other fun _ hb => nomatch hb) (fun id hi => ?_) rfl
      show (ed'.table, id) ∈ w.led
      rw [htable]
      exact hcov id (hid ▸ hi)

theorem leads_accept {b₀ : FieldBuilder} (b : FieldBuilder)
    (h : Left asks w desk (.builder b₀) rest) :
    Leads w desk (accept b) fun _ w' desk' => Pressed asks w desk w' desk' := by
  have htop : ∀ b', Leads w desk (setTop (.builder b'))
      fun _ w' desk' => Pressed asks w desk w' desk' := fun b' =>
    leads_setTop (did_nothing rfl h.cache) rfl h.upright h.stack
      (likes_other fun _ hb => nomatch hb) trivial rfl
  refine (leads_get (Q := fun d w' desk' => d = desk ∧ w' = w ∧ desk' = desk)
    ⟨rfl, rfl, rfl⟩).bind ?_
  rintro d w' desk' ⟨rfl, rfl, rfl⟩
  split
  · next ed below heq =>
      split
      · next ed' hcommit =>
          have hsame : ed'.table = ed.table ∧ ed'.id = ed.id := by
            unfold commitBuilder at hcommit
            split at hcommit
            · cases hcommit
              exact ⟨rfl, rfl⟩
            · cases hcommit
          have hrest : rest = .editor ed :: below := by
            rw [← heq, h.stack]
            rfl
          subst hrest
          have hup : Upright w'.led (.editor ed :: below) := ((h.stack ▸ h.upright).pop h.list).1
          refine h.pop (leads_modify ⟨h.cache, hup.top ?_ rfl, .stays 1 ?_, Or.inl ⟨rfl, rfl⟩⟩)
          · intro id hi
            rw [hsame.1]
            exact hup.covered _ List.mem_cons_self id (hsame.2 ▸ hi)
          · rw [h.stack]
            exact .cons (likes_other fun _ hb => nomatch hb) (forall₂_likes _)
      · exact htop _
  · split
    · exact leads_popped (did_nothing rfl h.cache) rfl h.upright h.stack rfl
    · exact htop _

theorem leads_builderKey {b : FieldBuilder} (now : Option Rtc) (k : Ps2.Key)
    (h : Left asks w desk (.builder b) rest) :
    Leads w desk (builderKey now b k) fun _ w' desk' => Pressed asks w desk w' desk' := by
  have htop : ∀ b', Leads w desk (setTop (.builder b'))
      fun _ w' desk' => Pressed asks w desk w' desk' := fun b' =>
    leads_setTop (did_nothing rfl h.cache) rfl h.upright h.stack
      (likes_other fun _ hb => nomatch hb) trivial rfl
  unfold builderKey
  split
  · exact leads_popped (did_nothing rfl h.cache) rfl h.upright h.stack rfl
  · exact htop _
  · exact htop _
  · exact leads_accept _ h
  · exact htop _

/-! ## Any event -/

/-- The edit that a key asks the store for, by the tables there are. -/
def askedOn (db : Database RowId) : List Screen → Ps2.Key → Option (Op RowId)
  | .schema s :: _, k => schemaAsk ((tableOf db s.table).map (·.schema)) s k
  | .prompt p :: _, .enter => promptAsk p.buf p.action
  | .confirm action :: _, .enter => confirmAsk action
  | _, _ => none

/-- A handler that only looks, and what is handed back after it. -/
theorem leads_looked {scr₁ : α → Screen} {nav : α → Nav Screen} {m : Ui Disk α}
    (h : CacheRight w desk) (hu : Upright w.led desk.stack) (hstack : desk.stack = scr :: rest)
    (hm : Looks w m fun r => Handed w scr (scr₁ r) (nav r)) :
    Leads w desk (m >>= fun r => back (scr₁ r) (nav r))
      fun _ w' desk' => Pressed asks w desk w' desk' := by
  refine (hm desk h).bind ?_
  rintro r w₁ d₁ ⟨rfl, hs, hcar, hc, hhand⟩
  exact leads_back (did_nothing hcar hc) (hs ▸ hu) hstack (hs.trans hstack) (forall₂_likes _) rfl
    hhand

/-- A handler that has made a call, and what is handed back after it. -/
theorem leads_acted {scr₁ : α → Screen} {nav : α → Nav Screen} {m : Ui Disk α}
    (hu : Upright w.led desk.stack) (hstack : desk.stack = scr :: rest)
    (hm : Leads w desk m fun r w' desk' => Acted asks w desk scr (scr₁ r) (nav r) w' desk') :
    Leads w desk (m >>= fun r => back (scr₁ r) (nav r))
      fun _ w' desk' => Pressed asks w desk w' desk' := by
  refine hm.bind fun r w₁ d₁ h => ?_
  exact leads_back h.did (h.stack ▸ hu.mono h.did.led) hstack (h.stack.trans hstack)
    (forall₂_likes _) rfl h.handed

/-- The machine's screens leave the store alone. -/
theorem leads_machine (n : Nav Unit) (h : Left asks w desk .machine rest) :
    Leads w desk (navigate (machineNav n)) fun _ w' desk' => Pressed asks w desk w' desk' := by
  have hback : Handed w .machine .machine (machineNav n) := by
    refine handed_other (fun _ hb => nomatch hb) trivial rfl rfl ?_
    cases n with
    | push _ => exact pushes_push (opening_other (fun _ hb => nomatch hb) trivial rfl)
    | _ => exact fun new hnew => by cases hnew
  have hsame : ({ desk with stack := .machine :: desk.stack.tail } : Desk) = desk := by
    rw [h.stack, List.tail_cons, ← h.stack]
  intro pg hpg a desk' pg' hrun
  refine leads_back (did_nothing rfl h.cache) h.upright h.stack h.stack (forall₂_likes _) rfl hback
    pg hpg a desk' pg' ?_
  change navigate (machineNav n) { desk with stack := .machine :: desk.stack.tail } pg = _
  rw [hsame]
  exact hrun

theorem leads_keyOn (a : Around) (k : Ps2.Key) (hc : CacheRight w desk)
    (hcount : w.generation + 1 < 2 ^ 64) (hu : Upright w.led desk.stack)
    (hstack : desk.stack = scr :: rest) :
    Leads w desk (keyOn a k scr)
      fun _ w' desk' => Pressed (askedOn w.db desk.stack k) w desk w' desk' := by
  have hcov : scr.Covered w.led := hu.covered _ (hstack ▸ List.mem_cons_self)
  have hleft : scr.isList = false → Left (askedOn w.db desk.stack k) w desk scr rest := fun hl =>
    ⟨hc, hu, hstack, hl, hcount⟩
  cases scr with
  | list sel => exact leads_looked hc hu hstack (looks_listKey a sel k)
  | browser b => exact leads_looked hc hu hstack (looks_browserKey a.vis b k)
  | rowView v => exact leads_looked hc hu hstack (looks_rowView k hcov)
  | schema s => exact leads_acted hu hstack (leads_schemaKey s k hc hcount (by rw [hstack]; rfl))
  | refCols r => exact leads_acted hu hstack (leads_refColsKey r k hc hcount)
  | fkPick p =>
      refine (leads_fkPickKey a.vis k hc hu hstack).bind ?_
      rintro r w₁ d₁ ⟨hf, hhand⟩
      obtain ⟨top, rest', hstack', htop⟩ :
          ∃ top rest', d₁.stack = top :: rest' ∧ top = .fkPick p := by
        have htop := hf.top
        rw [hstack] at htop
        obtain ⟨rest', heq⟩ := List.head?_eq_some_iff.mp htop
        exact ⟨_, rest', heq, rfl⟩
      have hlikes := hf.likes
      rw [hstack, hstack'] at hlikes
      obtain rfl := hf.world
      exact leads_back (did_nothing hf.carried hf.cache) hf.upright hstack hstack'
        (List.forall₂_cons.mp hlikes).2 (by rw [htop]) hhand
  | prompt p =>
      refine leads_promptKey k (hleft rfl) fun hk => ?_
      rw [hstack, hk]
      rfl
  | pick p => exact leads_pickKey k (hleft rfl)
  | confirm action =>
      refine leads_confirmKey k (hleft rfl) fun hk => ?_
      rw [hstack, hk]
      rfl
  | editor ed => exact leads_editorKey k (hleft rfl)
  | builder b => exact leads_builderKey a.now k (hleft rfl)
  | machine => exact leads_machine a.machine (hleft rfl)

theorem withCursor_same (i : ℕ) (led : Ledger RowId) (h : scr.Covered led) :
    (withCursor i scr).Covered led ∧ (withCursor i scr).isList = scr.isList ∧
      Likes scr (withCursor i scr) := by
  cases scr with
  | browser b =>
      refine ⟨trivial, rfl, fun b' hb => ?_⟩
      cases hb
      exact ⟨b, rfl, rfl, rfl⟩
  | _ => exact ⟨h, rfl, likes_other fun _ hb => nomatch hb⟩

/-- The edit that an event asks the store for. -/
def asked (db : Database RowId) (stack : List Screen) : Ui.Event → Option (Op RowId)
  | .key k _ => askedOn db stack k
  | _ => none

/-- Where an event comes to an end, it has come to what `Pressed` says. -/
theorem leads_handle (e : Ui.Event) (hc : CacheRight w desk) (hcount : w.generation + 1 < 2 ^ 64)
    (hu : Upright w.led desk.stack) :
    Leads w desk (handle e) fun _ w' desk' =>
      Pressed (asked w.db desk.stack e) w desk w' desk' := by
  cases e with
  | key k a =>
      refine (leads_get (Q := fun d w' desk' => d = desk ∧ w' = w ∧ desk' = desk)
        ⟨rfl, rfl, rfl⟩).bind ?_
      rintro d w' desk' ⟨rfl, rfl, rfl⟩
      split
      · exact leads_never fun pg r hr => by cases hr
      · next scr rest heq => exact leads_keyOn a k hc hcount hu heq
  | cursor i =>
      refine leads_modify ?_
      split
      · exact (did_nothing rfl hc).pressed hu (.stays 0 (forall₂_likes _))
      · next scr rest heq =>
          obtain ⟨hcov, hl, hlike⟩ := withCursor_same i w.led
            (hu.covered scr (heq ▸ List.mem_cons_self))
          exact ((did_nothing rfl hc).restack desk.stack _).replaced rfl hu heq hlike hcov hl
  | render =>
      have hdraw : Looks w (drawnRows : Ui Disk _) fun _ => True := by
        intro desk hc
        refine (leads_get (Q := fun d w' desk' => d = desk ∧ w' = w ∧ desk' = desk)
          ⟨rfl, rfl, rfl⟩).bind ?_
        rintro d w' desk' ⟨rfl, rfl, rfl⟩
        split
        · exact ((looks_cached _ _ _).mono fun _ _ => trivial) desk' hc
        · exact leads_pure ⟨rfl, rfl, rfl, hc, trivial⟩
      refine (hdraw desk hc).bind ?_
      rintro rs w' desk' ⟨rfl, hs, hcar, hc', -⟩
      refine leads_pure ((did_nothing hcar hc').pressed (hs ▸ hu) (.stays 0 ?_))
      rw [hs]
      exact forall₂_likes _

end Views

end TablesOS
