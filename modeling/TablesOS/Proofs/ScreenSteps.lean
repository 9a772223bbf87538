import TablesOS.Proofs.ScreenReads
import TablesOS.Spec.Intents

/-!
# What a key does to the stack

Of every key the same is proved, screen by screen: at most one call has been
carried out, and one that moves, renames or drops a column only where the screen
asks for it; screens come and go at the top; a browser keeps its table and its
filter; a browser that is opened filters by a column that is there; and the row
cache is right about the tables as they are now.
-/

namespace TablesOS

open Store Pager

namespace Views

open Asking Ui

/-! ## Desks in order -/

/-- The rows that a screen names are rows that its table has given out. -/
def Screen.Covered (led : Ledger RowId) : Screen → Prop
  | .rowView v => (v.table, v.id) ∈ led
  | .editor ed => ∀ id, ed.id = some id → (ed.table, id) ∈ led
  | .confirm (.deleteRow table id) => (table, id) ∈ led
  | .fkPick p => ∀ r ∈ p.rows, (p.toTable, r.1) ∈ led
  | _ => True

theorem Screen.Covered.mono {led led' : Ledger RowId} {scr : Screen} (h : scr.Covered led)
    (hsub : ∀ x ∈ led, x ∈ led') : scr.Covered led' := by
  unfold Screen.Covered at *
  split
  · exact hsub _ h
  · exact fun id hid => hsub _ (h id hid)
  · exact hsub _ h
  · exact fun r hr => hsub _ (h r hr)
  · trivial

/-- The table list is at the bottom and nowhere else, and all screens are
covered. -/
structure Upright (led : Ledger RowId) (stack : List Screen) : Prop where
  covered : ∀ scr ∈ stack, scr.Covered led
  floor : ∃ m, stack.map Screen.isList = List.replicate m false ++ [true]

namespace Upright

variable {led led' : Ledger RowId} {scr scr' : Screen} {stack stack' rest : List Screen}

theorem bottom (led : Ledger RowId) (n : ℕ) : Upright led [.list n] := by
  refine ⟨fun s hs => ?_, 0, rfl⟩
  rw [List.mem_singleton.mp hs]
  trivial

theorem mono (h : Upright led stack) (hsub : ∀ x ∈ led, x ∈ led') : Upright led' stack :=
  ⟨fun scr hscr => (h.covered scr hscr).mono hsub, h.floor⟩

theorem push (h : Upright led stack) (hc : scr.Covered led) (hl : scr.isList = false) :
    Upright led (scr :: stack) := by
  obtain ⟨m, hm⟩ := h.floor
  refine ⟨fun s hs => ?_, m + 1, ?_⟩
  · rcases List.mem_cons.mp hs with rfl | hs
    · exact hc
    · exact h.covered s hs
  · rw [List.map_cons, hl, hm]
    rfl

theorem pop (h : Upright led (scr :: rest)) (hl : scr.isList = false) :
    Upright led rest ∧ rest ≠ [] := by
  obtain ⟨m, hm⟩ := h.floor
  rw [List.map_cons, hl] at hm
  cases m with
  | zero => simp at hm
  | succ m =>
      rw [List.replicate_succ, List.cons_append, List.cons.injEq] at hm
      refine ⟨⟨fun s hs => h.covered s (List.mem_cons_of_mem _ hs), m, hm.2⟩, ?_⟩
      rintro rfl
      simp at hm

/-- Screens that have become others of their kind. -/
theorem change (h : Upright led stack) (hc : ∀ scr ∈ stack', scr.Covered led)
    (hl : stack'.map Screen.isList = stack.map Screen.isList) : Upright led stack' :=
  ⟨hc, hl ▸ h.floor⟩

theorem top (h : Upright led (scr :: rest)) (hc : scr'.Covered led)
    (hl : scr'.isList = scr.isList) : Upright led (scr' :: rest) := by
  refine h.change (fun s hs => ?_) (by rw [List.map_cons, List.map_cons, hl])
  rcases List.mem_cons.mp hs with rfl | hs
  · exact hc
  · exact h.covered s (List.mem_cons_of_mem _ hs)

/-- Popping until the list is on top. -/
theorem toList (h : Upright led stack) : ∃ j n,
    stack.dropWhile (fun scr => !scr.isList) = stack.drop j ∧ stack.drop j = [.list n] := by
  induction stack with
  | nil =>
      obtain ⟨m, hm⟩ := h.floor
      simp at hm
  | cons scr rest ih =>
      by_cases hlist : scr.isList = false
      · obtain ⟨j, n, hdrop, hn⟩ := ih (h.pop hlist).1
        refine ⟨j + 1, n, ?_, hn⟩
        rw [List.dropWhile_cons_of_pos (by rw [hlist]; rfl)]
        exact hdrop
      · obtain ⟨m, hm⟩ := h.floor
        rw [Bool.not_eq_false] at hlist
        cases m with
        | succ m => simp [hlist, List.replicate_succ] at hm
        | zero =>
            simp only [List.map_cons, List.replicate_zero, List.nil_append, List.cons.injEq,
              List.map_eq_nil_iff] at hm
            obtain ⟨-, rfl⟩ := hm
            cases scr with
            | list n => exact ⟨0, n, rfl, rfl⟩
            | _ => cases hlist

end Upright

/-- The row cache is right about the tables if no commit has come between. -/
def CacheRight (w : World) (desk : Desk) : Prop :=
  ∀ c, desk.rowCache = some c → c.generation ≤ w.generation ∧
    (c.generation = w.generation → c.rows = queried w.db c.table c.filter c.sort)

/-! ## What a key does -/

/-- The call moves, renames or drops a column. -/
def reshapes : Op RowId → Bool
  | .moveColumn _ _ _ | .renameColumn _ _ _ | .dropColumn _ _ => true
  | _ => false

/-- At most one call was carried out, no drop of a table, and an edit of columns
only if it is the one asked for. -/
structure Did (asks : Option (Op RowId)) (w : World) (desk : Desk) (w' : World) (desk' : Desk) :
    Prop where
  cache : CacheRight w' desk'
  ops : w' = w ∧ desk'.carried = desk.carried ∨
    ∃ op a, desk'.carried = op :: desk.carried ∧ Carries w op a w' ∧
      (reshapes op = true → asks = some op) ∧ ∀ n, op ≠ .dropTable n

/-- What may become of a screen that stays: a browser keeps table and filter. -/
def Likes (scr scr' : Screen) : Prop :=
  ∀ b', scr' = .browser b' → ∃ b, scr = .browser b ∧ b'.table = b.table ∧ b'.filter = b.filter

theorem Likes.refl (scr : Screen) : Likes scr scr := fun b' hb => ⟨b', hb, rfl, rfl⟩

theorem forall₂_likes (stack : List Screen) : List.Forall₂ Likes stack stack :=
  List.forall₂_same.mpr fun scr _ => Likes.refl scr

/-- What may become of the stack: screens go at the top, or one is opened. -/
inductive Turns (db : Database RowId) (stack : List Screen) : List Screen → Prop where
  | stays {kept : List Screen} (j : ℕ) (h : List.Forall₂ Likes (stack.drop j) kept) :
      Turns db stack kept
  | opens {kept : List Screen} (scr : Screen) (hopen : ∀ b, scr = .browser b → Openable db b)
      (h : List.Forall₂ Likes stack kept) : Turns db stack (scr :: kept)

/-- A key has come to its end. -/
structure Pressed (asks : Option (Op RowId)) (w : World) (desk : Desk) (w' : World)
    (desk' : Desk) : Prop where
  cache : CacheRight w' desk'
  upright : Upright w'.led desk'.stack
  turns : Turns w'.db desk.stack desk'.stack
  ops : w' = w ∧ desk'.carried = desk.carried ∨
    ∃ op a, desk'.carried = op :: desk.carried ∧ Carries w op a w' ∧
      (reshapes op = true → asks = some op) ∧ ∀ n, op = .dropTable n → ∃ m, desk'.stack = [.list m]

section Rules

variable {α : Type} {w w' : World} {desk desk' : Desk} {asks : Option (Op RowId)}

/-- What every world satisfies. -/
structure World.Ok (w : World) : Prop where
  intact : w.db.Intact
  given : ∀ t ∈ w.db, ∀ r ∈ t.rows, (t.schema.name, r.1) ∈ w.led

theorem leads_known {m : Ui Disk α} {Q : α → World → Desk → Prop} (h : w.Ok → Leads w desk m Q) :
    Leads w desk m Q := fun pg hpg =>
  h ⟨hpg.mirrored.intact, fun _ ht _ hr => hpg.mirrored.covers ht hr⟩ pg hpg

/-- Looking is doing nothing. -/
theorem did_nothing (hcar : desk'.carried = desk.carried) (h : CacheRight w desk') :
    Did asks w desk w desk' :=
  ⟨h, Or.inl ⟨rfl, hcar⟩⟩

/-- What was done after a look. -/
theorem Did.after {desk₁ : Desk} (h : Did asks w desk₁ w' desk')
    (hcar : desk₁.carried = desk.carried) : Did asks w desk w' desk' := by
  refine ⟨h.cache, ?_⟩
  rw [← hcar]
  exact h.ops

/-- The stack has no part in it. -/
theorem Did.restack (h : Did asks w desk w' desk') (s s' : List Screen) :
    Did asks w { desk with stack := s } w' { desk' with stack := s' } :=
  ⟨h.cache, h.ops⟩

theorem Did.led (h : Did asks w desk w' desk') : ∀ x ∈ w.led, x ∈ w'.led := by
  rcases h.ops with ⟨rfl, -⟩ | ⟨op, a, -, hc, -, hdrop⟩
  · exact fun x hx => hx
  · intro x hx
    rw [hc.led]
    unfold Ledger.note
    split
    · exact List.mem_append_left _ hx
    · next n heq =>
        injection heq with heq
        exact absurd heq (hdrop n)
    · exact hx

theorem Did.pressed (h : Did asks w desk w' desk') (hu : Upright w'.led desk'.stack)
    (ht : Turns w'.db desk.stack desk'.stack) : Pressed asks w desk w' desk' := by
  refine ⟨h.cache, hu, ht, ?_⟩
  rcases h.ops with hnone | ⟨op, a, hcar, hc, hasks, hdrop⟩
  · exact Or.inl hnone
  · exact Or.inr ⟨op, a, hcar, hc, hasks, fun n hn => absurd hn (hdrop n)⟩

/-- Rows of a query are rows the table has given out. -/
theorem queried_given (hw : w.Ok) {table : String} {filter : Option (String × Value)}
    {sort : Option (ℕ × Bool)} {r : RowId × Row} (hr : r ∈ queried w.db table filter sort) :
    (table, r.1) ∈ w.led := by
  have hfiltered : r ∈ filtered ((tableOf w.db table).map (·.schema)) filter
      (((tableOf w.db table).map (·.rows)).getD []) := by
    cases sort with
    | none => exact hr
    | some s => exact (Sorting.byKey_perm _ _ _).mem_iff.mp hr
  have hrows : r ∈ ((tableOf w.db table).map (·.rows)).getD [] := by
    unfold filtered at hfiltered
    split at hfiltered
    · exact hfiltered
    · split at hfiltered
      · exact (List.mem_filter.mp hfiltered).1
      · exact hfiltered
  cases ht : tableOf w.db table with
  | none =>
      rw [ht] at hrows
      exact absurd hrows List.not_mem_nil
  | some t =>
      rw [ht] at hrows
      obtain ⟨hmem, rfl⟩ := tableOf_mem ht
      exact hw.given t hmem r hrows

theorem leads_cached (hc : CacheRight w desk) {table : String} {filter : Option (String × Value)}
    {sort : Option (ℕ × Bool)} {Q : List (RowId × Row) → World → Desk → Prop}
    (h : ∀ c, CacheRight w { desk with rowCache := some c } →
      Q (queried w.db table filter sort) w { desk with rowCache := some c }) :
    Leads w desk (cached table filter sort) Q := by
  refine (leads_get (Q := fun d w' desk' => d = desk ∧ w' = w ∧ desk' = desk)
    ⟨rfl, rfl, rfl⟩).bind ?_
  rintro d w' desk' ⟨rfl, rfl, rfl⟩
  refine Leads.bind (P := fun c w'' desk'' => w'' = w' ∧ desk'' = desk' ∧
    c.rows = queried w'.db table filter sort ∧ c.generation = w'.generation ∧
      c.table = table ∧ c.filter = filter ∧ c.sort = sort) ?_ ?_
  · intro pg hpg c desk'' pg' hrun
    obtain ⟨hread, rfl⟩ := onStore_run hrun
    obtain ⟨c', pg₁, hrun', hstill, hclean, hfresh, hcase⟩ :=
      cachedRows_run hpg.mirrored table filter sort desk''.rowCache
    rw [hread] at hrun'
    cases hrun'
    obtain ⟨htable, hfilter, hsort, hgen⟩ := of_fresh hfresh
    rw [hpg.generation] at hgen
    refine ⟨w', ⟨hpg.mirrored.still hstill hclean,
      (congrArg Superblock.generation hstill.sb).trans hpg.generation⟩, rfl, rfl, ?_, hgen, htable,
        hfilter, hsort⟩
    rcases hcase with hsame | ⟨-, hrows⟩
    · rw [(hc c hsame).2 hgen, htable, hfilter, hsort]
    · exact hrows
  · rintro c w'' desk'' ⟨rfl, rfl, hrows, hgen, htable, hfilter, hsort⟩
    have hright : CacheRight w'' { desk'' with rowCache := some c } := by
      intro c' hc'
      injection hc' with hc'
      subst hc'
      exact ⟨hgen.le, fun _ => by rw [hrows, htable, hfilter, hsort]⟩
    refine (leads_set (Q := fun _ w₁ d₁ => w₁ = w'' ∧ d₁ = { desk'' with rowCache := some c })
      ⟨rfl, rfl⟩).bind ?_
    rintro - w₁ d₁ ⟨rfl, rfl⟩
    refine leads_pure ?_
    rw [hrows]
    exact h c hright

/-- A commit makes the cache old, and anything else leaves it as right as it was. -/
theorem cacheRight_carried {op : Op RowId} {a : Reply RowId} (hc : CacheRight w desk)
    (hcount : w.generation + 1 < 2 ^ 64) (hcar : Carries w op a w') :
    CacheRight w' { desk with carried := op :: desk.carried } := by
  intro c hcache
  obtain ⟨hle, hrows⟩ := hc c hcache
  rcases hcar.tick with hgen | ⟨hgen, hsame⟩
  · rw [hgen, Nat.mod_eq_of_lt hcount]
    exact ⟨by omega, fun heq => by omega⟩
  · rw [hgen]
    exact ⟨hle, fun heq => (hrows heq).trans (hsame _ _ _).symm⟩

/-- A call on the store, where the commit counter has not come to its end. -/
theorem leads_did {op : Op RowId} (hc : CacheRight w desk) (hcount : w.generation + 1 < 2 ^ 64)
    (he : w.led.Covers (.call op)) (hasks : reshapes op = true → asks = some op)
    (hdrop : ∀ n, op ≠ .dropTable n) {Q : Except StoreError (Reply RowId) → World → Desk → Prop}
    (h : ∀ r w' desk', Did asks w desk w' desk' → desk'.stack = desk.stack → Q r w' desk') :
    Leads w desk (carry op) Q :=
  leads_carry he (fun a w' hcar => h _ w' _ ⟨cacheRight_carried hc hcount hcar,
    Or.inr ⟨op, a, rfl, hcar, hasks, hdrop⟩⟩ rfl) fun _ => h _ w _ (did_nothing rfl hc) rfl

theorem leads_pop {scr : Screen} {rest : List Screen} {led : Ledger RowId}
    {Q : Unit → World → Desk → Prop} (hu : Upright led desk.stack)
    (hstack : desk.stack = scr :: rest)
    (hl : scr.isList = false) (h : Q () w { desk with stack := rest }) : Leads w desk pop Q := by
  refine leads_modify ?_
  rw [hstack] at hu
  have hlen : 1 < desk.stack.length := by
    rw [hstack, List.length_cons]
    have hpos := List.length_pos_of_ne_nil (hu.pop hl).2
    omega
  rw [if_pos hlen, hstack]
  exact h

/-- A screen as it is opened. -/
structure Opening (w : World) (scr : Screen) : Prop where
  browser : ∀ b, scr = .browser b → Openable w.db b
  covered : scr.Covered w.led
  list : scr.isList = false

/-- A screen that holds no rows, as it is opened. -/
theorem opening_other {scr : Screen} (hb : ∀ b, scr ≠ .browser b) (hc : scr.Covered w.led)
    (hl : scr.isList = false) : Opening w scr :=
  ⟨fun b h => absurd h (hb b), hc, hl⟩

/-- The screens that a move puts on the stack. -/
def Pushes (w : World) (nav : Nav Screen) : Prop := ∀ new, nav = .push new → Opening w new

theorem pushes_none : Pushes w .none := fun new h => by cases h

theorem pushes_pop : Pushes w .pop := fun new h => by cases h

theorem pushes_push {scr : Screen} (h : Opening w scr) : Pushes w (.push scr) := by
  intro new hnew
  cases hnew
  exact h

/-- What a screen that was on top hands back. -/
structure Handed (w : World) (scr₀ scr : Screen) (nav : Nav Screen) : Prop where
  likes : Likes scr₀ scr
  covered : scr.Covered w.led
  list : scr.isList = scr₀.isList
  pop : nav = .pop → scr.isList = false
  push : Pushes w nav

/-- The stack below the top screen may have changed on the way. -/
theorem leads_back {scr₀ scr top : Screen} {rest rest' : List Screen} {nav : Nav Screen}
    (hd : Did asks w desk w' desk') (hu : Upright w'.led desk'.stack)
    (hstack : desk.stack = scr₀ :: rest) (hstack' : desk'.stack = top :: rest')
    (hrest : List.Forall₂ Likes rest rest') (htop : top.isList = scr₀.isList)
    (h : Handed w' scr₀ scr nav) :
    Leads w' desk' (back scr nav) fun _ w'' desk'' => Pressed asks w desk w'' desk'' := by
  rw [hstack'] at hu
  have hup : Upright w'.led (scr :: rest') := hu.top h.covered (h.list.trans htop.symm)
  have hkept : List.Forall₂ Likes desk.stack (scr :: rest') := by
    rw [hstack]
    exact .cons h.likes hrest
  refine (leads_modify (Q := fun _ w₁ d₁ => w₁ = w' ∧ d₁ = { desk' with stack := scr :: rest' })
    ⟨rfl, by rw [hstack']; rfl⟩).bind ?_
  rintro - w₁ d₁ ⟨rfl, rfl⟩
  have hd' : Did asks w desk w₁ { desk' with stack := scr :: rest' } := hd.restack desk.stack _
  cases nav with
  | none => exact leads_pure (hd'.pressed hup (.stays 0 hkept))
  | pop =>
      have hl := h.pop rfl
      refine leads_pop hup rfl hl ((hd.restack desk.stack rest').pressed (hup.pop hl).1
        (.stays 1 ?_))
      rw [hstack]
      exact hrest
  | push new =>
      have hopen := h.push new rfl
      exact leads_modify ((hd.restack desk.stack (new :: scr :: rest')).pressed
        (hup.push hopen.covered hopen.list) (.opens new hopen.browser hkept))
  | popToList =>
      obtain ⟨j, n, hdrop, hn⟩ := hup.toList
      refine leads_modify ((hd.restack desk.stack _).pressed ?_ (.stays j ?_))
      · change Upright w₁.led (List.dropWhile (fun s => !s.isList) (scr :: rest'))
        rw [hdrop, hn]
        exact Upright.bottom _ n
      · change List.Forall₂ _ _ (List.dropWhile (fun s => !s.isList) (scr :: rest'))
        rw [hdrop]
        exact List.forall₂_drop j hkept

end Rules

/-! ## Looking -/

/-- Whatever comes of it, tables and stack are what they were, and the row cache is
right. -/
def Looks {α : Type} (w : World) (m : Ui Disk α) (P : α → Prop) : Prop :=
  ∀ desk, CacheRight w desk → Leads w desk m fun a w' desk' => w' = w ∧
    desk'.stack = desk.stack ∧ desk'.carried = desk.carried ∧ CacheRight w desk' ∧ P a

section Looking

variable {α β : Type} {w : World} {desk : Desk} {asks : Option (Op RowId)}

theorem looks_pure {a : α} {P : α → Prop} (h : P a) : Looks w (pure a : Ui Disk α) P :=
  fun _ hc => leads_pure ⟨rfl, rfl, rfl, hc, h⟩

theorem Looks.bind {m : Ui Disk α} {f : α → Ui Disk β} {P : α → Prop} {Q : β → Prop}
    (hm : Looks w m P) (hf : ∀ a, P a → Looks w (f a) Q) : Looks w (m >>= f) Q := by
  intro desk hc
  refine (hm desk hc).bind ?_
  rintro a w' desk₁ ⟨rfl, hstack, hcar, hc₁, hp⟩
  refine (hf a hp desk₁ hc₁).mono ?_
  rintro b w'' desk₂ ⟨rfl, hstack', hcar', hc₂, hq⟩
  exact ⟨rfl, hstack'.trans hstack, hcar'.trans hcar, hc₂, hq⟩

theorem Looks.mono {m : Ui Disk α} {P Q : α → Prop} (hm : Looks w m P) (h : ∀ a, P a → Q a) :
    Looks w m Q := by
  intro desk hc
  refine (hm desk hc).mono ?_
  rintro a w' desk' ⟨hw, hstack, hcar, hc', hp⟩
  exact ⟨hw, hstack, hcar, hc', h a hp⟩

theorem looks_known {m : Ui Disk α} {P : α → Prop} (h : w.Ok → Looks w m P) : Looks w m P :=
  fun desk hc => leads_known fun hw => h hw desk hc

theorem looks_onStore {m : Asking Disk α} {P : α → Prop} (h : Peeks w.led w.db m P) :
    Looks w (onStore m) P :=
  fun _ hc => leads_onStore h fun _ hp => ⟨rfl, rfl, rfl, hc, hp⟩

theorem looks_cached (table : String) (filter : Option (String × Value))
    (sort : Option (ℕ × Bool)) :
    Looks w (cached table filter sort : Ui Disk _) (· = queried w.db table filter sort) :=
  fun _ hc => leads_cached hc fun _ hc' => ⟨rfl, rfl, rfl, hc', rfl⟩

end Looking

end Views

end TablesOS
