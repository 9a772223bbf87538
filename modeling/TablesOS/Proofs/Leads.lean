import TablesOS.Kernel.Screens
import TablesOS.Proofs.RowCache

/-!
# What a screen's step leads to

A step of the UI starts at a desk and on a handle that stores some tables, and
wherever it comes to an end there are a desk and tables again. `Leads` says what
holds of those; its rules follow the steps of a screen: reads change nothing, a
call that is carried out is one step of the model, and what is done to the desk
is done to the desk alone.
-/

namespace TablesOS

open Store Pager

namespace Views

open Asking Ui

/-- What there is to know of the store: the ids that were handed out, the tables,
and the commit counter. -/
structure World where
  led : Ledger RowId
  db : Database RowId
  generation : ℕ

/-- The handle stores that. -/
structure World.At (w : World) (pg : Pager Disk) : Prop where
  mirrored : Mirrored w.led pg w.db
  generation : pg.sb.generation = w.generation

/-- Wherever the step comes to an end, `Q` holds of what it has come to. -/
def Leads {α : Type} (w : World) (desk : Desk) (m : Ui Disk α) (Q : α → World → Desk → Prop) :
    Prop :=
  ∀ pg, w.At pg → ∀ a desk' pg', m desk pg = .ok ((a, desk'), pg') → ∃ w', w'.At pg' ∧ Q a w' desk'

section Runs

variable {α β : Type} {desk desk' : Desk} {pg pg' : Pager Disk} {a : α}

theorem ui_bind_run {m : Ui Disk α} (h : m desk pg = .ok ((a, desk'), pg')) (f : α → Ui Disk β) :
    (m >>= f) desk pg = f a desk' pg' := by
  show (m desk pg >>= fun r => f r.1.1 r.1.2 r.2) = _
  rw [h]
  rfl

theorem onStore_eq {m : Asking Disk α} (h : m pg = .ok (a, pg')) :
    onStore m desk pg = .ok ((a, desk), pg') := by
  show (m pg >>= fun r => .ok ((r.1, desk), r.2)) = _
  rw [h]
  rfl

/-- A query through the row cache. -/
theorem cached_run {table : String} {filter : Option (String × Value)} {sort : Option (ℕ × Bool)}
    {c : RowCache} (h : cachedRows table filter sort desk.rowCache pg = .ok (c, pg')) :
    cached table filter sort desk pg = .ok ((c.rows, { desk with rowCache := some c }), pg') := by
  have hget : (get : Ui Disk Desk) desk pg = .ok ((desk, desk), pg) := rfl
  unfold cached
  rw [ui_bind_run hget, ui_bind_run (onStore_eq h)]
  rfl

/-- Drawing with a browser on top. -/
theorem drawnRows_run {b : Browser} {rest : List Screen} (h : desk.stack = .browser b :: rest) :
    drawnRows desk pg = cached b.table b.filter b.sort desk pg := by
  have hget : (get : Ui Disk Desk) desk pg = .ok ((desk, desk), pg) := rfl
  unfold drawnRows
  rw [ui_bind_run hget, h]

end Runs

section Rules

variable {α β : Type} {w : World} {desk : Desk}

theorem leads_pure {a : α} {Q : α → World → Desk → Prop} (h : Q a w desk) :
    Leads w desk (pure a) Q := by
  intro pg hpg a' desk' pg' hrun
  cases hrun
  exact ⟨w, hpg, h⟩

theorem Leads.bind {m : Ui Disk α} {f : α → Ui Disk β} {P : α → World → Desk → Prop}
    {Q : β → World → Desk → Prop} (hm : Leads w desk m P)
    (hf : ∀ a w' desk', P a w' desk' → Leads w' desk' (f a) Q) : Leads w desk (m >>= f) Q := by
  intro pg hpg b desk₂ pg₂ hrun
  change (m desk pg >>= fun r => f r.1.1 r.1.2 r.2) = _ at hrun
  rcases hfirst : m desk pg with r | e | _ | _
  · obtain ⟨⟨a, desk₁⟩, pg₁⟩ := r
    rw [hfirst] at hrun
    obtain ⟨w₁, hpg₁, hp⟩ := hm pg hpg a desk₁ pg₁ hfirst
    exact hf a w₁ desk₁ hp pg₁ hpg₁ b desk₂ pg₂ hrun
  · exact e.elim
  · rw [hfirst] at hrun
    cases hrun
  · rw [hfirst] at hrun
    cases hrun

theorem Leads.mono {m : Ui Disk α} {P Q : α → World → Desk → Prop} (hm : Leads w desk m P)
    (h : ∀ a w' desk', P a w' desk' → Q a w' desk') : Leads w desk m Q := by
  intro pg hpg a desk' pg' hrun
  obtain ⟨w', hpg', hp⟩ := hm pg hpg a desk' pg' hrun
  exact ⟨w', hpg', h a w' desk' hp⟩

/-- A step that never ends well. -/
theorem leads_never {m : Ui Disk α} {Q : α → World → Desk → Prop}
    (h : ∀ pg r, m desk pg ≠ .ok r) : Leads w desk m Q := by
  intro pg _ a desk' pg' hrun
  exact absurd hrun (h pg _)

theorem leads_get {Q : Desk → World → Desk → Prop} (h : Q desk w desk) :
    Leads w desk (get : Ui Disk Desk) Q := by
  intro pg hpg a desk' pg' hrun
  cases hrun
  exact ⟨w, hpg, h⟩

theorem leads_modify {f : Desk → Desk} {Q : Unit → World → Desk → Prop} (h : Q () w (f desk)) :
    Leads w desk (modify f : Ui Disk Unit) Q := by
  intro pg hpg a desk' pg' hrun
  cases hrun
  exact ⟨w, hpg, h⟩

theorem leads_set {desk₁ : Desk} {Q : Unit → World → Desk → Prop} (h : Q () w desk₁) :
    Leads w desk (set desk₁ : Ui Disk Unit) Q := by
  intro pg hpg a desk' pg' hrun
  cases hrun
  exact ⟨w, hpg, h⟩

theorem onStore_run {m : Asking Disk α} {pg pg' : Pager Disk} {a : α} {desk' : Desk}
    (h : onStore m desk pg = .ok ((a, desk'), pg')) : m pg = .ok (a, pg') ∧ desk' = desk := by
  change (m pg >>= fun r => .ok ((r.1, desk), r.2)) = _ at h
  rcases hm : m pg with r | e | _ | _
  · rw [hm] at h
    cases h
    exact ⟨rfl, rfl⟩
  · exact e.elim
  · rw [hm] at h
    cases h
  · rw [hm] at h
    cases h

/-- Reads change nothing. -/
theorem leads_onStore {m : Asking Disk α} {P : α → Prop} (hm : Peeks w.led w.db m P)
    {Q : α → World → Desk → Prop} (h : ∀ a, P a → Q a w desk) : Leads w desk (onStore m) Q := by
  intro pg hpg a desk' pg' hrun
  obtain ⟨hread, rfl⟩ := onStore_run hrun
  obtain ⟨hstill, hclean, hp⟩ := hm pg hpg.mirrored a pg' hread
  exact ⟨w, ⟨hpg.mirrored.still hstill hclean,
    (congrArg Superblock.generation hstill.sb).trans hpg.generation⟩, h a hp⟩

/-- The world after a call that was carried out: the next tables, and a commit
unless everything is as it was. -/
structure Carries (w : World) (op : Op RowId) (a : Reply RowId) (w' : World) : Prop where
  step : ∃ fresh, w.db.step fresh op = (.ok a, w'.db)
  led : w'.led = w.led.note (.call op) a
  tick : w'.generation = (w.generation + 1) % 2 ^ 64 ∨ w'.generation = w.generation ∧
    ∀ table filter sort, queried w'.db table filter sort = queried w.db table filter sort

/-- A call that may change the store. One that is refused changes nothing. -/
theorem leads_carry {op : Op RowId} (he : w.led.Covers (.call op))
    {Q : Except StoreError (Reply RowId) → World → Desk → Prop}
    (hok : ∀ a w', Carries w op a w' → Q (.ok a) w' { desk with carried := op :: desk.carried })
    (herr : ∀ e, Q (.error e) w desk) : Leads w desk (carry op) Q := by
  refine Leads.bind (P := fun r w' desk' => desk' = desk ∧
    ((∃ a, r = .ok a ∧ Carries w op a w') ∨ ∃ e, r = .error e ∧ w' = w)) ?_ ?_
  · intro pg hpg r desk' pg' hrun
    obtain ⟨hask, rfl⟩ := onStore_run hrun
    clear hrun
    obtain ⟨fresh, hnew, ho, hnext, hstill⟩ := happen_mirrored hpg.mirrored (.call op) he
    have hcommits := hpg.mirrored.commits he
    unfold Asking.ask at hask
    change (run op pg).1 = _ at ho
    change ∀ err, (run op pg).1 = .err err → Still pg (run op pg).2 ∧ _ at hstill
    change Mirrored (w.led.after (.call op) (run op pg).1) (run op pg).2 _ at hnext
    rcases hop : run op pg with ⟨o, pg₁⟩
    rw [hop] at hask ho hstill hcommits hnext
    cases o with
    | ok a =>
        cases hask
        obtain ⟨id, rfl⟩ : ∃ id, fresh = some id := by
          cases fresh with
          | none => cases ho
          | some id => exact ⟨id, rfl⟩
        have hstep : (w.db.step id op).1 = .ok a := Outcome.ofExcept_eq_ok.mp ho.symm
        have htick : pg'.sb.generation = (w.generation + 1) % 2 ^ 64 ∨
            pg'.sb.generation = w.generation ∧ ∀ table filter sort,
              queried (w.db.step id op).2 table filter sort = queried w.db table filter sort := by
          rw [← hpg.generation]
          rcases hcommits with hst | ⟨-, hgen⟩
          · exact Or.inr ⟨congrArg Superblock.generation hst.sb, fun table filter sort =>
              queried_still hpg.mirrored hst hnext table filter sort⟩
          · exact Or.inl hgen
        exact ⟨⟨w.led.note (.call op) a, (w.db.step id op).2, pg'.sb.generation⟩, ⟨hnext, rfl⟩,
          rfl, Or.inl ⟨a, rfl, ⟨id, Prod.ext hstep rfl⟩, rfl, htick⟩⟩
    | err e =>
        cases hask
        obtain ⟨hst, hdb⟩ := hstill e rfl
        rw [hdb] at hnext
        exact ⟨w, ⟨hnext, (congrArg Superblock.generation hst.sb).trans hpg.generation⟩, rfl,
          Or.inr ⟨e, rfl, rfl⟩⟩
    | panic => cases hask
    | diverge => cases hask
  · rintro r w' desk' ⟨rfl, ⟨a, rfl, hc⟩ | ⟨e, rfl, rfl⟩⟩
    · refine (leads_modify (Q := fun _ w'' desk'' => w'' = w' ∧ desk'' = { desk' with
        carried := op :: desk'.carried }) ⟨rfl, rfl⟩).bind ?_
      rintro - w'' desk'' ⟨rfl, rfl⟩
      exact leads_pure (hok a _ hc)
    · exact leads_pure (herr e)

end Rules

end Views

end TablesOS
