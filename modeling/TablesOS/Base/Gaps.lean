import Mathlib.Data.List.Basic
import Mathlib.Logic.Function.Iterate

/-!
# Pieces with gaps between them

A row is cut into pieces where two or more blanks stand together; a single
blank belongs to the piece around it. `layout` reads the gaps and the pieces
off a row, `lay` puts them in a row again, and the two are inverse: a row has
one layout, and what is laid out that way has no other.
-/

namespace TablesOS

namespace Gaps

variable {α : Type} (b : α)

/-- No blank at either end, and no two blanks together. -/
inductive IsPiece : List α → Prop
  | single {c : α} (hc : c ≠ b) : IsPiece [c]
  | letter {c : α} {o : List α} (hc : c ≠ b) (ho : IsPiece o) : IsPiece (c :: o)
  | blank {c : α} {o : List α} (hc : c ≠ b) (ho : IsPiece o) : IsPiece (c :: b :: o)

/-- Pieces, each with the gap before it. -/
abbrev Pieces (α : Type) := List (ℕ × List α)

/-- The pieces in a row, with a gap behind the last. -/
def lay : Pieces α → ℕ → List α
  | [], t => List.replicate t b
  | (g, o) :: ps, t => List.replicate g b ++ (o ++ lay ps t)

/-- Pieces that keep apart from what stands before them. -/
def Apart (ps : Pieces α) : Prop := ∀ p ∈ ps, IsPiece b p.2 ∧ 2 ≤ p.1

/-- Pieces that keep apart from each other. -/
inductive WellLaid : Pieces α → Prop
  | nil : WellLaid []
  | cons {g : ℕ} {o : List α} {ps : Pieces α} (ho : IsPiece b o) (hps : Apart b ps) :
      WellLaid ((g, o) :: ps)

variable {b}

theorem IsPiece.ne_nil {o : List α} (h : IsPiece b o) : o ≠ [] := by
  cases h <;> exact List.cons_ne_nil _ _

theorem Apart.wellLaid {ps : Pieces α} (h : Apart b ps) : WellLaid b ps := by
  cases ps with
  | nil => exact .nil
  | cons p ps =>
      exact .cons (h p List.mem_cons_self).1 fun q hq => h q (List.mem_cons_of_mem _ hq)

theorem WellLaid.piece {ps : Pieces α} (h : WellLaid b ps) {p : ℕ × List α} (hp : p ∈ ps) :
    IsPiece b p.2 := by
  cases h with
  | nil => cases hp
  | cons ho hps =>
      rcases List.mem_cons.mp hp with rfl | hp
      · exact ho
      · exact (hps p hp).1

/-! ## The layout of a row -/

/-- A blank in front of a layout. -/
def blankStep : Pieces α × ℕ → Pieces α × ℕ
  | ([], t) => ([], t + 1)
  | ((g, o) :: ps, t) => ((g + 1, o) :: ps, t)

variable (b) in
/-- Something else in front of a layout: it belongs to the first piece, unless two blanks
part them. -/
def letterStep (c : α) : Pieces α × ℕ → Pieces α × ℕ
  | ([], t) => ([(0, [c])], t)
  | ((0, o) :: ps, t) => ((0, c :: o) :: ps, t)
  | ((1, o) :: ps, t) => ((0, c :: b :: o) :: ps, t)
  | ((g + 2, o) :: ps, t) => ((0, [c]) :: (g + 2, o) :: ps, t)

theorem lay_blankStep (r : Pieces α × ℕ) :
    lay b (blankStep r).1 (blankStep r).2 = b :: lay b r.1 r.2 := by
  obtain ⟨_ | ⟨⟨g, o⟩, ps⟩, t⟩ := r
  · rfl
  · rfl

theorem lay_letterStep (c : α) (r : Pieces α × ℕ) :
    lay b (letterStep b c r).1 (letterStep b c r).2 = c :: lay b r.1 r.2 := by
  obtain ⟨_ | ⟨⟨_ | _ | g, o⟩, ps⟩, t⟩ := r
  · rfl
  · rfl
  · rfl
  · rfl

theorem wellLaid_blankStep {r : Pieces α × ℕ} (h : WellLaid b r.1) :
    WellLaid b (blankStep r).1 := by
  obtain ⟨_ | ⟨⟨g, o⟩, ps⟩, t⟩ := r
  · exact .nil
  · cases h with
    | cons ho hps => exact .cons ho hps

theorem wellLaid_letterStep {c : α} (hc : c ≠ b) {r : Pieces α × ℕ} (h : WellLaid b r.1) :
    WellLaid b (letterStep b c r).1 := by
  obtain ⟨_ | ⟨⟨g, o⟩, ps⟩, t⟩ := r
  · exact .cons (.single hc) fun p hp => absurd hp List.not_mem_nil
  · cases h with
    | cons ho hps =>
        match g with
        | 0 => exact .cons (.letter hc ho) hps
        | 1 => exact .cons (.blank hc ho) hps
        | g + 2 =>
            refine .cons (.single hc) fun p hp => ?_
            rcases List.mem_cons.mp hp with rfl | hp
            · exact ⟨ho, Nat.le_add_left 2 g⟩
            · exact hps p hp

theorem blankStep_iterate (g k : ℕ) (o : List α) (ps : Pieces α) (t : ℕ) :
    blankStep^[g] ((k, o) :: ps, t) = ((k + g, o) :: ps, t) := by
  induction g with
  | zero => rfl
  | succ g ih =>
      rw [Function.iterate_succ_apply', ih]
      rfl

variable [DecidableEq α]

variable (b) in
/-- One place of a row. -/
def layoutStep (c : α) (r : Pieces α × ℕ) : Pieces α × ℕ :=
  if c = b then blankStep r else letterStep b c r

variable (b) in
/-- The layout of a row. -/
def layout (text : List α) : Pieces α × ℕ := text.foldr (layoutStep b) ([], 0)

variable (b) in
/-- The pieces of a row. -/
def pieces (text : List α) : List (List α) := (layout b text).1.map Prod.snd

/-- Laying out what was read gives the row again. -/
theorem lay_layout (text : List α) : lay b (layout b text).1 (layout b text).2 = text := by
  induction text with
  | nil => rfl
  | cons c text ih =>
      have hstep : layout b (c :: text) = layoutStep b c (layout b text) := rfl
      rw [hstep, layoutStep]
      split
      · next hc => rw [lay_blankStep, ih, hc]
      · rw [lay_letterStep, ih]

theorem wellLaid_layout (text : List α) : WellLaid b (layout b text).1 := by
  induction text with
  | nil => exact .nil
  | cons c text ih =>
      have hstep : layout b (c :: text) = layoutStep b c (layout b text) := rfl
      rw [hstep, layoutStep]
      split
      · exact wellLaid_blankStep ih
      · next hc => exact wellLaid_letterStep hc ih

theorem layout_blanks (text : List α) (g : ℕ) :
    layout b (List.replicate g b ++ text) = blankStep^[g] (layout b text) := by
  induction g with
  | zero => rfl
  | succ g ih =>
      have hstep : layout b (List.replicate (g + 1) b ++ text)
          = layoutStep b b (layout b (List.replicate g b ++ text)) := rfl
      rw [hstep, layoutStep, if_pos rfl, ih, Function.iterate_succ_apply']

/-- A piece in front of pieces that keep apart from it. -/
theorem layout_piece {o : List α} (ho : IsPiece b o) {text : List α} {ps : Pieces α} {t : ℕ}
    (h : layout b text = (ps, t)) (hps : Apart b ps) :
    layout b (o ++ text) = ((0, o) :: ps, t) := by
  induction ho with
  | @single c hc =>
      have hstep : layout b ([c] ++ text) = layoutStep b c (layout b text) := rfl
      rw [hstep, layoutStep, if_neg hc, h]
      match ps with
      | [] => rfl
      | (g, o) :: ps =>
          obtain ⟨k, rfl⟩ := Nat.exists_eq_add_of_le' (hps _ List.mem_cons_self).2
          rfl
  | @letter c o hc _ ih =>
      have hstep : layout b (c :: o ++ text) = layoutStep b c (layout b (o ++ text)) := rfl
      rw [hstep, layoutStep, if_neg hc, ih]
      rfl
  | @blank c o hc _ ih =>
      have hstep : layout b (c :: b :: o ++ text)
          = layoutStep b c (layoutStep b b (layout b (o ++ text))) := rfl
      rw [hstep, ih, layoutStep, if_neg hc, layoutStep, if_pos rfl]
      rfl

theorem layout_lay_apart {ps : Pieces α} (h : Apart b ps) (t : ℕ) :
    layout b (lay b ps t) = (ps, t) := by
  induction ps with
  | nil =>
      have hnil : ∀ t, blankStep^[t] (([], 0) : Pieces α × ℕ) = ([], t) := by
        intro t
        induction t with
        | zero => rfl
        | succ t ih =>
            rw [Function.iterate_succ_apply', ih]
            rfl
      have hblanks := layout_blanks (b := b) [] t
      rw [List.append_nil] at hblanks
      rw [lay, hblanks]
      exact hnil t
  | cons p ps ih =>
      have htail : Apart b ps := fun q hq => h q (List.mem_cons_of_mem _ hq)
      rw [lay, layout_blanks, layout_piece (h p List.mem_cons_self).1 (ih htail) htail,
        blankStep_iterate, Nat.zero_add]

/-- What is laid out has the layout it was laid out with. -/
theorem layout_lay {ps : Pieces α} (h : WellLaid b ps) (t : ℕ) :
    layout b (lay b ps t) = (ps, t) := by
  cases h with
  | nil => exact layout_lay_apart (fun p hp => absurd hp List.not_mem_nil) t
  | cons ho hps =>
      rw [lay, layout_blanks, layout_piece ho (layout_lay_apart hps t) hps, blankStep_iterate,
        Nat.zero_add]

end Gaps

end TablesOS
