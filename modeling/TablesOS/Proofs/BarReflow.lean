import TablesOS.Base.Gaps
import TablesOS.Kernel.ShortcutBar
import Mathlib.Data.List.TakeWhile

/-!
# Reflowing key-hint bars

The options of a bar are the pieces of its text, so what is proved of layouts
holds of bars. The source finds the options in one pass from the left, and
packs them into lines from the left; each line is then a layout again, with
gaps of two. A click is resolved by a scan for brackets which knows nothing of
options. Where brackets close within their options the scan crosses no gap
inside a hot word, so what it finds in an option depends on that option alone.
-/

namespace TablesOS

namespace Bar

open Gaps

/-- The options of a bar. -/
abbrev options (text : List Char) : List (List Char) := pieces ' ' text

/-! ## Splitting -/

theorem foldl_blanks (g : ℕ) (s : Splitting) :
    (List.replicate g ' ').foldl Splitting.next s = { s with spaces := s.spaces + g } := by
  induction g generalizing s with
  | zero => rfl
  | succ g ih =>
      have hnext : Splitting.next s ' ' = { s with spaces := s.spaces + 1 } := rfl
      rw [List.replicate_succ, List.foldl_cons, hnext, ih, Nat.add_right_comm, Nat.add_assoc]

theorem next_letter {c : Char} (hc : c ≠ ' ') (s : Splitting) :
    Splitting.next s c = ⟨s.close.segs, s.close.cur ++ [c], 0⟩ :=
  if_neg hc

theorem close_fresh (segs : List (List Char)) (cur : List Char) :
    Splitting.close ⟨segs, cur, 0⟩ = ⟨segs, cur, 0⟩ := rfl

/-- An option is taken as it stands, whatever it closes. -/
theorem foldl_option {o : List Char} (ho : IsPiece ' ' o) (s : Splitting) :
    o.foldl Splitting.next s = ⟨s.close.segs, s.close.cur ++ o, 0⟩ := by
  induction ho generalizing s with
  | single hc => exact next_letter hc s
  | letter hc _ ih =>
      rw [List.foldl_cons, next_letter hc, ih, close_fresh, List.append_assoc]
      rfl
  | @blank c o hc _ ih =>
      have hclose : Splitting.close ⟨s.close.segs, s.close.cur ++ [c], 1⟩
          = ⟨s.close.segs, s.close.cur ++ [c] ++ [' '], 1⟩ := by
        simp [Splitting.close]
      have hspace : Splitting.next ⟨s.close.segs, s.close.cur ++ [c], 0⟩ ' '
          = ⟨s.close.segs, s.close.cur ++ [c], 1⟩ := rfl
      rw [List.foldl_cons, List.foldl_cons, next_letter hc, hspace, ih, hclose, List.append_assoc,
        List.append_assoc]
      rfl

theorem finish_of_ne {s : Splitting} (h : s.cur ≠ []) : s.finish = s.segs ++ [s.cur] := if_neg h

theorem foldl_apart {ps : Pieces Char} (h : Apart ' ' ps) (t : ℕ) (segs : List (List Char))
    {cur : List Char} (hcur : cur ≠ []) :
    ((lay ' ' ps t).foldl Splitting.next ⟨segs, cur, 0⟩).finish
      = segs ++ [cur] ++ ps.map Prod.snd := by
  induction ps generalizing segs cur with
  | nil =>
      rw [lay, foldl_blanks, finish_of_ne hcur, List.map_nil, List.append_nil]
  | cons p ps ih =>
      obtain ⟨hp, hgap⟩ := h p List.mem_cons_self
      have hclose : Splitting.close ⟨segs, cur, 0 + p.1⟩ = ⟨segs ++ [cur], [], 0 + p.1⟩ := by
        simp [Splitting.close, hcur, hgap]
      rw [lay, List.foldl_append, List.foldl_append, foldl_blanks, foldl_option hp, hclose,
        List.nil_append, ih (fun q hq => h q (List.mem_cons_of_mem _ hq)) _ hp.ne_nil,
        List.map_cons, List.append_assoc (segs ++ [cur])]
      rfl

theorem splitOptions_lay {ps : Pieces Char} (h : WellLaid ' ' ps) (t : ℕ) :
    splitOptions (lay ' ' ps t) = ps.map Prod.snd := by
  unfold splitOptions
  cases h with
  | nil =>
      rw [lay, foldl_blanks]
      rfl
  | @cons g o ps ho hps =>
      have hclose : Splitting.close ⟨[], [], 0 + g⟩ = ⟨[], [], 0 + g⟩ := by
        simp [Splitting.close]
      rw [lay, List.foldl_append, List.foldl_append, foldl_blanks, foldl_option ho, hclose,
        List.nil_append, foldl_apart hps t [] ho.ne_nil]
      rfl

/-- `split_options` finds the options. -/
theorem splitOptions_eq (text : List Char) : splitOptions text = options text := by
  have hsplit := splitOptions_lay (wellLaid_layout text) (layout ' ' text).2
  rwa [lay_layout] at hsplit

/-! ## Packing -/

/-- Options with the separator between them. -/
def gapped : List (List Char) → Pieces Char
  | [] => []
  | o :: os => (0, o) :: os.map (Prod.mk 2)

/-- A line of options. -/
def joined (os : List (List Char)) : List Char := lay ' ' (gapped os) 0

theorem gapped_options (os : List (List Char)) : (gapped os).map Prod.snd = os := by
  cases os with
  | nil => rfl
  | cons o os => simp [gapped]

theorem wellLaid_gapped {os : List (List Char)} (h : ∀ o ∈ os, IsPiece ' ' o) :
    WellLaid ' ' (gapped os) := by
  cases os with
  | nil => exact .nil
  | cons o os =>
      refine .cons (h o List.mem_cons_self) fun p hp => ?_
      obtain ⟨o', ho', rfl⟩ := List.mem_map.mp hp
      exact ⟨h o' (List.mem_cons_of_mem _ ho'), Nat.le_refl 2⟩

theorem layout_joined {os : List (List Char)} (h : ∀ o ∈ os, IsPiece ' ' o) :
    layout ' ' (joined os) = (gapped os, 0) :=
  layout_lay (wellLaid_gapped h) 0

theorem options_joined {os : List (List Char)} (h : ∀ o ∈ os, IsPiece ' ' o) :
    options (joined os) = os := by
  show (layout ' ' (joined os)).1.map Prod.snd = os
  rw [layout_joined h, gapped_options]

theorem lay_concat (ps : Pieces Char) (g : ℕ) (o : List Char) :
    lay ' ' (ps ++ [(g, o)]) 0 = lay ' ' ps 0 ++ (List.replicate g ' ' ++ o) := by
  induction ps with
  | nil => simp [lay]
  | cons p ps ih =>
      obtain ⟨g', o'⟩ := p
      rw [List.cons_append, lay, ih, lay, List.append_assoc, List.append_assoc]

theorem joined_concat {os : List (List Char)} (h : os ≠ []) (o : List Char) :
    joined (os ++ [o]) = joined os ++ [' ', ' '] ++ o := by
  obtain ⟨o', os, rfl⟩ := List.exists_cons_of_ne_nil h
  have hgapped : gapped (o' :: os ++ [o]) = gapped (o' :: os) ++ [(2, o)] := by
    simp [gapped]
  rw [joined, hgapped, lay_concat, List.append_assoc]
  rfl

theorem joined_ne_nil {o : List Char} {os : List (List Char)} (h : o ≠ []) :
    joined (o :: os) ≠ [] := by
  simp [joined, gapped, lay, h]

/-- A group of options on a line: it fits, or it is alone there. -/
def Group (maxCols : ℕ) (os : List (List Char)) : Prop :=
  (joined os).length ≤ maxCols ∨ os.length = 1

/-- What the packing has done with the options so far: lines of groups, and one group that
is still open. -/
def Packed (maxCols : ℕ) (os : List (List Char)) (s : Packing) : Prop :=
  ∃ (done : List (List (List Char))) (last : List (List Char)), s.lines = done.map joined ∧
    s.cur = joined last ∧ done.flatten ++ last = os ∧ (∀ g ∈ done, Group maxCols g) ∧
      (last ≠ [] → Group maxCols last)

theorem Packed.next {maxCols : ℕ} {os : List (List Char)} {s : Packing} {o : List Char}
    (h : Packed maxCols os s) (ho : ∀ o' ∈ os ++ [o], IsPiece ' ' o') :
    Packed maxCols (os ++ [o]) (s.next maxCols o) := by
  obtain ⟨done, last, hlines, hcur, rfl, hdone, hlast⟩ := h
  have hsingle : joined [o] = o := by simp [joined, gapped, lay]
  cases last with
  | nil =>
      have hempty : s.cur = [] := hcur
      rw [Packing.next, if_pos hempty]
      refine ⟨done, [o], hlines, hsingle.symm, by simp, hdone, fun _ => Or.inr rfl⟩
  | cons o' last =>
      have hne : s.cur ≠ [] := by
        rw [hcur]
        exact joined_ne_nil (ho o' (by simp)).ne_nil
      have hconcat := joined_concat (List.cons_ne_nil o' last) o
      rw [Packing.next, if_neg hne]
      split
      · next hfits =>
          refine ⟨done, o' :: last ++ [o], hlines, ?_, by simp, hdone, fun _ => Or.inl ?_⟩
          · rw [hconcat, hcur]
          · rw [hconcat, ← hcur]
            rw [List.length_append, List.length_append]
            exact hfits
      · refine ⟨done ++ [o' :: last], [o], ?_, hsingle.symm, by simp, fun g hg => ?_,
          fun _ => Or.inr rfl⟩
        · rw [hlines, hcur, List.map_append]
          rfl
        · rcases List.mem_append.mp hg with hg | hg
          · exact hdone g hg
          · rw [List.mem_singleton.mp hg]
            exact hlast (List.cons_ne_nil _ _)

theorem Packed.run {maxCols : ℕ} (rest : List (List Char)) {os : List (List Char)} {s : Packing}
    (h : Packed maxCols os s) (ho : ∀ o ∈ os ++ rest, IsPiece ' ' o) :
    Packed maxCols (os ++ rest) (rest.foldl (Packing.next maxCols) s) := by
  induction rest generalizing os s with
  | nil => simpa using h
  | cons o rest ih =>
      have hpieces : ∀ o' ∈ os ++ [o], IsPiece ' ' o' := by
        intro o' ho'
        refine ho o' ?_
        rw [List.append_cons]
        exact List.mem_append_left _ ho'
      rw [List.append_cons] at ho ⊢
      exact ih (h.next hpieces) ho

theorem isPiece_option {text o : List Char} (h : o ∈ options text) : IsPiece ' ' o := by
  obtain ⟨p, hp, rfl⟩ := List.mem_map.mp h
  exact (wellLaid_layout text).piece hp

/-- The lines of a bar are groups of its options. -/
theorem wrapOptions_groups (text : List Char) (maxCols : ℕ) :
    ∃ groups, wrapOptions text maxCols = groups.map joined ∧ groups.flatten = options text ∧
      groups ≠ [] ∧ ∀ g ∈ groups, Group maxCols g := by
  have hstart : Packed maxCols [] ⟨[], []⟩ :=
    ⟨[], [], rfl, rfl, rfl, fun g hg => absurd hg List.not_mem_nil, fun hne => absurd rfl hne⟩
  have hrun := hstart.run (options text) fun o ho => isPiece_option ho
  obtain ⟨done, last, hlines, hcur, hall, hdone, hlast⟩ := hrun
  rw [List.nil_append] at hall
  rw [wrapOptions, splitOptions_eq, Packing.finish, hlines, hcur]
  cases last with
  | nil =>
      have hempty : joined [] = [] := rfl
      rw [if_pos hempty]
      by_cases hnone : done = []
      · refine ⟨[[]], ?_, ?_, List.cons_ne_nil _ _, fun g hg => ?_⟩
        · rw [hnone]
          rfl
        · rw [← hall, hnone]
          rfl
        · rw [List.mem_singleton.mp hg]
          exact Or.inl (Nat.zero_le _)
      · refine ⟨done, ?_, ?_, hnone, hdone⟩
        · rw [if_neg (by simpa using hnone)]
        · rw [← hall, List.append_nil]
  | cons o last =>
      have hpiece : IsPiece ' ' o := isPiece_option (by rw [← hall]; simp)
      rw [if_neg (joined_ne_nil hpiece.ne_nil), if_neg (by simp)]
      refine ⟨done ++ [o :: last], ?_, ?_, by simp, fun g hg => ?_⟩
      · rw [List.map_append]
        rfl
      · rw [← hall]
        simp
      · rcases List.mem_append.mp hg with hg | hg
        · exact hdone g hg
        · rw [List.mem_singleton.mp hg]
          exact hlast (List.cons_ne_nil _ _)

/-! ## Clicks -/

/-- What every character of a text is worth to a click, with nothing around it. -/
def keysOf (o : List Char) : List (Option Ps2.Key) := (List.range o.length).map (shortcutAt o)

/-- Pieces with the columns they start at, from column `i` on. -/
def spans : ℕ → Pieces Char → List (ℕ × List Char)
  | _, [] => []
  | i, (g, o) :: ps => (i + g, o) :: spans (i + g + o.length) ps

/-- What the characters of each option of a bar are worth to a click. -/
def clicks (text : List Char) : List (List (Option Ps2.Key)) :=
  (spans 0 (layout ' ' text).1).map fun p =>
    (List.range p.2.length).map fun k => shortcutAt text (p.1 + k)

/-- Every opening bracket is closed. -/
def Closed (o : List Char) : Prop := ∀ p q, o = p ++ '[' :: q → ']' ∈ q

/-- A text that a hot word does not run into. -/
def Breaks (rest : List Char) : Prop := rest.dropWhile (· ≠ ' ') = rest

theorem Closed.of_append {p q : List Char} (h : Closed (p ++ q)) : Closed q := by
  intro p' q' heq
  exact h (p ++ p') q' (by rw [heq, List.append_assoc])

theorem Closed.tail {c : Char} {o : List Char} (h : Closed (c :: o)) : Closed o :=
  Closed.of_append (p := [c]) h

theorem shortcutFrom_letter {c : Char} (hc : c ≠ '[') (i : ℕ) (chars : List Char) (cc : ℕ) :
    shortcutFrom i (c :: chars) cc = shortcutFrom (i + 1) chars cc := by
  rw [shortcutFrom, if_pos hc]

/-- Where the hot word ends whose bracket stands at column `i`. -/
def stopOf (i : ℕ) (chars : List Char) : ℕ := i + 1 + (chars.length - (afterWord chars).length)

theorem shortcutFrom_bracket (i : ℕ) (chars : List Char) (cc : ℕ) :
    shortcutFrom i ('[' :: chars) cc
      = if i ≤ cc ∧ cc < stopOf i chars then keyForToken (chars.takeWhile (· ≠ ']'))
        else shortcutFrom (stopOf i chars) (afterWord chars) cc := by
  rw [shortcutFrom, if_neg (by simp)]
  rfl

/-- Before a text there is nothing to click at. -/
theorem shortcutFrom_before (i : ℕ) (chars : List Char) {cc : ℕ} (h : cc < i) :
    shortcutFrom i chars cc = none := by
  induction hn : chars.length using Nat.strongRecOn generalizing i chars with
  | _ n ih =>
      match chars with
      | [] => rw [shortcutFrom]
      | c :: chars =>
          by_cases hc : c = '['
          · rw [hc, shortcutFrom_bracket, if_neg (by omega)]
            refine ih (afterWord chars).length ?_ _ _ ?_ rfl
            · rw [← hn]
              exact Nat.lt_succ_of_le (length_afterWord chars)
            · unfold stopOf
              omega
          · rw [shortcutFrom_letter hc]
            exact ih chars.length (by rw [← hn]; exact Nat.lt_succ_self _) _ _ (by omega) rfl

theorem shortcutFrom_add (i d : ℕ) (chars : List Char) (cc : ℕ) :
    shortcutFrom (i + d) chars (cc + d) = shortcutFrom i chars cc := by
  induction hn : chars.length using Nat.strongRecOn generalizing i chars with
  | _ n ih =>
      match chars with
      | [] => rw [shortcutFrom, shortcutFrom]
      | c :: chars =>
          by_cases hc : c = '['
          · have hstop : stopOf (i + d) chars = stopOf i chars + d := by
              unfold stopOf
              omega
            rw [hc, shortcutFrom_bracket, shortcutFrom_bracket, hstop]
            have hiff : i + d ≤ cc + d ∧ cc + d < stopOf i chars + d
                ↔ i ≤ cc ∧ cc < stopOf i chars := by omega
            refine if_congr hiff rfl (ih (afterWord chars).length ?_ _ _ rfl)
            rw [← hn]
            exact Nat.lt_succ_of_le (length_afterWord chars)
          · rw [shortcutFrom_letter hc, shortcutFrom_letter hc, Nat.add_right_comm]
            exact ih chars.length (by rw [← hn]; exact Nat.lt_succ_self _) _ _ rfl

/-- A word that closes ends before what breaks it. -/
theorem afterWord_append {o rest : List Char} (ho : ']' ∈ o) (hrest : Breaks rest) :
    afterWord (o ++ rest) = afterWord o ++ rest := by
  have hne : o.dropWhile (· ≠ ']') ≠ [] := by
    intro hnil
    have hall := List.dropWhile_eq_nil_iff.mp hnil ']' ho
    exact absurd rfl (of_decide_eq_true hall)
  obtain ⟨c, o', ho'⟩ := List.exists_cons_of_ne_nil hne
  unfold afterWord
  rw [List.dropWhile_append, if_neg (by simpa using hne), ho', List.cons_append]
  show (o' ++ rest).dropWhile _ = o'.dropWhile _ ++ rest
  rw [List.dropWhile_append]
  split
  · next hempty =>
      rw [List.isEmpty_iff.mp hempty]
      exact hrest
  · rfl

theorem takeWhile_append {o rest : List Char} (ho : ']' ∈ o) :
    (o ++ rest).takeWhile (· ≠ ']') = o.takeWhile (· ≠ ']') := by
  rw [List.takeWhile_append, if_neg]
  intro hlen
  have hall := List.takeWhile_eq_self_iff.mp
    ((List.takeWhile_prefix (· ≠ ']')).eq_of_length hlen) ']' ho
  exact absurd rfl (of_decide_eq_true hall)

theorem closed_afterWord {o : List Char} (h : Closed o) : Closed (afterWord o) := by
  have hsuffix : afterWord o <:+ o :=
    ((List.dropWhile_suffix _).trans (List.drop_suffix 1 _)).trans (List.dropWhile_suffix _)
  obtain ⟨p, hp⟩ := hsuffix
  rw [← hp] at h
  exact h.of_append

/-- The scan of a closed text does not depend on what follows it, -/
theorem shortcutFrom_within {o rest : List Char} (ho : Closed o) (hrest : Breaks rest) (i : ℕ)
    {cc : ℕ} (h : cc < i + o.length) :
    shortcutFrom i (o ++ rest) cc = shortcutFrom i o cc := by
  induction hn : o.length using Nat.strongRecOn generalizing i o with
  | _ n ih =>
      match o with
      | [] => rw [shortcutFrom_before i _ h, shortcutFrom_before i _ h]
      | c :: o =>
          by_cases hc : c = '['
          · subst hc
            have hclose : ']' ∈ o := ho [] o rfl
            have hstop : stopOf i (o ++ rest) = stopOf i o := by
              unfold stopOf
              rw [afterWord_append hclose hrest, List.length_append, List.length_append]
              omega
            rw [List.cons_append, shortcutFrom_bracket, shortcutFrom_bracket, hstop,
              takeWhile_append hclose, afterWord_append hclose hrest]
            refine if_congr Iff.rfl rfl
              (ih (afterWord o).length ?_ (closed_afterWord ho.tail) _ ?_ rfl)
            · rw [← hn]
              exact Nat.lt_succ_of_le (length_afterWord o)
            · have hle := length_afterWord o
              simp only [List.length_cons] at h
              unfold stopOf
              omega
          · rw [List.cons_append, shortcutFrom_letter hc, shortcutFrom_letter hc]
            refine ih o.length ?_ ho.tail _ ?_ rfl
            · rw [← hn]
              exact Nat.lt_succ_self _
            · simp only [List.length_cons] at h
              omega

/-- and goes on behind it as from the start. -/
theorem shortcutFrom_behind {o rest : List Char} (ho : Closed o) (hrest : Breaks rest) (i : ℕ)
    {cc : ℕ} (h : i + o.length ≤ cc) :
    shortcutFrom i (o ++ rest) cc = shortcutFrom (i + o.length) rest cc := by
  induction hn : o.length using Nat.strongRecOn generalizing i o with
  | _ n ih =>
      match o with
      | [] =>
          subst hn
          rfl
      | c :: o =>
          simp only [List.length_cons] at h hn
          by_cases hc : c = '['
          · subst hc
            have hclose : ']' ∈ o := ho [] o rfl
            have hle := length_afterWord o
            have hstop : stopOf i (o ++ rest) = stopOf i o := by
              unfold stopOf
              rw [afterWord_append hclose hrest, List.length_append, List.length_append]
              omega
            have hend : stopOf i o + (afterWord o).length = i + n := by
              unfold stopOf
              omega
            rw [List.cons_append, shortcutFrom_bracket, hstop, if_neg (by omega),
              afterWord_append hclose hrest,
              ih (afterWord o).length (by omega) (closed_afterWord ho.tail) _ (by omega) rfl, hend]
          · rw [List.cons_append, shortcutFrom_letter hc,
              ih o.length (by omega) ho.tail _ (by omega) rfl]
            congr 1
            omega

theorem shortcutFrom_blanks (g i : ℕ) (rest : List Char) (cc : ℕ) :
    shortcutFrom i (List.replicate g ' ' ++ rest) cc = shortcutFrom (i + g) rest cc := by
  induction g generalizing i with
  | zero => rfl
  | succ g ih =>
      rw [List.replicate_succ, List.cons_append, shortcutFrom_letter (by decide), ih]
      congr 1
      omega

theorem breaks_apart {ps : Pieces Char} (h : Apart ' ' ps) (t : ℕ) : Breaks (lay ' ' ps t) := by
  cases ps with
  | nil => cases t <;> rfl
  | cons p ps =>
      obtain ⟨g, o⟩ := p
      obtain ⟨k, rfl⟩ := Nat.exists_eq_add_of_le' (h _ List.mem_cons_self).2
      rfl

/-- In a row of closed options the columns of each give what they give on their own. -/
theorem shortcutFrom_spans {ps : Pieces Char} (h : WellLaid ' ' ps)
    (hclosed : ∀ p ∈ ps, Closed p.2) (t i : ℕ) :
    ∀ p ∈ spans i ps, i ≤ p.1 ∧ ∀ k < p.2.length,
      shortcutFrom i (lay ' ' ps t) (p.1 + k) = shortcutAt p.2 k := by
  induction ps generalizing i with
  | nil => exact fun p hp => absurd hp List.not_mem_nil
  | cons q ps ih =>
      obtain ⟨g, o⟩ := q
      cases h with
      | cons ho hps =>
          have hbreak := breaks_apart hps t
          have hoc : Closed o := hclosed (g, o) List.mem_cons_self
          intro p hp
          rw [spans] at hp
          rcases List.mem_cons.mp hp with rfl | hp
          · refine ⟨Nat.le_add_right i g, fun k hk => ?_⟩
            rw [lay, shortcutFrom_blanks, shortcutFrom_within hoc hbreak _ (by simpa using hk),
              Nat.add_comm (i + g) k]
            have hadd := shortcutFrom_add 0 (i + g) o k
            rw [Nat.zero_add] at hadd
            exact hadd
          · obtain ⟨hlow, hkeys⟩ := ih hps.wellLaid (fun q hq => hclosed q
              (List.mem_cons_of_mem _ hq)) (i + g + o.length) p hp
            refine ⟨by omega, fun k hk => ?_⟩
            rw [lay, shortcutFrom_blanks, shortcutFrom_behind hoc hbreak _ (by omega)]
            exact hkeys k hk

theorem spans_options (i : ℕ) (ps : Pieces Char) :
    (spans i ps).map Prod.snd = ps.map Prod.snd := by
  induction ps generalizing i with
  | nil => rfl
  | cons p ps ih => simp [spans, ih]

/-- A click on a bar of closed options is a click on the option alone. -/
theorem clicks_eq {text : List Char} (h : ∀ o ∈ options text, Closed o) :
    clicks text = (options text).map keysOf := by
  have hlaid := wellLaid_layout (b := ' ') text
  have hclosed : ∀ p ∈ (layout ' ' text).1, Closed p.2 := fun p hp =>
    h p.2 (List.mem_map_of_mem hp)
  have hspans := shortcutFrom_spans hlaid hclosed (layout ' ' text).2 0
  rw [lay_layout] at hspans
  show clicks text = ((layout ' ' text).1.map Prod.snd).map keysOf
  rw [← spans_options 0, List.map_map]
  refine List.map_congr_left fun p hp => List.map_congr_left fun k hk => ?_
  exact (hspans p hp).2 k (List.mem_range.mp hk)

/-! ## Frames -/

/-- What becomes of a line: the same line, or the lines of a bar that has its options and
answers its clicks. -/
structure Reflowed (maxCols : ℕ) (l : TextLine) (block : List TextLine) : Prop where
  other : l.hit ≠ .shortcuts → block = [l]
  bar : l.hit = .shortcuts → ∀ m ∈ block, m.hit = .shortcuts ∧ m.kind = l.kind
  kept : l.hit = .shortcuts → (block.flatMap fun m => options m.text) = options l.text
  width : l.hit = .shortcuts → 0 < maxCols →
    ∀ m ∈ block, m.text.length ≤ maxCols ∨ options m.text = [m.text]
  answers : l.hit = .shortcuts → (∀ o ∈ options l.text, Closed o) →
    (block.flatMap fun m => clicks m.text) = clicks l.text

/-- A frame whose lines have become blocks of lines. What is on a line stays with the line
its block starts with. -/
def Follows (maxCols : ℕ) (old new : Frame) : Prop :=
  ∃ (blocks : List (List TextLine)) (place : ℕ → ℕ), new.body = blocks.flatten ∧
    List.Forall₂ (Reflowed maxCols) old.body blocks ∧
    (∀ li < old.body.length, place li = (blocks.take li).flatten.length) ∧
    new.cellHls = old.cellHls.map (fun hl => (place hl.1, hl.2)) ∧
    new.cursor = old.cursor.map fun at_ => (place at_.1, at_.2)

/-- The lines that a round puts into the new body. -/
def blockOf (maxCols : ℕ) (l : TextLine) : List TextLine :=
  if l.hit = .shortcuts then (wrapOptions l.text maxCols).map (hintLine l.kind) else [l]

theorem blockOf_ne_nil (maxCols : ℕ) (l : TextLine) : blockOf maxCols l ≠ [] := by
  unfold blockOf
  split
  · obtain ⟨groups, hwrap, -, hne, -⟩ := wrapOptions_groups l.text maxCols
    simpa [hwrap] using hne
  · exact List.cons_ne_nil _ _

theorem reflowed_blockOf (maxCols : ℕ) (l : TextLine) :
    Reflowed maxCols l (blockOf maxCols l) := by
  by_cases hbar : l.hit = .shortcuts
  · obtain ⟨groups, hwrap, hall, -, hgroups⟩ := wrapOptions_groups l.text maxCols
    have hpieces : ∀ g ∈ groups, ∀ o ∈ g, IsPiece ' ' o := fun g hg o ho =>
      isPiece_option (by rw [← hall]; exact List.mem_flatten.mpr ⟨g, hg, ho⟩)
    have hblock : blockOf maxCols l = groups.map fun g => hintLine l.kind (joined g) := by
      rw [blockOf, if_pos hbar, hwrap, List.map_map]
      rfl
    rw [hblock]
    refine ⟨fun h => absurd hbar h, fun _ m hm => ?_, fun _ => ?_, fun _ _ m hm => ?_,
      fun _ hclosed => ?_⟩
    · obtain ⟨g, -, rfl⟩ := List.mem_map.mp hm
      exact ⟨rfl, rfl⟩
    · have hgroup : ∀ g ∈ groups, options (hintLine l.kind (joined g)).text = g := fun g hg =>
        options_joined (hpieces g hg)
      rw [List.flatMap_map, ← hall, List.flatMap_congr hgroup, List.flatMap_id']
    · obtain ⟨g, hg, rfl⟩ := List.mem_map.mp hm
      refine (hgroups g hg).imp id fun hone => ?_
      obtain ⟨o, rfl⟩ := List.length_eq_one_iff.mp hone
      show options (joined [o]) = [joined [o]]
      rw [options_joined (hpieces _ hg)]
      simp [joined, gapped, lay]
    · have hgroup : ∀ g ∈ groups, clicks (hintLine l.kind (joined g)).text = g.map keysOf := by
        intro g hg
        have hopts : options (joined g) = g := options_joined (hpieces g hg)
        show clicks (joined g) = _
        rw [clicks_eq, hopts]
        intro o ho
        rw [hopts] at ho
        exact hclosed o (by rw [← hall]; exact List.mem_flatten.mpr ⟨g, hg, ho⟩)
      rw [clicks_eq hclosed, List.flatMap_map, ← hall, List.flatMap_congr hgroup,
        List.map_flatten, List.flatMap_def]
  · rw [blockOf, if_neg hbar]
    exact ⟨fun _ => rfl, fun h => absurd h hbar, fun h => absurd h hbar, fun h => absurd h hbar,
      fun h => absurd h hbar⟩

/-- The rounds so far: the blocks of the lines, and how far each line has moved. -/
structure Moved (maxCols : ℕ) (done : List TextLine) (s : Reflow) : Prop where
  body : s.newBody = (done.map (blockOf maxCols)).flatten
  acc : done.length + s.acc = s.newBody.length
  count : s.extra.length = done.length
  extra : ∀ li e, s.extra[li]? = some e →
    li + e = ((done.map (blockOf maxCols)).take li).flatten.length

theorem Reflow.next_eq (maxCols : ℕ) (s : Reflow) (l : TextLine) : s.next maxCols l
    = ⟨s.newBody ++ blockOf maxCols l, s.extra ++ [s.acc],
        s.acc + ((blockOf maxCols l).length - 1)⟩ := by
  unfold Reflow.next blockOf
  split
  · rw [List.length_map]
  · rfl

theorem Moved.next {maxCols : ℕ} {done : List TextLine} {s : Reflow} (h : Moved maxCols done s)
    (l : TextLine) : Moved maxCols (done ++ [l]) (s.next maxCols l) := by
  have hpos := List.length_pos_iff.mpr (blockOf_ne_nil maxCols l)
  rw [Reflow.next_eq]
  refine ⟨?_, ?_, ?_, fun li e he => ?_⟩
  · simp [h.body]
  · have hacc := h.acc
    simp only [List.length_append, List.length_singleton]
    omega
  · simp [h.count]
  · have hlen : li < done.length + 1 := by
      have hlt := (List.getElem?_eq_some_iff.mp he).1
      simpa [h.count] using hlt
    rw [List.map_append, List.take_append_of_le_length (by simpa using Nat.le_of_lt_succ hlen)]
    by_cases hlast : li < done.length
    · rw [List.getElem?_append_left (by rw [h.count]; exact hlast)] at he
      exact h.extra li e he
    · have heq : li = s.extra.length := by
        rw [h.count]
        omega
      rw [heq, List.getElem?_concat_length] at he
      obtain rfl := Option.some.inj he
      rw [heq, h.count, h.acc, h.body, List.take_of_length_le (by simp)]

theorem Moved.run {maxCols : ℕ} (rest : List TextLine) {done : List TextLine} {s : Reflow}
    (h : Moved maxCols done s) :
    Moved maxCols (done ++ rest) (rest.foldl (Reflow.next maxCols) s) := by
  induction rest generalizing done s with
  | nil => simpa using h
  | cons l rest ih =>
      rw [List.append_cons]
      exact ih (h.next l)

/-- A frame that is left as it is, because its bars fit or nothing can. -/
theorem follows_same {frame : Frame} {maxCols : ℕ} (h : fits frame maxCols = true) :
    Follows maxCols frame frame := by
  have hplace : ∀ li < frame.body.length,
      li = ((frame.body.map fun l => [l]).take li).flatten.length := by
    intro li hli
    rw [← List.map_take, List.length_flatten, List.map_map]
    simp [Function.comp_def, Nat.le_of_lt hli]
  refine ⟨frame.body.map fun l => [l], id, ?_, ?_, hplace, by simp, by simp⟩
  · rw [← List.flatMap_def, List.flatMap_singleton']
  · rw [List.forall₂_map_right_iff, List.forall₂_same]
    intro l hl
    refine ⟨fun _ => rfl, fun hbar m hm => ?_, fun _ => by simp, fun hbar hpos m hm => Or.inl ?_,
      fun _ _ => by simp⟩
    · rw [List.mem_singleton.mp hm]
      exact ⟨hbar, rfl⟩
    · rw [List.mem_singleton.mp hm]
      by_contra hwide
      simp only [fits, Bool.or_eq_true, Bool.not_eq_true', List.any_eq_false] at h
      rcases h with h | h
      · exact absurd (of_decide_eq_true h) hpos.ne'
      · exact h l hl (by simp [hbar, Nat.lt_of_not_le hwide])

/-- Reflowing keeps the lines that are no bars, and of the bars the options and what a click
on them does; wide lines are left only where one option is too wide, or at width 0. -/
theorem wrap_follows (frame : Frame) (maxCols : ℕ) :
    Follows maxCols frame (wrapShortcutBars frame maxCols) := by
  unfold wrapShortcutBars
  split
  · next h => exact follows_same h
  · have hstart : Moved maxCols [] ⟨[], [], 0⟩ := ⟨rfl, rfl, rfl, fun li e he => by simp at he⟩
    have hrun := hstart.run frame.body
    rw [List.nil_append] at hrun
    refine ⟨frame.body.map (blockOf maxCols), _, hrun.body, ?_, fun li hli => ?_, rfl, rfl⟩
    · rw [List.forall₂_map_right_iff, List.forall₂_same]
      exact fun l _ => reflowed_blockOf maxCols l
    · have hget := List.getElem?_eq_getElem (hrun.count ▸ hli :
        li < (frame.body.foldl (Reflow.next maxCols) ⟨[], [], 0⟩).extra.length)
      rw [Reflow.shift, hget]
      exact hrun.extra li _ hget

/-- A bar of two options. -/
def twoOptions : Frame := ⟨[⟨"[a]  [b]".toList, .dim, .shortcuts⟩], [], none⟩

/-- At width 0 it is left as it is. -/
theorem wide_at_zero : ¬∀ m ∈ (wrapShortcutBars twoOptions 0).body,
    m.text.length ≤ 0 ∨ options m.text = [m.text] := by
  decide

end Bar

end TablesOS
