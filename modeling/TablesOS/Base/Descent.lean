import Mathlib.Data.List.Basic
import Mathlib.Order.Defs.LinearOrder

/-!
# Trying from the largest down

Candidates with a size are tried from the largest down: of those below a
ceiling the first of the largest size is tried, and when it does not work its
size is the new ceiling. The ceiling falls with every trial, so the trials end.
But a size is tried only once, by the first candidate that has it. So what is
found is the largest that works exactly if, at the largest size at which
anything works, the first does.
-/

namespace TablesOS

namespace Descent

variable {α : Type} (key : α → ℕ)

/-- `x` in the place of the best so far, if it is below the ceiling and larger. -/
def better (ceil : ℕ) : Option α → α → Option α
  | none, x => if key x < ceil then some x else none
  | some b, x => if key x < ceil ∧ key b < key x then some x else some b

/-- The first of the largest below the ceiling. -/
def pick (ceil : ℕ) (xs : List α) : Option α := xs.foldl (better key ceil) none

/-- The trials, one unit of fuel for each: what worked, or that nothing is left. -/
def descend (works : α → Bool) (xs : List α) : ℕ → ℕ → Option (Option α)
  | 0, _ => none
  | fuel + 1, ceil => match pick key ceil xs with
      | none => some none
      | some x => if works x then some (some x) else descend works xs fuel (key x)

/-- `x` is the first of its size. -/
def First (xs : List α) (x : α) : Prop :=
  ∃ A B, xs = A ++ x :: B ∧ ∀ a ∈ A, key a ≠ key x

variable {key} {xs : List α} {x y : α}

theorem First.mem (h : First key xs x) : x ∈ xs := by
  obtain ⟨A, B, rfl, -⟩ := h
  exact List.mem_append_right _ List.mem_cons_self

theorem First.append (h : First key xs x) (ys : List α) : First key (xs ++ ys) x := by
  obtain ⟨A, B, rfl, hA⟩ := h
  exact ⟨A, B ++ ys, by simp, hA⟩

/-- Every size has its first. -/
theorem exists_first (hx : x ∈ xs) : ∃ y, First key xs y ∧ key y = key x := by
  induction xs with
  | nil => cases hx
  | cons z xs ih =>
      by_cases hz : key z = key x
      · exact ⟨z, ⟨[], xs, rfl, fun a ha => absurd ha List.not_mem_nil⟩, hz⟩
      · have hx : x ∈ xs := by
          rcases List.mem_cons.mp hx with rfl | hx
          · exact absurd rfl hz
          · exact hx
        obtain ⟨y, ⟨A, B, rfl, hA⟩, hy⟩ := ih hx
        refine ⟨y, ⟨z :: A, B, rfl, fun a ha => ?_⟩, hy⟩
        rcases List.mem_cons.mp ha with rfl | ha
        · rwa [hy]
        · exact hA a ha

/-- And only one. -/
theorem First.unique (hx : First key xs x) (hy : First key xs y) (hkey : key x = key y) :
    x = y := by
  obtain ⟨A, B, rfl, hA⟩ := hx
  obtain ⟨C, D, heq, hC⟩ := hy
  rcases List.append_eq_append_iff.mp heq with ⟨E, rfl, hE⟩ | ⟨E, rfl, hE⟩
  · cases E with
    | nil => exact (List.cons.inj hE).1
    | cons e E =>
        have he : x = e := (List.cons.inj hE).1
        exact absurd hkey (hC x (he ▸ List.mem_append_right _ List.mem_cons_self))
  · cases E with
    | nil => exact (List.cons.inj hE).1.symm
    | cons e E =>
        have he : y = e := (List.cons.inj hE).1
        exact absurd hkey.symm (hA y (he ▸ List.mem_append_right _ List.mem_cons_self))

/-! ## One pass -/

/-- What a pass has found in the candidates so far. -/
def Picked (key : α → ℕ) (ceil : ℕ) (xs : List α) : Option α → Prop
  | none => ∀ y ∈ xs, ceil ≤ key y
  | some x => First key xs x ∧ key x < ceil ∧ ∀ y ∈ xs, key y < ceil → key y ≤ key x

theorem picked_better {ceil : ℕ} {best : Option α} (h : Picked key ceil xs best) (y : α) :
    Picked key ceil (xs ++ [y]) (better key ceil best y) := by
  cases best with
  | none =>
      rw [better]
      by_cases hlt : key y < ceil
      · rw [if_pos hlt]
        refine ⟨⟨xs, [], rfl, fun a ha heq => ?_⟩, hlt, fun z hz hzlt => ?_⟩
        · have := h a ha
          omega
        · rcases List.mem_append.mp hz with hz | hz
          · have := h z hz
            omega
          · exact Nat.le_of_eq (congrArg key (List.mem_singleton.mp hz))
      · rw [if_neg hlt]
        intro z hz
        rcases List.mem_append.mp hz with hz | hz
        · exact h z hz
        · rw [List.mem_singleton.mp hz]
          exact Nat.le_of_not_lt hlt
  | some x =>
      obtain ⟨hfirst, hx, hmax⟩ := h
      rw [better]
      by_cases hlt : key y < ceil ∧ key x < key y
      · rw [if_pos hlt]
        refine ⟨⟨xs, [], rfl, fun a ha heq => ?_⟩, hlt.1, fun z hz hzlt => ?_⟩
        · have := hmax a ha (heq ▸ hlt.1)
          omega
        · rcases List.mem_append.mp hz with hz | hz
          · have := hmax z hz hzlt
            omega
          · exact Nat.le_of_eq (congrArg key (List.mem_singleton.mp hz))
      · rw [if_neg hlt]
        refine ⟨hfirst.append [y], hx, fun z hz hzlt => ?_⟩
        rcases List.mem_append.mp hz with hz | hz
        · exact hmax z hz hzlt
        · rw [List.mem_singleton.mp hz] at hzlt ⊢
          exact Nat.le_of_not_lt fun hgt => hlt ⟨hzlt, hgt⟩

theorem picked (ceil : ℕ) (xs : List α) : Picked key ceil xs (pick key ceil xs) := by
  have hall : ∀ (ys zs : List α) (best : Option α), Picked key ceil ys best →
      Picked key ceil (ys ++ zs) (zs.foldl (better key ceil) best) := by
    intro ys zs
    induction zs generalizing ys with
    | nil =>
        intro best h
        rwa [List.append_nil]
    | cons z zs ih =>
        intro best h
        have hnext := ih (ys ++ [z]) _ (picked_better h z)
        rwa [List.append_assoc] at hnext
  exact hall [] xs none fun y hy => absurd hy List.not_mem_nil

/-! ## All trials -/

variable {works : α → Bool}

/-- Nothing works, or the one that was found is the first of its size, and the first
of no larger size works. -/
def Found (key : α → ℕ) (works : α → Bool) (xs : List α) : Option α → Prop
  | none => ∀ y, First key xs y → works y = false
  | some x => First key xs x ∧ works x = true ∧
      ∀ y, First key xs y → key x < key y → works y = false

/-- The candidates below a ceiling that is lowered to one of them. -/
theorem below_lt {ceil : ℕ} (hx : x ∈ xs) (hlt : key x < ceil) :
    (xs.countP fun y => key y < key x) < xs.countP fun y => key y < ceil := by
  have hle : ∀ ys : List α, (ys.countP fun y => key y < key x) ≤
      ys.countP fun y => key y < ceil := fun ys =>
    List.countP_mono_left fun y _ hy => decide_eq_true (by
      have := of_decide_eq_true hy
      omega)
  obtain ⟨A, B, rfl⟩ := List.append_of_mem hx
  rw [List.countP_append, List.countP_append, List.countP_cons_of_neg (by simp),
    List.countP_cons_of_pos (by simpa using hlt)]
  have hA := hle A
  have hB := hle B
  omega

/-- With a unit of fuel for each candidate below the ceiling, and one more, the
trials come to an end. -/
theorem descend_found (fuel : ℕ) : ∀ ceil : ℕ, (xs.countP fun y => key y < ceil) < fuel →
    (∀ y, First key xs y → ceil ≤ key y → works y = false) →
      ∃ r, descend key works xs fuel ceil = some r ∧ Found key works xs r := by
  induction fuel with
  | zero =>
      intro ceil hfuel _
      exact absurd hfuel (Nat.not_lt_zero _)
  | succ fuel ih =>
      intro ceil hfuel htried
      have hpick : Picked key ceil xs _ := picked ceil xs
      unfold descend
      cases hp : pick key ceil xs with
      | none =>
          rw [hp] at hpick
          exact ⟨none, rfl, fun y hy => htried y hy (hpick y hy.mem)⟩
      | some x =>
          rw [hp] at hpick
          obtain ⟨hfirst, hlt, hmax⟩ := hpick
          cases hw : works x with
          | true =>
              refine ⟨some x, if_pos hw, hfirst, hw, fun y hy hxy => htried y hy ?_⟩
              by_contra hbelow
              have := hmax y hy.mem (Nat.lt_of_not_le hbelow)
              omega
          | false =>
              simp only [hw, Bool.false_eq_true, if_false]
              refine ih (key x) ?_ fun y hy hxy => ?_
              · have := below_lt hfirst.mem hlt
                omega
              · -- of the same size as `x`, it is `x`; larger, it was tried before
                rcases Nat.lt_or_eq_of_le hxy with hxy | hxy
                · refine htried y hy ?_
                  by_contra hbelow
                  have := hmax y hy.mem (Nat.lt_of_not_le hbelow)
                  omega
                · rw [← hfirst.unique hy hxy]
                  exact hw

/-- More fuel changes nothing. -/
theorem descend_mono {r : Option α} (fuel : ℕ) : ∀ {fuel' ceil : ℕ}, fuel ≤ fuel' →
    descend key works xs fuel ceil = some r → descend key works xs fuel' ceil = some r := by
  induction fuel with
  | zero =>
      intro fuel' ceil _ h
      cases h
  | succ fuel ih =>
      intro fuel' ceil hle h
      obtain ⟨fuel', rfl⟩ := Nat.exists_eq_succ_of_ne_zero (Nat.ne_zero_of_lt hle)
      rw [descend] at h ⊢
      cases hp : pick key ceil xs with
      | none =>
          rw [hp] at h
          exact h
      | some x =>
          rw [hp] at h
          cases hw : works x with
          | true =>
              simp only [hw, if_true] at h ⊢
              exact h
          | false =>
              simp only [hw, Bool.false_eq_true, if_false] at h ⊢
              exact ih (Nat.le_of_succ_le_succ hle) h

/-! ## The largest that works -/

/-- Nothing is given up, and nothing larger works. -/
def Best (key : α → ℕ) (works : α → Bool) (xs : List α) : Option α → Prop
  | none => ∀ y ∈ xs, works y = false
  | some x => x ∈ xs ∧ works x = true ∧ ∀ y ∈ xs, works y = true → key y ≤ key x

/-- At the largest size at which anything works, the first works. -/
def FirstWorks (key : α → ℕ) (works : α → Bool) (xs : List α) : Prop :=
  ∀ x ∈ xs, works x = true → (∀ y ∈ xs, works y = true → key y ≤ key x) →
    ∀ y, First key xs y → key y = key x → works y = true

theorem exists_ceil (key : α → ℕ) (xs : List α) : ∃ ceil, ∀ y ∈ xs, key y < ceil := by
  induction xs with
  | nil => exact ⟨0, fun y hy => absurd hy List.not_mem_nil⟩
  | cons x xs ih =>
      obtain ⟨ceil, h⟩ := ih
      refine ⟨max ceil (key x + 1), fun y hy => ?_⟩
      rcases List.mem_cons.mp hy with rfl | hy
      · exact Nat.lt_of_lt_of_le (Nat.lt_succ_self _) (Nat.le_max_right _ _)
      · exact Nat.lt_of_lt_of_le (h y hy) (Nat.le_max_left _ _)

/-- If anything works, something of the largest size does. -/
theorem exists_largest (hx : x ∈ xs) (hw : works x = true) :
    ∃ z ∈ xs, works z = true ∧ key x ≤ key z ∧ ∀ y ∈ xs, works y = true → key y ≤ key z := by
  obtain ⟨ceil, hbelow⟩ := exists_ceil key xs
  have hpick : Picked key ceil (xs.filter works) _ := picked ceil _
  cases hp : pick key ceil (xs.filter works) with
  | none =>
      rw [hp] at hpick
      have := hpick x (List.mem_filter.mpr ⟨hx, hw⟩)
      have := hbelow x hx
      omega
  | some z =>
      rw [hp] at hpick
      obtain ⟨hfirst, -, hmax⟩ := hpick
      obtain ⟨hz, hzw⟩ := List.mem_filter.mp hfirst.mem
      have hall : ∀ y ∈ xs, works y = true → key y ≤ key z := fun y hy hyw =>
        hmax y (List.mem_filter.mpr ⟨hy, hyw⟩) (hbelow y hy)
      exact ⟨z, hz, hzw, hall x hx hw, hall⟩

/-- What the trials find is the best exactly under that condition. -/
theorem best_iff {r : Option α} (h : Found key works xs r) :
    Best key works xs r ↔ FirstWorks key works xs := by
  constructor
  · intro hbest x hx hxw hmax y hy hyx
    cases r with
    | none =>
        have := hbest x hx
        rw [hxw] at this
        cases this
    | some z =>
        obtain ⟨hz, hzw, hzmax⟩ := hbest
        have hzx : key z = key x := Nat.le_antisymm (hmax z hz hzw) (hzmax x hx hxw)
        rw [hy.unique h.1 (hyx.trans hzx.symm)]
        exact hzw
  · intro hfw
    -- what works at the largest size has a first of its size, which works too
    have hlarge : ∀ x ∈ xs, works x = true →
        ∃ y, First key xs y ∧ works y = true ∧ key x ≤ key y := by
      intro x hx hxw
      obtain ⟨z, hz, hzw, hxz, hmax⟩ := @exists_largest _ key _ _ _ hx hxw
      obtain ⟨y, hy, hyz⟩ := @exists_first _ key _ _ hz
      exact ⟨y, hy, hfw z hz hzw hmax y hy hyz, hyz ▸ hxz⟩
    cases r with
    | none =>
        intro x hx
        cases hxw : works x with
        | false => rfl
        | true =>
            obtain ⟨y, hy, hyw, -⟩ := hlarge x hx hxw
            rw [h y hy] at hyw
            cases hyw
    | some z =>
        obtain ⟨hz, hzw, hlarger⟩ := h
        refine ⟨hz.mem, hzw, fun x hx hxw => ?_⟩
        obtain ⟨y, hy, hyw, hxy⟩ := hlarge x hx hxw
        by_contra hzx
        have hno := hlarger y hy (by omega)
        rw [hyw] at hno
        cases hno

end Descent

end TablesOS
