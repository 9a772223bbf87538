import Mathlib.Algebra.Order.Field.Rat
import Mathlib.Algebra.Order.Ring.Nat
import Mathlib.Algebra.Field.Rat
import Mathlib.Data.Fin.Basic
import Mathlib.Data.List.DropRight
import Mathlib.Tactic.FieldSimp
import Mathlib.Tactic.Linarith
import Mathlib.Tactic.Positivity
import Mathlib.Tactic.Ring

/-!
# Digits of a number, in front of the point and behind it

Most significant digit first, in any base. In front of the point the digits
are a natural number and leading zeros are free; behind it they are a rational
below one and trailing zeros are free. A number is compared by its digits: of
two runs of the same length in front of the point, and of any two behind it,
the first digit that differs decides.
-/

namespace TablesOS

namespace Numeral

variable {b : ℕ}

/-- The number whose digits these are. -/
def value (ds : List (Fin b)) : ℕ := ds.foldl (fun n d => n * b + d.val) 0

/-- The fraction with these digits behind the point. -/
def fraction (ds : List (Fin b)) : ℚ := ds.foldr (fun d q => (d.val + q) / b) 0

@[simp] theorem value_nil : value ([] : List (Fin b)) = 0 := rfl

@[simp] theorem fraction_nil : fraction ([] : List (Fin b)) = 0 := rfl

@[simp] theorem fraction_cons (d : Fin b) (ds : List (Fin b)) :
    fraction (d :: ds) = (d.val + fraction ds) / b := rfl

theorem foldl_value (ds : List (Fin b)) (n : ℕ) :
    ds.foldl (fun n d => n * b + d.val) n = n * b ^ ds.length + value ds := by
  induction ds generalizing n with
  | nil => simp
  | cons d ds ih =>
      have hstep : value (d :: ds) = ds.foldl (fun n d => n * b + d.val) (0 * b + d.val) := rfl
      rw [List.foldl_cons, ih, hstep, ih, List.length_cons, pow_succ]
      ring

@[simp] theorem value_cons (d : Fin b) (ds : List (Fin b)) :
    value (d :: ds) = d.val * b ^ ds.length + value ds := by
  have hstep : value (d :: ds) = ds.foldl (fun n d => n * b + d.val) (0 * b + d.val) := rfl
  rw [hstep, foldl_value, zero_mul, zero_add]

theorem value_lt (ds : List (Fin b)) : value ds < b ^ ds.length := by
  induction ds with
  | nil => simp
  | cons d ds ih =>
      have hd : d.val + 1 ≤ b := d.isLt
      calc value (d :: ds) = d.val * b ^ ds.length + value ds := value_cons d ds
        _ < d.val * b ^ ds.length + b ^ ds.length := Nat.add_lt_add_left ih _
        _ = (d.val + 1) * b ^ ds.length := by ring
        _ ≤ b * b ^ ds.length := Nat.mul_le_mul_right _ hd
        _ = b ^ (d :: ds).length := by rw [List.length_cons, pow_succ']

/-- Leading zeros are free. -/
theorem value_dropWhile [NeZero b] (ds : List (Fin b)) :
    value (ds.dropWhile (· == 0)) = value ds := by
  induction ds with
  | nil => rfl
  | cons d ds ih =>
      by_cases hd : d = 0
      · rw [List.dropWhile_cons_of_pos (by simpa using hd), ih, hd]
        simp
      · rw [List.dropWhile_cons_of_neg (by simpa using hd)]

/-- A first digit that is not zero is worth its place. -/
theorem le_value [NeZero b] {ds : List (Fin b)} (hne : ds ≠ []) (h : ds.head? ≠ some 0) :
    b ^ (ds.length - 1) ≤ value ds := by
  obtain ⟨d, ds, rfl⟩ := List.exists_cons_of_ne_nil hne
  have hd : 1 ≤ d.val := by
    refine Nat.one_le_iff_ne_zero.mpr fun h0 => h ?_
    exact congrArg some (Fin.ext (by simpa using h0))
  rw [value_cons, List.length_cons, Nat.add_sub_cancel]
  calc b ^ ds.length = 1 * b ^ ds.length := (one_mul _).symm
    _ ≤ d.val * b ^ ds.length := Nat.mul_le_mul_right _ hd
    _ ≤ d.val * b ^ ds.length + value ds := Nat.le_add_right _ _

/-- Without leading zeros the longer number is the larger. -/
theorem value_lt_of_length [NeZero b] {ds es : List (Fin b)} (h : es.head? ≠ some 0)
    (hlen : ds.length < es.length) : value ds < value es := by
  have hpos : 0 < b := Nat.pos_of_ne_zero (NeZero.ne b)
  have hne : es ≠ [] := List.ne_nil_of_length_pos (Nat.lt_of_le_of_lt (Nat.zero_le _) hlen)
  calc value ds < b ^ ds.length := value_lt ds
    _ ≤ b ^ (es.length - 1) := Nat.pow_le_pow_right hpos (by omega)
    _ ≤ value es := le_value hne h

/-- One digit exchanged: the number changes by the difference at its place. -/
theorem value_set (x : Fin b) : ∀ (ds : List (Fin b)) (i : ℕ) (d : Fin b), ds[i]? = some d →
    value (ds.set i x) + d.val * b ^ (ds.length - (i + 1)) =
      value ds + x.val * b ^ (ds.length - (i + 1)) := by
  intro ds
  induction ds with
  | nil =>
      intro i d hd
      cases hd
  | cons e ds ih =>
      intro i d hd
      cases i with
      | zero =>
          injection hd with hd
          rw [List.set_cons_zero, value_cons, value_cons, List.length_cons, Nat.add_sub_cancel, hd]
          ring
      | succ i =>
          have h := ih i d hd
          rw [List.set_cons_succ, value_cons, value_cons, List.length_cons, List.length_set,
            Nat.add_sub_add_right, Nat.add_assoc, Nat.add_assoc, h]

theorem fraction_nonneg (ds : List (Fin b)) : 0 ≤ fraction ds := by
  induction ds with
  | nil => simp
  | cons d ds ih =>
      rw [fraction_cons]
      positivity

theorem fraction_lt_one (ds : List (Fin b)) : fraction ds < 1 := by
  induction ds with
  | nil => simp
  | cons d ds ih =>
      have hb : (0 : ℚ) < b := by exact_mod_cast Nat.lt_of_le_of_lt (Nat.zero_le _) d.isLt
      have hd : (d.val : ℚ) + 1 ≤ b := by exact_mod_cast d.isLt
      rw [fraction_cons, div_lt_one hb]
      linarith

/-- Trailing zeros are free. -/
theorem fraction_rdropWhile [NeZero b] (ds : List (Fin b)) :
    fraction (ds.rdropWhile (· == 0)) = fraction ds := by
  induction ds using List.reverseRecOn with
  | nil => rfl
  | append_singleton ds d ih =>
      by_cases hd : d = 0
      · rw [List.rdropWhile_concat_pos _ _ _ (by simpa using hd), ih, hd, fraction, fraction,
          List.foldr_append]
        simp
      · rw [List.rdropWhile_concat_neg _ _ _ (by simpa using hd)]

/-! ## A number has its digits -/

theorem value_inj {ds es : List (Fin b)} (hlen : ds.length = es.length)
    (h : value ds = value es) : ds = es := by
  induction ds generalizing es with
  | nil => exact (List.eq_nil_of_length_eq_zero hlen.symm).symm
  | cons d ds ih =>
      cases es with
      | nil => cases hlen
      | cons e es =>
          have hlen' : ds.length = es.length := Nat.succ.inj hlen
          have hds := value_lt ds
          have hes := value_lt es
          rw [value_cons, value_cons, hlen'] at h
          rw [hlen'] at hds
          have hpos : 0 < b ^ es.length := Nat.lt_of_le_of_lt (Nat.zero_le _) hes
          have hd : d.val = e.val := by
            have hdiv := congrArg (· / b ^ es.length) h
            simpa only [Nat.mul_comm _ (b ^ es.length), Nat.mul_add_div hpos,
              Nat.div_eq_of_lt hds, Nat.div_eq_of_lt hes, Nat.add_zero] using hdiv
          rw [hd] at h
          rw [Fin.ext hd, ih hlen' (Nat.add_left_cancel h)]

/-- Without trailing zeros only the empty fraction is zero. -/
theorem fraction_eq_zero [NeZero b] {ds : List (Fin b)} (hlast : ds.getLast? ≠ some 0)
    (h : fraction ds = 0) : ds = [] := by
  induction ds with
  | nil => rfl
  | cons d ds ih =>
      have hb : (b : ℚ) ≠ 0 := by exact_mod_cast NeZero.ne b
      have hds := fraction_nonneg ds
      have hd : (0 : ℚ) ≤ d.val := by positivity
      rw [fraction_cons, div_eq_zero_iff, or_iff_left hb] at h
      have hzero : (d.val : ℚ) = 0 := by linarith
      have hrest : ds = [] := by
        refine ih (fun hl => hlast ?_) (by linarith)
        cases ds with
        | nil => cases hl
        | cons e es => rwa [List.getLast?_cons_cons]
      subst hrest
      refine absurd (congrArg some (Fin.ext ?_)) hlast
      simpa using hzero

theorem fraction_inj [NeZero b] {ds es : List (Fin b)} (hds : ds.getLast? ≠ some 0)
    (hes : es.getLast? ≠ some 0) (h : fraction ds = fraction es) : ds = es := by
  induction ds generalizing es with
  | nil => exact (fraction_eq_zero hes h.symm).symm
  | cons d ds ih =>
      cases es with
      | nil => exact fraction_eq_zero hds h
      | cons e es =>
          have hb : (b : ℚ) ≠ 0 := by exact_mod_cast NeZero.ne b
          rw [fraction_cons, fraction_cons, div_left_inj' hb] at h
          have hd₀ := fraction_nonneg ds
          have hd₁ := fraction_lt_one ds
          have he₀ := fraction_nonneg es
          have he₁ := fraction_lt_one es
          have hle : (d.val : ℚ) < e.val + 1 := by linarith
          have hge : (e.val : ℚ) < d.val + 1 := by linarith
          have hde : d.val = e.val := by
            have hle : d.val < e.val + 1 := by exact_mod_cast hle
            have hge : e.val < d.val + 1 := by exact_mod_cast hge
            omega
          have htail : ∀ {x : Fin b} {xs : List (Fin b)}, (x :: xs).getLast? ≠ some 0 →
              xs.getLast? ≠ some 0 := by
            intro x xs hx hxs
            cases xs with
            | nil => cases hxs
            | cons y ys => exact hx (by rwa [List.getLast?_cons_cons])
          rw [hde] at h
          rw [Fin.ext hde, ih (htail hds) (htail hes) (by linarith)]

/-! ## Comparison -/

/-- Order carried along a map. -/
theorem compare_eq_of {α β : Type} [LinearOrder α] [LinearOrder β] {x y : α} {p q : β}
    (hlt : x < y → p < q) (heq : x = y → p = q) (hgt : y < x → q < p) :
    compare x y = compare p q := by
  rcases lt_trichotomy x y with h | h | h
  · rw [compare_lt_iff_lt.mpr h, compare_lt_iff_lt.mpr (hlt h)]
  · rw [compare_eq_iff_eq.mpr h, compare_eq_iff_eq.mpr (heq h)]
  · rw [compare_gt_iff_gt.mpr h, compare_gt_iff_gt.mpr (hgt h)]

/-- The first part decides unless it is the same. -/
theorem compare_then {α β γ : Type} [LinearOrder α] [LinearOrder β] [LinearOrder γ] {x y : α}
    {p q : β} {r s : γ} (hlt : x < y → r < s) (heq : x = y → compare p q = compare r s)
    (hgt : y < x → s < r) : (compare x y).then (compare p q) = compare r s := by
  rcases lt_trichotomy x y with h | h | h
  · rw [compare_lt_iff_lt.mpr h, compare_lt_iff_lt.mpr (hlt h)]
    rfl
  · rw [compare_eq_iff_eq.mpr h, ← heq h]
    rfl
  · rw [compare_gt_iff_gt.mpr h, compare_gt_iff_gt.mpr (hgt h)]
    rfl

/-- Digits of numbers of one length, the first that differs deciding. -/
theorem compareLex_value {ds es : List (Fin b)} (hlen : ds.length = es.length) :
    List.compareLex (fun d e : Fin b => compare d.val e.val) ds es =
      compare (value ds) (value es) := by
  induction ds generalizing es with
  | nil =>
      rw [List.length_nil] at hlen
      rw [List.eq_nil_of_length_eq_zero hlen.symm, compare_eq_iff_eq.mpr rfl]
      rfl
  | cons d ds ih =>
      cases es with
      | nil => cases hlen
      | cons e es =>
          have hlen' : ds.length = es.length := Nat.succ.inj hlen
          have hds := value_lt ds
          have hes := value_lt es
          rw [hlen'] at hds
          have hplace : ∀ {x y : ℕ}, x < y →
              x * b ^ es.length + b ^ es.length ≤ y * b ^ es.length := by
            intro x y hxy
            calc x * b ^ es.length + b ^ es.length = (x + 1) * b ^ es.length := by ring
              _ ≤ y * b ^ es.length := Nat.mul_le_mul_right _ hxy
          rw [List.compareLex_cons_cons, ih hlen', value_cons, value_cons, hlen']
          refine compare_then (fun h => ?_) (fun h => ?_) fun h => ?_
          · have := hplace h
            omega
          · rw [h]
            exact compare_eq_of (fun h => Nat.add_lt_add_left h _) (fun h => by rw [h])
              fun h => Nat.add_lt_add_left h _
          · have := hplace h
            omega

/-- The first digit behind the point. -/
theorem compare_fraction_cons (d e : Fin b) (ds es : List (Fin b)) :
    (compare d.val e.val).then (compare (fraction ds) (fraction es)) =
      compare (fraction (d :: ds)) (fraction (e :: es)) := by
  have hb : (0 : ℚ) < b := by exact_mod_cast Nat.lt_of_le_of_lt (Nat.zero_le _) d.isLt
  have hless : ∀ {x y : Fin b} (xs ys : List (Fin b)), x.val < y.val →
      fraction (x :: xs) < fraction (y :: ys) := by
    intro x y xs ys hxy
    have hxy : (x.val : ℚ) + 1 ≤ y.val := by exact_mod_cast hxy
    have hxs := fraction_lt_one xs
    have hys := fraction_nonneg ys
    rw [fraction_cons, fraction_cons]
    exact div_lt_div_of_pos_right (by linarith) hb
  refine compare_then (hless ds es) (fun h => ?_) (hless es ds)
  have hde : d = e := Fin.ext h
  rw [hde]
  have hsame : ∀ {xs ys : List (Fin b)}, fraction xs < fraction ys →
      fraction (e :: xs) < fraction (e :: ys) := by
    intro xs ys hxy
    rw [fraction_cons, fraction_cons]
    exact div_lt_div_of_pos_right (by linarith) hb
  exact compare_eq_of hsame (fun h => by rw [fraction_cons, fraction_cons, h]) hsame

end Numeral

end TablesOS
