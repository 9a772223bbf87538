import Mathlib.Data.List.Basic
import Mathlib.Order.Basic

/-!
# Stable sorting by a key that may be missing

A list is sorted by comparing a key of its elements. What is known of a stable
sort by a lawful comparison is said by three facts: nothing is lost or added,
no element stands before a lesser one, and elements that compare equal keep
their order. A comparison of keys becomes one of optional keys by putting those
that are missing behind all others, and turning it round does not move them.
-/

namespace TablesOS

namespace Sorting

variable {α κ : Type}

/-- A missing key behind every key that is there. -/
def absentLast (cmp : κ → κ → Ordering) : Option κ → Option κ → Ordering
  | some x, some y => cmp x y
  | some _, none => .lt
  | none, some _ => .gt
  | none, none => .eq

instance absentLast_trans {cmp : κ → κ → Ordering} [Std.TransCmp cmp] :
    Std.TransCmp (absentLast cmp) where
  eq_swap {a b} := by
    cases a with
    | none => cases b <;> rfl
    | some x =>
        cases b with
        | none => rfl
        | some y => exact @Std.OrientedCmp.eq_swap _ cmp _ x y
  isLE_trans {a b c} hab hbc := by
    cases a with
    | none =>
        cases b with
        | none => exact hbc
        | some y => cases hab
    | some x =>
        cases b with
        | none =>
            cases c with
            | none => rfl
            | some z => cases hbc
        | some y =>
            cases c with
            | none => rfl
            | some z => exact @Std.TransCmp.isLE_trans _ cmp _ x y z hab hbc

/-- The stable sort by a key. -/
def byKey (cmp : κ → κ → Ordering) (key : α → κ) (xs : List α) : List α :=
  xs.mergeSort fun a b => (cmp (key a) (key b)).isLE

theorem byKey_perm (cmp : κ → κ → Ordering) (key : α → κ) (xs : List α) :
    (byKey cmp key xs).Perm xs :=
  List.mergeSort_perm _ _

section Lawful

variable {cmp : κ → κ → Ordering} [Std.TransCmp cmp] (key : α → κ) (xs : List α)

theorem le_trans (a b c : α) (hab : (cmp (key a) (key b)).isLE)
    (hbc : (cmp (key b) (key c)).isLE) : (cmp (key a) (key c)).isLE :=
  Std.TransCmp.isLE_trans hab hbc

theorem le_total (a b : α) : (cmp (key a) (key b)).isLE || (cmp (key b) (key a)).isLE := by
  rw [@Std.OrientedCmp.eq_swap _ cmp _ (key b)]
  cases cmp (key a) (key b) <;> rfl

theorem byKey_pairwise :
    (byKey cmp key xs).Pairwise fun a b => (cmp (key a) (key b)).isLE :=
  List.pairwise_mergeSort (le_trans key) (le_total key) xs

/-- Elements of which none is less than another keep their order. -/
theorem byKey_stable {p : α → Bool}
    (hp : ∀ a b, p a = true → p b = true → (cmp (key a) (key b)).isLE) :
    (byKey cmp key xs).filter p = xs.filter p := by
  have hsorted : (xs.filter p).Pairwise fun a b => (cmp (key a) (key b)).isLE := by
    refine List.Pairwise.imp_of_mem (fun {a b} ha hb _ => ?_)
      (List.pairwise_of_forall fun (_ _ : α) => trivial)
    exact hp a b (List.mem_filter.mp ha).2 (List.mem_filter.mp hb).2
  have hsub : (xs.filter p).Sublist (byKey cmp key xs) :=
    List.sublist_mergeSort (le_trans key) (le_total key) hsorted List.filter_sublist
  have hfilter := hsub.filter p
  rw [List.filter_filter] at hfilter
  simp only [Bool.and_self] at hfilter
  refine (hfilter.eq_of_length ?_).symm
  exact ((byKey_perm cmp key xs).filter p).length_eq.symm

end Lawful

end Sorting

end TablesOS
