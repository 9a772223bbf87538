import Mathlib.Algebra.GroupWithZero.Nat
import Mathlib.Algebra.BigOperators.Ring.List
import Mathlib.Algebra.Order.Monoid.Unbundled.Basic
import Mathlib.Tactic.Ring

/-!
# Canonical prefix codes

A canonical code is given by the length of each symbol's codeword, 0 for a
symbol that has none: among codewords of one length the values go up with the
symbols, and each length starts where the one before it ended, doubled. All
that a decoder needs to know is in two numbers for each length, the first value
and where its symbols start in the list of all symbols by length.

`Kraft` says that the lengths ask for no more codewords than there are. It holds
of complete codes, and of codes with one codeword or none.
-/

namespace TablesOS

/-! ## Numbers as bits -/

/-- The `n` low bits, lowest first. -/
def lowBits : Nat → Nat → List Bool
  | 0, _ => []
  | n + 1, v => v.testBit 0 :: lowBits n (v / 2)

/-- The `n` low bits, highest first. -/
def topBits : Nat → Nat → List Bool
  | 0, _ => []
  | n + 1, v => v.testBit n :: topBits n v

@[simp] theorem length_lowBits (n v : Nat) : (lowBits n v).length = n := by
  induction n generalizing v with
  | zero => rfl
  | succ n ih => rw [lowBits, List.length_cons, ih]

@[simp] theorem length_topBits (n v : Nat) : (topBits n v).length = n := by
  induction n with
  | zero => rfl
  | succ n ih => rw [topBits, List.length_cons, ih]

theorem lowBits_add (m n v : Nat) : lowBits (m + n) v = lowBits m v ++ lowBits n (v / 2 ^ m) := by
  induction m generalizing v with
  | zero => rw [Nat.zero_add, Nat.pow_zero, Nat.div_one, lowBits, List.nil_append]
  | succ m ih =>
      rw [Nat.add_right_comm, lowBits, ih, lowBits, List.cons_append, Nat.div_div_eq_div_mul,
        Nat.pow_succ']

theorem lowBits_mod (n v : Nat) : lowBits n (v % 2 ^ n) = lowBits n v := by
  induction n generalizing v with
  | zero => rfl
  | succ n ih =>
      rw [lowBits, lowBits, Nat.testBit_zero, Nat.testBit_zero, Nat.pow_succ',
        Nat.mod_mul_right_mod,
        Nat.mod_mul_right_div_self, ih]

theorem div_two_mul (v n : Nat) : v / 2 ^ n = 2 * (v / 2 ^ (n + 1)) + (v.testBit n).toNat := by
  rw [Nat.toNat_testBit, Nat.pow_succ, ← Nat.div_div_eq_div_mul]
  exact (Nat.div_add_mod _ 2).symm

theorem topBits_snoc (n c : Nat) (b : Bool) :
    topBits (n + 1) (2 * c + b.toNat) = topBits n c ++ [b] := by
  have hb := Bool.toNat_lt b
  induction n with
  | zero =>
      rw [topBits, topBits, topBits, List.nil_append, Nat.testBit_zero]
      cases b <;> simp
  | succ n ih =>
      rw [topBits, ih, topBits, List.cons_append, Nat.testBit_succ]
      congr 2
      omega

/-! ## The code of a list of lengths -/

namespace PrefixCode

variable (lengths : List Nat)

/-- The length of a symbol's codeword. -/
def len (s : Nat) : Nat := lengths.getD s 0

/-- The symbol has a codeword. -/
def Coded (s : Nat) : Prop := len lengths s ≠ 0

instance (s : Nat) : Decidable (Coded lengths s) := inferInstanceAs (Decidable (_ ≠ _))

/-- How many codewords have this length. -/
def count (l : Nat) : Nat := if l = 0 then 0 else lengths.count l

/-- The first value of each length. -/
def first : Nat → Nat
  | 0 => 0
  | l + 1 => 2 * (first l + count lengths l)

/-- Where the symbols of each length start. -/
def offset : Nat → Nat
  | 0 => 0
  | l + 1 => offset l + count lengths l

/-- How many symbols before `s` have codewords of length `l`. -/
def before (s l : Nat) : Nat := (lengths.take s).count l

/-- The value of a symbol's codeword. -/
def value (s : Nat) : Nat := first lengths (len lengths s) + before lengths s (len lengths s)

/-- A symbol's codeword. -/
def codeword (s : Nat) : List Bool := topBits (len lengths s) (value lengths s)

/-- Where a symbol stands among the symbols by length. -/
def slot (s : Nat) : Nat := offset lengths (len lengths s) + before lengths s (len lengths s)

/-- The part of all codewords of length `max` that a codeword of length `l`
takes. -/
def weight (max l : Nat) : Nat := if l = 0 then 0 else 2 ^ (max - l)

/-- No length is above `max`, and there are enough codewords. -/
structure Kraft (max : Nat) : Prop where
  le : ∀ l ∈ lengths, l ≤ max
  sum : (lengths.map (weight max)).sum ≤ 2 ^ max

instance (max : Nat) : Decidable (Kraft lengths max) :=
  decidable_of_iff (_ ∧ _) ⟨fun h => ⟨h.1, h.2⟩, fun h => ⟨h.1, h.2⟩⟩

variable {lengths}

@[simp] theorem length_codeword (s : Nat) :
    (codeword lengths s).length = len lengths s := length_topBits _ _

theorem Coded.lt {s : Nat} (h : Coded lengths s) : s < lengths.length := by
  by_contra hs
  apply h
  rw [len, List.getD_eq_getElem?_getD, List.getElem?_eq_none (by omega)]
  rfl

theorem len_eq {s : Nat} (h : s < lengths.length) : len lengths s = lengths[s] := by
  rw [len, List.getD_eq_getElem?_getD, List.getElem?_eq_getElem h, Option.getD_some]

theorem len_mem {s : Nat} (h : s < lengths.length) : len lengths s ∈ lengths := by
  rw [len_eq h]
  exact List.getElem_mem h

/-! ## Counting -/

theorem before_succ {s : Nat} (h : s < lengths.length) (l : Nat) :
    before lengths (s + 1) l = before lengths s l + if len lengths s = l then 1 else 0 := by
  rw [before, before, List.take_add_one, List.getElem?_eq_getElem h, List.count_append, len_eq h]
  simp [List.count_singleton]

theorem before_mono {s t : Nat} (h : s ≤ t) (l : Nat) :
    before lengths s l ≤ before lengths t l := by
  have hp : lengths.take s <+: lengths.take t := List.take_prefix_take_left h
  exact hp.sublist.count_le l

theorem before_le (s : Nat) (l : Nat) : before lengths s l ≤ lengths.count l :=
  (List.take_sublist s lengths).count_le l

/-- The symbols of one length stand in order. -/
theorem before_lt {s t : Nat} (hs : s < lengths.length) (h : s < t) :
    before lengths s (len lengths s) < before lengths t (len lengths s) := by
  have h1 := before_succ hs (len lengths s)
  have h2 : before lengths (s + 1) _ ≤ before lengths t _ := before_mono h (len lengths s)
  rw [if_pos rfl] at h1
  omega

theorem before_lt_count {s : Nat} (h : Coded lengths s) :
    before lengths s (len lengths s) < count lengths (len lengths s) := by
  have h1 := before_lt h.lt (Nat.lt_add_one s)
  have h2 : before lengths (s + 1) _ ≤ lengths.count _ := before_le (s + 1) (len lengths s)
  rw [count, if_neg h]
  omega

/-- Every number of earlier symbols below the count is that of some symbol. -/
theorem exists_before {l d : Nat} (h : d < lengths.count l) :
    ∃ s, ∃ hs : s < lengths.length, lengths[s] = l ∧ before lengths s l = d := by
  induction lengths generalizing d with
  | nil => cases h
  | cons x xs ih =>
      rw [List.count_cons] at h
      by_cases hx : x = l
      · cases d with
        | zero => exact ⟨0, Nat.zero_lt_succ _, hx, rfl⟩
        | succ d =>
            rw [if_pos (by simpa using hx)] at h
            obtain ⟨s, hs, hl, hb⟩ := ih (Nat.lt_of_succ_lt_succ h)
            refine ⟨s + 1, Nat.succ_lt_succ hs, hl, ?_⟩
            rw [before, List.take_succ_cons, List.count_cons, if_pos (by simpa using hx)]
            exact congrArg Nat.succ hb
      · rw [if_neg (by simpa using hx)] at h
        obtain ⟨s, hs, hl, hb⟩ := ih h
        refine ⟨s + 1, Nat.succ_lt_succ hs, hl, ?_⟩
        rw [before, List.take_succ_cons, List.count_cons, if_neg (by simpa using hx)]
        exact hb

theorem exists_symbol {l d : Nat} (h : d < count lengths l) :
    ∃ s, Coded lengths s ∧ len lengths s = l ∧ before lengths s l = d := by
  have hl : l ≠ 0 := by
    intro h0
    rw [count, if_pos h0] at h
    omega
  rw [count, if_neg hl] at h
  obtain ⟨s, hs, hsl, hb⟩ := exists_before h
  have hlen : len lengths s = l := (len_eq hs).trans hsl
  refine ⟨s, ?_, hlen, hb⟩
  rw [Coded, hlen]
  exact hl

/-- The lengths from 1 up to `l`, counted. -/
theorem offset_succ (l : Nat) :
    offset lengths (l + 1) = lengths.countP fun x => x ≠ 0 ∧ x ≤ l := by
  induction l with
  | zero =>
      have : (fun x : Nat => decide (x ≠ 0 ∧ x ≤ 0)) = fun _ => false := by
        funext x
        simp only [decide_eq_false_iff_not]
        omega
      rw [this]
      simp [offset, count]
  | succ l ih =>
      rw [offset, ih, count, if_neg (by omega)]
      clear ih
      induction lengths with
      | nil => rfl
      | cons x xs ih =>
          rw [List.countP_cons, List.countP_cons, List.count_cons, ← ih]
          by_cases h : x = l + 1
          · subst h
            simp
            omega
          · have h1 : (x ≠ 0 ∧ x ≤ l + 1) ↔ (x ≠ 0 ∧ x ≤ l) := by omega
            simp only [h1, beq_iff_eq, h, if_false]
            omega

theorem offset_mono {l m : Nat} (h : l ≤ m) : offset lengths l ≤ offset lengths m := by
  induction m with
  | zero => rw [Nat.le_zero.mp h]
  | succ m ih =>
      rcases Nat.lt_or_ge m l with hl | hl
      · rw [Nat.le_antisymm h hl]
      · have := ih hl
        rw [offset]
        omega

theorem offset_le (l : Nat) : offset lengths l ≤ lengths.length := by
  cases l with
  | zero => exact Nat.zero_le _
  | succ l =>
      rw [offset_succ]
      exact List.countP_le_length

theorem slot_lt {s : Nat} (h : Coded lengths s) : slot lengths s < lengths.length := by
  have h1 := before_lt_count h
  have h2 : offset lengths _ ≤ _ := offset_le (len lengths s + 1)
  rw [offset] at h2
  rw [slot]
  omega

/-- Two symbols stand in two places. -/
theorem slot_ne {s t : Nat} (hs : Coded lengths s) (ht : Coded lengths t) (h : s < t) :
    slot lengths s ≠ slot lengths t := by
  have h1 := before_lt_count hs
  have h2 := before_lt_count ht
  rw [slot, slot]
  rcases Nat.lt_trichotomy (len lengths s) (len lengths t) with hl | hl | hl
  · have h3 : offset lengths _ ≤ offset lengths _ := offset_mono hl
    rw [offset] at h3
    omega
  · have h3 := before_lt hs.lt h
    rw [hl] at h3 ⊢
    omega
  · have h3 : offset lengths _ ≤ offset lengths _ := offset_mono hl
    rw [offset] at h3
    omega

/-! ## Values -/

/-- What is left of a longer codeword's value lies past the codewords of length
`l`. -/
theorem past_le {l m : Nat} (h : l < m) :
    (first lengths l + count lengths l) * 2 ^ (m - l) ≤ first lengths m := by
  induction m with
  | zero => omega
  | succ m ih =>
      rcases Nat.lt_or_ge l m with hl | hl
      · have h1 := ih hl
        rw [first, Nat.succ_sub (by omega), Nat.pow_succ, ← Nat.mul_assoc]
        omega
      · have : l = m := by omega
        subst this
        rw [first, Nat.add_sub_cancel_left]
        omega

theorem past_le_value {s l : Nat} (h : l < len lengths s) :
    first lengths l + count lengths l ≤ value lengths s / 2 ^ (len lengths s - l) := by
  rw [Nat.le_div_iff_mul_le (Nat.two_pow_pos _)]
  exact le_trans (past_le h) (Nat.le_add_right _ _)

/-- The first value of a length is not above what was read before it, doubled. -/
theorem first_le_value {s j k : Nat} (hj : 1 ≤ j) (hk : j + k = len lengths s) :
    first lengths j ≤ 2 * (value lengths s / 2 ^ (k + 1)) := by
  obtain ⟨i, rfl⟩ := Nat.exists_eq_succ_of_ne_zero (by omega : j ≠ 0)
  have h := past_le_value (show i < len lengths s by omega)
  rw [show len lengths s - i = k + 1 by omega] at h
  rw [first]
  omega

/-- The codewords up to length `l` take the same part of all. -/
theorem past_weight {max l : Nat} (h : l ≤ max) :
    (first lengths l + count lengths l) * 2 ^ (max - l) =
      (lengths.map fun x => if x ≤ l then weight max x else 0).sum := by
  induction l with
  | zero =>
      have : (fun x : Nat => if x ≤ 0 then weight max x else 0) = fun _ => 0 := by
        funext x
        split
        · rw [weight, if_pos (by omega)]
        · rfl
      rw [this]
      simp [first, count]
  | succ l ih =>
      have h1 := ih (by omega)
      have h2 : 2 ^ (max - l) = 2 * 2 ^ (max - (l + 1)) := by
        rw [← Nat.pow_succ']
        congr 1
        omega
      have h3 : (lengths.map fun x => if x ≤ l + 1 then weight max x else 0).sum =
          (lengths.map fun x => if x ≤ l then weight max x else 0).sum +
            lengths.count (l + 1) * 2 ^ (max - (l + 1)) := by
        clear ih h1
        induction lengths with
        | nil => simp
        | cons x xs ih =>
            rw [List.map_cons, List.map_cons, List.sum_cons, List.sum_cons, ih, List.count_cons]
            by_cases hx : x = l + 1
            · subst hx
              rw [if_pos (le_refl _), if_neg (by omega), weight, if_neg (by omega)]
              simp only [beq_self_eq_true, if_true]
              ring
            · have hc : (x ≤ l + 1) = (x ≤ l) := by
                apply propext
                omega
              simp only [hc, beq_iff_eq, hx, if_false, Nat.add_zero, Nat.add_assoc]
      have h4 : count lengths (l + 1) = lengths.count (l + 1) := if_neg (by omega)
      rw [h3, ← h1, first, h2, h4]
      ring

theorem weight_le (max l : Nat) :
    (lengths.map fun x => if x ≤ l then weight max x else 0).sum ≤
      (lengths.map (weight max)).sum := by
  induction lengths with
  | nil => exact le_refl _
  | cons x xs ih =>
      rw [List.map_cons, List.map_cons, List.sum_cons, List.sum_cons]
      split <;> omega

/-- With enough codewords, a value fits its length. -/
theorem Kraft.value_lt {max s : Nat} (h : Kraft lengths max) (hs : Coded lengths s) :
    value lengths s < 2 ^ len lengths s := by
  have hl : len lengths s ≤ max := h.le _ (len_mem hs.lt)
  have h1 := @past_weight lengths _ _ hl
  have h2 := le_trans (weight_le max (len lengths s)) h.sum
  have h3 : 2 ^ max = 2 ^ len lengths s * 2 ^ (max - len lengths s) := by
    rw [← Nat.pow_add]
    congr 1
    omega
  rw [← h1, h3] at h2
  have h4 := Nat.le_of_mul_le_mul_right h2 (Nat.two_pow_pos _)
  have h5 := before_lt_count hs
  rw [value]
  omega

/-- Shorter codes are codes of a longer limit. -/
theorem Kraft.widen {m n : Nat} (h : Kraft lengths m) (hmn : m ≤ n) :
    Kraft lengths n := by
  refine ⟨fun l hl => le_trans (h.le l hl) hmn, ?_⟩
  have hw : ∀ l ≤ m, weight n l = 2 ^ (n - m) * weight m l := by
    intro l hl
    rw [weight, weight]
    split
    · rfl
    · rw [← Nat.pow_add]
      congr 1
      omega
  have hsum : (lengths.map (weight n)).sum = 2 ^ (n - m) * (lengths.map (weight m)).sum := by
    rw [← List.sum_map_mul_left]
    exact congrArg _ (List.map_congr_left fun l hl => hw l (h.le l hl))
  have hpow : 2 ^ n = 2 ^ (n - m) * 2 ^ m := by
    rw [← Nat.pow_add, Nat.sub_add_cancel hmn]
  rw [hsum, hpow]
  exact Nat.mul_le_mul_left _ h.sum

end PrefixCode

end TablesOS
