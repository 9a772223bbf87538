import TablesOS.Engine.Order
import TablesOS.Spec.Meaning
import Mathlib.Data.List.Lex
import Mathlib.Data.Prod.Lex

/-!
# The order of values is the order of what they stand for

Each type has a key in a linear order, and comparing two of its values is
comparing their keys: digits against digits is number against number, component
by component is the lexicographic product. Canonical forms make the key say
everything about the value. That the comparison is a total order then is the
linear order of the keys.
-/

namespace TablesOS

open Numeral

/-! ## Numbers -/

theorem cmp_biguint (a b : BigUint) : a.cmp b = compare a.toNat b.toNat := by
  rcases lt_trichotomy a.digits.length b.digits.length with h | h | h
  · rw [BigUint.cmp, compare_lt_iff_lt.mpr h, compare_lt_iff_lt.mpr]
    · rfl
    · exact value_lt_of_length b.canonical h
  · rw [BigUint.cmp, compare_eq_iff_eq.mpr h]
    exact compareLex_value h
  · rw [BigUint.cmp, compare_gt_iff_gt.mpr h, compare_gt_iff_gt.mpr]
    · rfl
    · exact value_lt_of_length a.canonical h

theorem BigUint.toNat_inj {a b : BigUint} (h : a.toNat = b.toNat) : a = b := by
  have hlen : a.digits.length = b.digits.length := by
    rcases lt_trichotomy a.digits.length b.digits.length with hl | hl | hl
    · exact absurd h (value_lt_of_length b.canonical hl).ne
    · exact hl
    · exact absurd h (value_lt_of_length a.canonical hl).ne'
  have hdigits := value_inj hlen h
  cases a
  cases b
  cases hdigits
  rfl

theorem BigUint.toNat_eq_zero {a : BigUint} : a.toNat = 0 ↔ a.isZero = true := by
  constructor
  · intro h
    have hzero : a = .zero := BigUint.toNat_inj h
    rw [hzero]
    rfl
  · intro h
    have hnil : a.digits = [] := List.isEmpty_iff.mp h
    rw [BigUint.toNat, hnil]
    rfl

theorem BigInt.mag_pos {a : BigInt} (h : a.negative = true) : 0 < a.mag.toNat := by
  refine Nat.pos_of_ne_zero fun h0 => ?_
  rw [BigUint.toNat_eq_zero, a.noNegZero h] at h0
  cases h0

theorem cmp_bigint (a b : BigInt) : a.cmp b = compare a.toInt b.toInt := by
  have hmag : ∀ u v : BigUint, u.cmp v = compare (u.toNat : ℤ) (v.toNat : ℤ) := fun u v => by
    rw [cmp_biguint]
    exact compare_eq_of (fun h => by exact_mod_cast h) (fun h => by rw [h])
      fun h => by exact_mod_cast h
  unfold BigInt.cmp BigInt.toInt
  cases ha : a.negative <;> cases hb : b.negative
  · exact hmag _ _
  · have := BigInt.mag_pos hb
    refine (compare_gt_iff_gt.mpr ?_).symm
    simp only [if_true, Bool.false_eq_true, if_false]
    omega
  · have := BigInt.mag_pos ha
    refine (compare_lt_iff_lt.mpr ?_).symm
    simp only [if_true, Bool.false_eq_true, if_false]
    omega
  · refine (hmag _ _).trans ?_
    simp only [if_true]
    exact compare_eq_of (fun h => by omega) (fun h => by omega) fun h => by omega

theorem BigInt.toInt_inj {a b : BigInt} (h : a.toInt = b.toInt) : a = b := by
  have hboth : a.negative = b.negative ∧ a.mag = b.mag := by
    unfold BigInt.toInt at h
    cases ha : a.negative <;> cases hb : b.negative <;>
      simp only [ha, hb, if_true, Bool.false_eq_true, if_false] at h
    · exact ⟨rfl, BigUint.toNat_inj (by omega)⟩
    · have := BigInt.mag_pos hb
      omega
    · have := BigInt.mag_pos ha
      omega
    · exact ⟨rfl, BigUint.toNat_inj (by omega)⟩
  cases a
  cases b
  obtain ⟨rfl, rfl⟩ := hboth
  rfl

/-! ## Fractions -/

/-- The first comparison that finds a difference. -/
theorem foldl_then (f : ℕ → Ordering) (is : List ℕ) (o : Ordering) :
    is.foldl (fun ord i => ord.then (f i)) o =
      o.then (is.foldl (fun ord i => ord.then (f i)) .eq) := by
  induction is generalizing o with
  | nil => cases o <;> rfl
  | cons i is ih =>
      rw [List.foldl_cons, List.foldl_cons, ih, ih ((Ordering.eq).then (f i))]
      cases o <;> rfl

theorem fraction_head (a : List Digit) : fraction (a.getD 0 0 :: a.tail) = fraction a := by
  cases a with
  | nil => simp
  | cons d a => rfl

/-- Enough digits decide. -/
theorem firstDifference (n : ℕ) : ∀ a b : List Digit, a.length ≤ n → b.length ≤ n →
    (List.range n).foldl (fun ord i => ord.then (compare (a.getD i 0).val (b.getD i 0).val)) .eq =
      compare (fraction a) (fraction b) := by
  induction n with
  | zero =>
      intro a b ha hb
      rw [List.eq_nil_of_length_eq_zero (Nat.le_zero.mp ha),
        List.eq_nil_of_length_eq_zero (Nat.le_zero.mp hb), compare_eq_iff_eq.mpr rfl]
      rfl
  | succ n ih =>
      intro a b ha hb
      have htail : ∀ (l : List Digit) (i : ℕ), l.getD (i + 1) 0 = l.tail.getD i 0 := fun l i => by
        cases l <;> rfl
      rw [List.range_succ_eq_map, List.foldl_cons, List.foldl_map, foldl_then]
      simp only [htail]
      rw [ih a.tail b.tail (by rw [List.length_tail]; omega) (by rw [List.length_tail]; omega)]
      show (compare (a.getD 0 0).val (b.getD 0 0).val).then _ = _
      rw [compare_fraction_cons, fraction_head, fraction_head]

theorem cmp_frac (a b : List Digit) : cmpFrac a b = compare (fraction a) (fraction b) :=
  firstDifference _ a b (Nat.le_max_left ..) (Nat.le_max_right ..)

/-- A whole part and a fraction below one. -/
theorem compare_parts (m n : ℕ) (a b : List Digit) :
    (compare m n).then (compare (fraction a) (fraction b)) =
      compare ((m : ℚ) + fraction a) (n + fraction b) := by
  have hless : ∀ {x y : ℕ} (as bs : List Digit), x < y →
      (x : ℚ) + fraction as < y + fraction bs := by
    intro x y as bs hxy
    have hxy : (x : ℚ) + 1 ≤ y := by exact_mod_cast hxy
    have has := fraction_lt_one as
    have hbs := fraction_nonneg bs
    linarith
  refine compare_then (hless a b) (fun h => ?_) (hless b a)
  rw [h]
  exact compare_eq_of (fun h => by linarith) (fun h => by rw [h]) fun h => by linarith

theorem Decimal.magnitude_pos {a : Decimal} (h : a.negative = true) :
    (0 : ℚ) < a.int.toNat + fraction a.frac := by
  have hint : (0 : ℚ) ≤ a.int.toNat := by positivity
  have hfrac := fraction_nonneg a.frac
  refine lt_of_le_of_ne (by linarith) fun h0 => ?_
  have hz : a.int.toNat = 0 := by
    have : (a.int.toNat : ℚ) = 0 := by linarith
    exact_mod_cast this
  have hnil : a.frac = [] := fraction_eq_zero a.noTrailing (by linarith)
  have hno := a.noNegZero h
  rw [BigUint.toNat_eq_zero.mp hz, hnil] at hno
  cases hno

theorem cmp_decimal (a b : Decimal) : a.cmp b = compare a.toRat b.toRat := by
  have hmag : (a.int.cmp b.int).then (cmpFrac a.frac b.frac) =
      compare ((a.int.toNat : ℚ) + fraction a.frac) (b.int.toNat + fraction b.frac) := by
    rw [cmp_biguint, cmp_frac, compare_parts]
  have ha₀ : (0 : ℚ) ≤ a.int.toNat + fraction a.frac :=
    add_nonneg (by positivity) (fraction_nonneg _)
  have hb₀ : (0 : ℚ) ≤ b.int.toNat + fraction b.frac :=
    add_nonneg (by positivity) (fraction_nonneg _)
  unfold Decimal.cmp Decimal.toRat
  cases ha : a.negative <;> cases hb : b.negative <;>
    simp only [if_true, Bool.false_eq_true, if_false]
  · exact hmag
  · have := Decimal.magnitude_pos hb
    exact (compare_gt_iff_gt.mpr (by linarith)).symm
  · have := Decimal.magnitude_pos ha
    exact (compare_lt_iff_lt.mpr (by linarith)).symm
  · rw [hmag]
    rcases lt_trichotomy ((a.int.toNat : ℚ) + fraction a.frac) (b.int.toNat + fraction b.frac)
      with h | h | h
    · rw [compare_lt_iff_lt.mpr h, compare_gt_iff_gt.mpr (by linarith)]
      rfl
    · rw [compare_eq_iff_eq.mpr h, h, compare_eq_iff_eq.mpr rfl]
      rfl
    · rw [compare_gt_iff_gt.mpr h, compare_lt_iff_lt.mpr (by linarith)]
      rfl

theorem Decimal.toRat_inj {a b : Decimal} (h : a.toRat = b.toRat) : a = b := by
  have hparts : a.negative = b.negative ∧
      (a.int.toNat : ℚ) + fraction a.frac = b.int.toNat + fraction b.frac := by
    have ha₀ : (0 : ℚ) ≤ a.int.toNat + fraction a.frac :=
      add_nonneg (by positivity) (fraction_nonneg _)
    have hb₀ : (0 : ℚ) ≤ b.int.toNat + fraction b.frac :=
      add_nonneg (by positivity) (fraction_nonneg _)
    unfold Decimal.toRat at h
    cases ha : a.negative <;> cases hb : b.negative <;>
      simp only [ha, hb, if_true, Bool.false_eq_true, if_false] at h
    · exact ⟨rfl, h⟩
    · have := Decimal.magnitude_pos hb
      linarith
    · have := Decimal.magnitude_pos ha
      linarith
    · exact ⟨rfl, by linarith⟩
  obtain ⟨hsign, hmag⟩ := hparts
  have heq := compare_eq_iff_eq.mpr hmag
  rw [← compare_parts, Ordering.then_eq_eq] at heq
  have hint := BigUint.toNat_inj (compare_eq_iff_eq.mp heq.1)
  have hfrac := fraction_inj a.noTrailing b.noTrailing (compare_eq_iff_eq.mp heq.2)
  cases a
  cases b
  cases hsign
  cases hint
  cases hfrac
  rfl

/-! ## Dates, times and text -/

theorem compare_pair {α β : Type} [LinearOrder α] [LinearOrder β] (a c : α) (b d : β) :
    (compare a c).then (compare b d) = compare (toLex (a, b)) (toLex (c, d)) := rfl

/-- Year, month and day in this order. -/
def Day.key (d : Day) : ℤ ×ₗ ℕ ×ₗ ℕ := toLex (d.year, toLex (d.month, d.day))

def Clock.key (t : Clock) : ℕ ×ₗ ℚ := toLex (t.second, t.fraction)

/-- The bytes of a text. -/
def textKey (s : String) : List ℕ := (utf8Bytes s.toList).map UInt8.toNat

theorem Day.key_lt (d e : Day) : d.key < e.key ↔ d.Less e := by
  simp only [Day.key, Prod.Lex.toLex_lt_toLex, Day.Less]

theorem Day.key_inj {d e : Day} : d.key = e.key ↔ d = e := by
  constructor
  · intro h
    obtain ⟨hy, hmd⟩ := Prod.mk.inj (toLex.injective h)
    obtain ⟨hm, hd⟩ := Prod.mk.inj (toLex.injective hmd)
    exact (Day.mk.injEq ..).mpr ⟨hy, hm, hd⟩
  · exact fun h => by rw [h]

theorem Clock.key_lt (t u : Clock) : t.key < u.key ↔ t.Less u := by
  simp only [Clock.key, Prod.Lex.toLex_lt_toLex, Clock.Less]

theorem Clock.key_inj {t u : Clock} : t.key = u.key ↔ t = u := by
  constructor
  · intro h
    obtain ⟨hs, hf⟩ := Prod.mk.inj (toLex.injective h)
    exact (Clock.mk.injEq ..).mpr ⟨hs, hf⟩
  · exact fun h => by rw [h]

theorem cmp_date (d e : Date) : d.cmp e = compare d.meaning.key e.meaning.key := by
  rw [Date.cmp, cmp_bigint, Ordering.then_assoc, compare_pair, compare_pair]
  rfl

theorem Date.meaning_inj {d e : Date} (h : d.meaning = e.meaning) : d = e := by
  obtain ⟨hy, hm, hd⟩ := (Day.mk.injEq ..).mp h
  have hyear := BigInt.toInt_inj hy
  cases d
  cases e
  cases hyear
  cases hm
  cases hd
  rfl

theorem cmp_time (t u : TimeOfDay) : t.cmp u = compare t.meaning.key u.meaning.key := by
  rw [TimeOfDay.cmp, cmp_frac, compare_pair]
  rfl

theorem TimeOfDay.meaning_inj {t u : TimeOfDay} (h : t.meaning = u.meaning) : t = u := by
  obtain ⟨hs, hf⟩ := (Clock.mk.injEq ..).mp h
  have hfrac := fraction_inj t.noTrailing u.noTrailing hf
  cases t
  cases u
  cases hs
  cases hfrac
  rfl

theorem Offset.minutes_inj {a b : Offset} (h : a.minutes = b.minutes) : a = b := by
  cases a
  cases b
  cases h
  rfl

theorem compare_cons (m n : ℕ) (ms ns : List ℕ) :
    (compare m n).then (LinearOrder.toOrd.compare ms ns) =
      LinearOrder.toOrd.compare (m :: ms) (n :: ns) := by
  have hless : ∀ {m n : ℕ} (ms ns : List ℕ), m < n → m :: ms < n :: ns := by
    intro m n ms ns h
    exact List.cons_lt_cons_iff.mpr (Or.inl h)
  have hsame : ∀ {ms ns : List ℕ}, ms < ns → n :: ms < n :: ns := by
    intro ms ns h
    exact List.cons_lt_cons_iff.mpr (Or.inr ⟨rfl, h⟩)
  refine compare_then (hless ms ns) (fun h => ?_) (hless ns ms)
  rw [h]
  exact compare_eq_of hsame (congrArg (n :: ·)) hsame

theorem compareLex_bytes (xs ys : List Byte) :
    List.compareLex (fun x y : Byte => compare x.toNat y.toNat) xs ys =
      LinearOrder.toOrd.compare (xs.map UInt8.toNat) (ys.map UInt8.toNat) := by
  induction xs generalizing ys with
  | nil =>
      cases ys with
      | nil => exact (compare_eq_iff_eq.mpr (Eq.refl ([] : List ℕ))).symm
      | cons y ys =>
          exact (compare_lt_iff_lt.mpr (List.nil_lt_cons y.toNat (ys.map UInt8.toNat))).symm
  | cons x xs ih =>
      cases ys with
      | nil => exact (compare_gt_iff_gt.mpr (List.nil_lt_cons x.toNat (xs.map UInt8.toNat))).symm
      | cons y ys =>
          rw [List.compareLex_cons_cons, ih, List.map_cons, List.map_cons]
          exact compare_cons _ _ _ _

theorem cmp_str (s t : String) :
    cmpStr s t = LinearOrder.toOrd.compare (textKey s) (textKey t) :=
  compareLex_bytes _ _

/-- A text has its bytes. -/
theorem textKey_inj {s t : String} (h : textKey s = textKey t) : s = t := by
  have hbytes : utf8Bytes s.toList = utf8Bytes t.toList :=
    List.map_injective_iff.mpr (fun _ _ hxy => UInt8.toNat_inj.mp hxy) h
  have hencode : s.toList.utf8Encode = t.toList.utf8Encode :=
    congrArg List.toByteArray hbytes
  rw [String.utf8Encode_toList, String.utf8Encode_toList] at hencode
  exact String.toByteArray_inj.mp hencode

/-! ## Values -/

namespace Value

theorem meaning_inj {v w : Value} (h : v.meaning = w.meaning) : v = w := by
  cases v <;> cases w <;> injection h
  · next h => exact congrArg integer (BigInt.toInt_inj h)
  · next h => exact congrArg unsigned (BigUint.toNat_inj h)
  · next h => exact congrArg decimal (Decimal.toRat_inj h)
  · next h => exact congrArg str h
  · next h => exact congrArg date (Date.meaning_inj h)
  · next hd ho => rw [Date.meaning_inj hd, Offset.minutes_inj ho]
  · next h => exact congrArg time (TimeOfDay.meaning_inj h)
  · next hd ht => rw [Date.meaning_inj hd, TimeOfDay.meaning_inj ht]
  · next hd ht ho =>
      rw [Date.meaning_inj hd, TimeOfDay.meaning_inj ht, Offset.minutes_inj ho]

/-- What a total order of meanings says of three values: reflexive,
antisymmetric, transitive, equal on nothing but equal values, and less where
the thing meant is less. -/
structure Ordered (v w x : Value) : Prop where
  refl : v.cmp v = .eq
  swap : w.cmp v = (v.cmp w).swap
  trans : v.cmp w ≠ .gt → w.cmp x ≠ .gt → v.cmp x ≠ .gt
  eq : v.cmp w = .eq ↔ v = w
  eq_meaning : v.cmp w = .eq ↔ v.meaning = w.meaning
  lt : v.cmp w = .lt ↔ v.meaning.Less w.meaning
  gt : v.cmp w = .gt ↔ w.meaning.Less v.meaning

/-- A type whose values are compared by a key, in whose order their meanings
are. -/
theorem ordered_of_key {α κ : Type} [LinearOrder κ] (mk : α → Value) (key : α → κ)
    (hcmp : ∀ a b, (mk a).cmp (mk b) = LinearOrder.toOrd.compare (key a) (key b))
    (heq : ∀ a b, key a = key b → (mk a).meaning = (mk b).meaning)
    (hless : ∀ a b, key a < key b ↔ (mk a).meaning.Less (mk b).meaning) (a b c : α) :
    Ordered (mk a) (mk b) (mk c) := by
  have hsame : (mk a).cmp (mk b) = .eq ↔ mk a = mk b := by
    constructor
    · intro h
      rw [hcmp] at h
      exact meaning_inj (heq a b (compare_eq_iff_eq.mp h))
    · intro h
      rw [h, hcmp]
      exact compare_eq_iff_eq.mpr rfl
  have hself : (mk a).cmp (mk a) = .eq := by
    rw [hcmp]
    exact compare_eq_iff_eq.mpr rfl
  refine ⟨hself, ?_, ?_, hsame, ?_, ?_, ?_⟩
  · rw [hcmp, hcmp]
    rcases lt_trichotomy (key a) (key b) with h | h | h
    · rw [compare_lt_iff_lt.mpr h, compare_gt_iff_gt.mpr h]
      rfl
    · rw [compare_eq_iff_eq.mpr h, compare_eq_iff_eq.mpr h.symm]
      rfl
    · rw [compare_lt_iff_lt.mpr h, compare_gt_iff_gt.mpr h]
      rfl
  · intro hab hbc
    rw [hcmp, compare_le_iff_le] at hab hbc ⊢
    exact le_trans hab hbc
  · rw [hsame]
    exact ⟨fun h => by rw [h], fun h => meaning_inj h⟩
  · rw [hcmp, compare_lt_iff_lt, hless]
  · rw [hcmp, compare_gt_iff_gt]
    exact hless b a

/-- Local value first, then the offset. -/
theorem ordered_dateTz (a b c : Date × Offset) :
    Ordered (dateTz a.1 a.2) (dateTz b.1 b.2) (dateTz c.1 c.2) := by
  refine ordered_of_key (fun a : Date × Offset => dateTz a.1 a.2)
    (fun a => toLex (a.1.meaning.key, a.2.minutes)) (fun a b => ?_) (fun a b h => ?_)
    (fun a b => ?_) a b c
  · exact congrArg (Ordering.then · _) (cmp_date a.1 b.1)
  · obtain ⟨hd, ho⟩ := Prod.mk.inj (toLex.injective h)
    exact (Meaning.dateTz.injEq ..).mpr ⟨Day.key_inj.mp hd, ho⟩
  · simp only [Prod.Lex.toLex_lt_toLex, Day.key_lt, Day.key_inj, meaning, Meaning.Less]

theorem ordered_dateTime (a b c : Date × TimeOfDay) :
    Ordered (dateTime a.1 a.2) (dateTime b.1 b.2) (dateTime c.1 c.2) := by
  refine ordered_of_key (fun a : Date × TimeOfDay => dateTime a.1 a.2)
    (fun a => toLex (a.1.meaning.key, a.2.meaning.key)) (fun a b => ?_) (fun a b h => ?_)
    (fun a b => ?_) a b c
  · exact congrArg₂ Ordering.then (cmp_date a.1 b.1) (cmp_time a.2 b.2)
  · obtain ⟨hd, ht⟩ := Prod.mk.inj (toLex.injective h)
    exact (Meaning.dateTime.injEq ..).mpr ⟨Day.key_inj.mp hd, Clock.key_inj.mp ht⟩
  · simp only [Prod.Lex.toLex_lt_toLex, Day.key_lt, Day.key_inj, Clock.key_lt, meaning,
      Meaning.Less]

theorem ordered_dateTimeTz (a b c : Date × TimeOfDay × Offset) :
    Ordered (dateTimeTz a.1 a.2.1 a.2.2) (dateTimeTz b.1 b.2.1 b.2.2)
      (dateTimeTz c.1 c.2.1 c.2.2) := by
  refine ordered_of_key (fun a : Date × TimeOfDay × Offset => dateTimeTz a.1 a.2.1 a.2.2)
    (fun a => toLex (a.1.meaning.key, toLex (a.2.1.meaning.key, a.2.2.minutes)))
    (fun a b => ?_) (fun a b h => ?_) (fun a b => ?_) a b c
  · show ((a.1.cmp b.1).then (a.2.1.cmp b.2.1)).then (a.2.2.cmp b.2.2) = _
    rw [cmp_date, cmp_time, Ordering.then_assoc]
    rfl
  · obtain ⟨hd, hrest⟩ := Prod.mk.inj (toLex.injective h)
    obtain ⟨ht, ho⟩ := Prod.mk.inj (toLex.injective hrest)
    exact (Meaning.dateTimeTz.injEq ..).mpr ⟨Day.key_inj.mp hd, Clock.key_inj.mp ht, ho⟩
  · simp only [Prod.Lex.toLex_lt_toLex, Day.key_lt, Day.key_inj, Clock.key_lt, Clock.key_inj,
      meaning, Meaning.Less]

theorem ordered_of_typeOf (v w x : Value) (hvw : v.typeOf = w.typeOf)
    (hwx : w.typeOf = x.typeOf) : Ordered v w x := by
  cases v <;> cases w <;> cases hvw <;> cases x <;> cases hwx
  · exact ordered_of_key integer BigInt.toInt cmp_bigint
      (fun a b h => congrArg Meaning.integer h) (fun a b => Iff.rfl) _ _ _
  · exact ordered_of_key unsigned BigUint.toNat cmp_biguint
      (fun a b h => congrArg Meaning.unsigned h) (fun a b => Iff.rfl) _ _ _
  · exact ordered_of_key decimal Decimal.toRat cmp_decimal
      (fun a b h => congrArg Meaning.decimal h) (fun a b => Iff.rfl) _ _ _
  · exact ordered_of_key str textKey cmp_str
      (fun a b h => congrArg Meaning.text (textKey_inj h)) (fun a b => Iff.rfl) _ _ _
  · exact ordered_of_key date (fun d => d.meaning.key) cmp_date
      (fun a b h => congrArg Meaning.date (Day.key_inj.mp h)) (fun a b => Day.key_lt _ _) _ _ _
  · next d o e p f q => exact ordered_dateTz (d, o) (e, p) (f, q)
  · exact ordered_of_key time (fun t => t.meaning.key) cmp_time
      (fun a b h => congrArg Meaning.time (Clock.key_inj.mp h)) (fun a b => Clock.key_lt _ _)
      _ _ _
  · next d t e u f r => exact ordered_dateTime (d, t) (e, u) (f, r)
  · next d t o e u p f r q => exact ordered_dateTimeTz (d, t, o) (e, u, p) (f, r, q)

/-- Values of one type are in a total order, that of what they mean. -/
theorem value_order (v w x : Value) (hvw : v.typeOf = w.typeOf) (hwx : w.typeOf = x.typeOf) :
    Ordered v w x :=
  ordered_of_typeOf v w x hvw hwx

theorem value_order_decimals :
    ∃ v w x, parse .decimal "-2.50" = .ok v ∧ parse .decimal "-2.4" = .ok w ∧
      parse .decimal "10" = .ok x ∧ Ordered v w x :=
  ⟨_, _, _, rfl, rfl, rfl, value_order _ _ _ rfl rfl⟩

/-! ## Values of several types

The type decides first, by its tag, so the comparison is an order on all values
at once. -/

theorem ordTag_inj {v w : Value} (h : v.ordTag = w.ordTag) : v.typeOf = w.typeOf := by
  have htag : some v.typeOf = some w.typeOf := by
    rw [← Ty.fromTag_tag v.typeOf, ← Ty.fromTag_tag w.typeOf]
    exact congrArg Ty.fromTag h
  exact Option.some.inj htag

theorem cmp_of_ne {v w : Value} (h : v.ordTag ≠ w.ordTag) :
    v.cmp w = compare v.ordTag.toNat w.ordTag.toNat :=
  if_pos h

theorem ordTag_le {v w : Value} (h : v.cmp w ≠ .gt) : v.ordTag.toNat ≤ w.ordTag.toNat := by
  by_cases htag : v.ordTag = w.ordTag
  · rw [htag]
  · rw [cmp_of_ne htag] at h
    exact compare_le_iff_le.mp h

theorem cmp_swap (v w : Value) : w.cmp v = (v.cmp w).swap := by
  by_cases htag : v.ordTag = w.ordTag
  · exact (ordered_of_typeOf v w w (ordTag_inj htag) rfl).swap
  · rw [cmp_of_ne htag, cmp_of_ne (Ne.symm htag)]
    exact (Nat.compare_swap _ _).symm

theorem cmp_eq (v w : Value) : v.cmp w = .eq ↔ v = w := by
  by_cases htag : v.ordTag = w.ordTag
  · exact (ordered_of_typeOf v w w (ordTag_inj htag) rfl).eq
  · rw [cmp_of_ne htag, compare_eq_iff_eq]
    exact ⟨fun h => absurd (UInt8.toNat_inj.mp h) htag, fun h => absurd (congrArg ordTag h) htag⟩

theorem cmp_trans {v w x : Value} (hvw : v.cmp w ≠ .gt) (hwx : w.cmp x ≠ .gt) :
    v.cmp x ≠ .gt := by
  have h₁ := ordTag_le hvw
  have h₂ := ordTag_le hwx
  by_cases htag : v.ordTag = x.ordTag
  · rw [htag] at h₁
    have hmid : w.ordTag = x.ordTag := UInt8.toNat_inj.mp (Nat.le_antisymm h₂ h₁)
    have hfst : v.ordTag = w.ordTag := htag.trans hmid.symm
    exact (ordered_of_typeOf v w x (ordTag_inj hfst) (ordTag_inj hmid)).trans hvw hwx
  · rw [cmp_of_ne htag]
    exact compare_le_iff_le.mpr (h₁.trans h₂)

end Value

end TablesOS
