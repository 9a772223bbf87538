import TablesOS.Spec.Literal
import TablesOS.Proofs.ParseSafety
import TablesOS.Proofs.ValueOrder

/-!
# The parsers accept the language of their type

Sound: a parser that answers has found the text to be of the grammar, and its
answer means what the grammar says. Complete: on a text of the grammar each
separator the parser looks for is where the grammar has it, because the parts
around it are of characters it is not among. Together with the comparison on
bytes this is what `Value.parse` does with any text.
-/

namespace TablesOS

open Literal Numeral

/-! ## Digits -/

theorem digits?_numeral (ds : List Digit) : digits? (numeral ds) = some ds := digits?_map ds

theorem numeral_of_digits? {s : Chars} {ds : List Digit} (h : digits? s = some ds) :
    s = numeral ds := Bytewise.digits?_eq_some h

theorem numeral_ne_nil {ds : List Digit} : (numeral ds).isEmpty = false ↔ ds ≠ [] := by
  cases ds with
  | nil => simp [numeral]
  | cons d ds => simp [numeral]

theorem toNat_normalize (ds : List Digit) : (BigUint.normalize ds).toNat = value ds :=
  value_dropWhile ds

theorem BigUint.parse_sound {s : Chars} {v : BigUint} (h : parse s = some v) :
    ∃ ds, ds ≠ [] ∧ s = numeral ds ∧ v = normalize ds := by
  rw [parse] at h
  split at h
  · cases h
  · next hne =>
      obtain ⟨ds, hds, hv⟩ := Option.map_eq_some_iff.mp h
      have hs := numeral_of_digits? hds
      refine ⟨ds, ?_, hs, hv.symm⟩
      rw [hs] at hne
      exact numeral_ne_nil.mp (by simpa using hne)

theorem BigUint.parse_numeral {ds : List Digit} (hds : ds ≠ []) :
    parse (numeral ds) = some (normalize ds) := by
  rw [parse, numeral_ne_nil.mpr hds, digits?_numeral]
  rfl

theorem twoDigits_iff {s : Chars} {n : ℕ} : TwoDigits s n ↔ parseFixed s 2 = some n := by
  constructor
  · intro h
    obtain ⟨a, b⟩ := h
    revert a b
    decide
  · intro h
    rw [parseFixed] at h
    split at h
    · cases h
    · next hs =>
        rw [Bool.or_eq_true, not_or, Bool.not_eq_true', Bool.not_eq_false, decide_eq_true_eq,
          not_not] at hs
        obtain ⟨ds, rfl⟩ := Bytewise.all_digits hs.2
        rw [Bytewise.utf8Len_digits] at hs
        obtain ⟨a, b, rfl⟩ := List.length_eq_two.mp hs.1
        have hn : n = value [a, b] := by
          rw [← Option.some.inj h]
          clear h hs
          revert a b
          decide
        rw [hn]
        exact ⟨a, b⟩

/-! ## Signs -/

theorem splitSign_sound (s : Chars) :
    ∃ sg, Sign sg (splitSign s).1 ∧ s = sg ++ (splitSign s).2 := by
  unfold splitSign
  split
  · exact ⟨_, .minus, rfl⟩
  · exact ⟨_, .plus, rfl⟩
  · exact ⟨_, .absent, rfl⟩

theorem splitMinus_sound (s : Chars) :
    ∃ sg, Minus sg (splitMinus s).1 ∧ s = sg ++ (splitMinus s).2 := by
  unfold splitMinus
  split
  · exact ⟨_, .minus, rfl⟩
  · exact ⟨_, .absent, rfl⟩

theorem unsigned_numeral {ds : List Digit} (hds : ds ≠ []) (rest : Chars) :
    TablesOS.Unsigned (numeral ds ++ rest) := unsigned_digits hds rest

theorem splitSign_complete {sg body : Chars} {neg : Bool} (hsg : Sign sg neg)
    (hbody : TablesOS.Unsigned body) : splitSign (sg ++ body) = (neg, body) := by
  cases hsg with
  | absent => exact @sign_split false _ hbody
  | plus => rfl
  | minus => rfl

theorem splitMinus_complete {sg body : Chars} {neg : Bool} (hsg : Minus sg neg)
    (hbody : TablesOS.Unsigned body) : splitMinus (sg ++ body) = (neg, body) := by
  cases hsg with
  | absent => exact @minus_split false _ hbody
  | minus => rfl

theorem toInt_fromParts (neg : Bool) (mag : BigUint) :
    (BigInt.fromParts neg mag).toInt = signed neg (mag.toNat : ℤ) := by
  show (if (neg && !mag.isZero) = true then -(mag.toNat : ℤ) else mag.toNat) = _
  cases neg with
  | false => rfl
  | true =>
      cases hz : mag.isZero with
      | false => rfl
      | true => simp [signed, BigUint.toNat_eq_zero.mpr hz]

theorem fraction_trimFrac (frac : List Digit) : fraction (trimFrac frac) = fraction frac :=
  fraction_rdropWhile frac

theorem toRat_canonical (neg : Bool) (int : BigUint) (frac : List Digit) :
    (TablesOS.Decimal.canonical neg int frac).toRat =
      signed neg ((int.toNat : ℚ) + fraction frac) := by
  have hfrac := fraction_trimFrac frac
  show (if (neg && !(int.isZero && (trimFrac frac).isEmpty)) = true then
    -((int.toNat : ℚ) + fraction (trimFrac frac)) else int.toNat + fraction (trimFrac frac)) = _
  rw [hfrac]
  cases neg with
  | false => rfl
  | true =>
      cases hz : int.isZero && (trimFrac frac).isEmpty with
      | false => rfl
      | true =>
          rw [Bool.and_eq_true, List.isEmpty_iff] at hz
          have hzero : fraction frac = 0 := by
            rw [← hfrac, hz.2]
            rfl
          simp [signed, BigUint.toNat_eq_zero.mpr hz.1, hzero]

/-! ## Numbers -/

theorem BigInt.parse_sound {s : Chars} {v : BigInt} (h : parse s = some v) :
    Integer s v.toInt := by
  obtain ⟨sg, hsg, hs⟩ := splitSign_sound s
  rw [parse] at h
  generalize splitSign s = r at hsg hs h
  obtain ⟨neg, rest⟩ := r
  obtain ⟨mag, hmag, rfl⟩ := Option.map_eq_some_iff.mp h
  obtain ⟨ds, hds, hrest, rfl⟩ := BigUint.parse_sound hmag
  rw [hs, hrest, toInt_fromParts, toNat_normalize]
  exact .mk hsg hds

theorem BigInt.parse_complete {s : Chars} {n : ℤ} (h : Integer s n) :
    ∃ v, parse s = some v ∧ v.toInt = n := by
  obtain ⟨hsg, hds⟩ := h
  have hbody := unsigned_numeral hds []
  rw [List.append_nil] at hbody
  refine ⟨_, ?_, (toInt_fromParts _ _).trans (by rw [toNat_normalize])⟩
  rw [parse, splitSign_complete hsg hbody]
  exact congrArg (Option.map _) (BigUint.parse_numeral hds)

theorem BigUint.parse_meaning {s : Chars} {v : BigUint} (h : parse s = some v) :
    Literal.Unsigned s v.toNat := by
  obtain ⟨ds, hds, rfl, rfl⟩ := BigUint.parse_sound h
  rw [toNat_normalize]
  exact .mk hds

theorem BigUint.parse_complete {s : Chars} {n : ℕ} (h : Literal.Unsigned s n) :
    ∃ v, parse s = some v ∧ v.toNat = n := by
  obtain ⟨hds⟩ := h
  exact ⟨_, BigUint.parse_numeral hds, toNat_normalize _⟩

/-- `split_once` at the point, and the whole in front of it otherwise. -/
def splitPoint (s : Chars) : Chars × Chars :=
  match splitOnce '.' s with
  | some (i, f) => (i, f)
  | none => (s, [])

theorem magnitude_sound {rest : Chars} {int : BigUint} {frac : List Digit}
    (hne : ((splitPoint rest).1.isEmpty && (splitPoint rest).2.isEmpty) = false)
    (hint : (if (splitPoint rest).1.isEmpty then some BigUint.zero
      else BigUint.parse (splitPoint rest).1) = some int)
    (hfrac : digits? (splitPoint rest).2 = some frac) :
    Magnitude rest ((int.toNat : ℚ) + fraction frac) := by
  have hf := numeral_of_digits? hfrac
  unfold splitPoint at hne hint hf
  split at hne
  · next i f hsplit =>
      obtain ⟨hrest, -⟩ := splitOnce_eq_some hsplit
      rw [hsplit] at hint hf
      dsimp only at hint hf hne
      rw [hf] at hrest hne
      cases hi : i.isEmpty with
      | true =>
          rw [hi, if_pos rfl] at hint
          cases hint
          rw [hi, Bool.true_and] at hne
          have hz : ((BigUint.zero.toNat : ℕ) : ℚ) = 0 := Nat.cast_zero
          rw [hrest, List.isEmpty_iff.mp hi, hz, zero_add]
          exact .bare (numeral_ne_nil.mp hne)
      | false =>
          rw [hi, if_neg Bool.false_ne_true] at hint
          obtain ⟨ds, hds, hnum, rfl⟩ := BigUint.parse_sound hint
          rw [hrest, hnum, toNat_normalize]
          exact .point hds
  · next hsplit =>
      rw [hsplit] at hint hf
      dsimp only at hint hf hne
      have hnil : frac = [] := by
        cases frac with
        | nil => rfl
        | cons d ds => cases hf
      rw [List.isEmpty_nil, Bool.and_true] at hne
      rw [hne, if_neg Bool.false_ne_true] at hint
      obtain ⟨ds, hds, hnum, rfl⟩ := BigUint.parse_sound hint
      rw [hnil, hnum, toNat_normalize, fraction_nil, add_zero]
      exact .whole hds

theorem decimal_parse_eq (s : Chars) :
    TablesOS.Decimal.parse s = if (splitSign s).2.isEmpty then none else
      if (splitPoint (splitSign s).2).1.isEmpty && (splitPoint (splitSign s).2).2.isEmpty then
        none
      else
        (if (splitPoint (splitSign s).2).1.isEmpty then some BigUint.zero
          else BigUint.parse (splitPoint (splitSign s).2).1) >>= fun int =>
        digits? (splitPoint (splitSign s).2).2 >>= fun frac =>
        some (TablesOS.Decimal.canonical (splitSign s).1 int frac) := by
  rw [TablesOS.Decimal.parse]
  obtain ⟨neg, rest⟩ := splitSign s
  dsimp only [splitPoint]
  by_cases hrest : rest.isEmpty = true
  · rw [if_pos hrest, if_pos hrest]
  · rw [if_neg hrest, if_neg hrest]
    obtain ⟨r, hsplit⟩ : ∃ r, splitOnce '.' rest = r := ⟨_, rfl⟩
    rcases r with _ | r
    · simp only [hsplit]
      split <;> rfl
    · simp only [hsplit]
      split
      · rfl
      · split <;> rfl

theorem Decimal.parse_sound {s : Chars} {v : TablesOS.Decimal}
    (h : TablesOS.Decimal.parse s = some v) : Literal.Decimal s v.toRat := by
  obtain ⟨sg, hsg, hs⟩ := splitSign_sound s
  rw [decimal_parse_eq] at h
  generalize splitSign s = r at hsg hs h
  split at h
  · cases h
  · split at h
    · cases h
    · next hne =>
        obtain ⟨int, hint, hrest⟩ := Option.bind_eq_some_iff.mp h
        obtain ⟨frac, hfrac, hv⟩ := Option.bind_eq_some_iff.mp hrest
        rw [← Option.some.inj hv, toRat_canonical, hs]
        exact .mk hsg (magnitude_sound (Bool.not_eq_true _ ▸ hne) hint hfrac)

/-- What a magnitude of the grammar is split into. -/
theorem magnitude_complete {s : Chars} {q : ℚ} (h : Magnitude s q) :
    TablesOS.Unsigned s ∧ ((splitPoint s).1.isEmpty && (splitPoint s).2.isEmpty) = false ∧
      ∃ int frac, (if (splitPoint s).1.isEmpty then some BigUint.zero
          else BigUint.parse (splitPoint s).1) = some int ∧
        digits? (splitPoint s).2 = some frac ∧ (int.toNat : ℚ) + fraction frac = q := by
  have hpoint : ∀ ds : List Digit, '.' ∉ numeral ds := not_mem_digits (by decide)
  cases h with
  | @whole ds hds =>
      have hbody := unsigned_numeral hds []
      rw [List.append_nil] at hbody
      have hsplit : splitPoint (numeral ds) = (numeral ds, []) := by
        rw [splitPoint, splitOnce_none (hpoint ds)]
      rw [hsplit]
      refine ⟨hbody, by simp [numeral_ne_nil.mpr hds], BigUint.normalize ds, [], ?_, rfl, ?_⟩
      · rw [numeral_ne_nil.mpr hds]
        exact BigUint.parse_numeral hds
      · rw [toNat_normalize, fraction_nil, add_zero]
  | @point ds fs hds =>
      have hsplit : splitPoint (numeral ds ++ '.' :: numeral fs) = (numeral ds, numeral fs) := by
        rw [splitPoint, splitOnce_append (hpoint ds)]
      rw [hsplit]
      refine ⟨unsigned_numeral hds _, by simp [numeral_ne_nil.mpr hds], BigUint.normalize ds, fs,
        ?_, digits?_numeral fs, ?_⟩
      · rw [numeral_ne_nil.mpr hds]
        exact BigUint.parse_numeral hds
      · rw [toNat_normalize]
  | @bare fs hfs =>
      have hsplit : splitPoint ('.' :: numeral fs) = ([], numeral fs) := by
        have hcut := splitOnce_append (b := numeral fs) (List.not_mem_nil (a := '.'))
        rw [splitPoint, show '.' :: numeral fs = [] ++ '.' :: numeral fs from rfl, hcut]
      rw [hsplit]
      refine ⟨⟨'.', numeral fs, rfl, by decide, by decide⟩, numeral_ne_nil.mpr hfs, .zero, fs, rfl,
        digits?_numeral fs, ?_⟩
      have hz : ((BigUint.zero.toNat : ℕ) : ℚ) = 0 := Nat.cast_zero
      rw [hz, zero_add]

theorem Decimal.parse_complete {s : Chars} {q : ℚ} (h : Literal.Decimal s q) :
    ∃ v, TablesOS.Decimal.parse s = some v ∧ v.toRat = q := by
  obtain @⟨sg, body, neg, q, hsg, hs⟩ := h
  obtain ⟨hbody, hne, int, frac, hint, hfrac, hq⟩ := magnitude_complete hs
  refine ⟨_, ?_, (toRat_canonical neg int frac).trans (by rw [hq])⟩
  have hempty : body.isEmpty = false := by
    obtain ⟨c, cs, rfl, -, -⟩ := hbody
    rfl
  rw [decimal_parse_eq, splitSign_complete hsg hbody]
  dsimp only
  rw [hempty, if_neg Bool.false_ne_true, hne, if_neg Bool.false_ne_true, hint, hfrac]
  rfl

/-! ## Dates -/

theorem remU32_eq (v : BigUint) (m : ℕ) : v.remU32 m = v.toNat % m := by
  have hfold : ∀ (ds : List Digit) (n : ℕ),
      ds.foldl (fun r d => (r * 10 + d.val) % m) (n % m) =
        ds.foldl (fun n d => n * 10 + d.val) n % m := by
    intro ds
    induction ds with
    | nil => exact fun n => rfl
    | cons d ds ih =>
        intro n
        rw [List.foldl_cons, List.foldl_cons, ← ih, Nat.add_mod, Nat.mod_mul_mod, ← Nat.add_mod]
  have hzero : (0 : ℕ) = 0 % m := (Nat.zero_mod m).symm
  rw [BigUint.remU32, hzero, hfold]
  rfl

theorem dvd_toInt (year : BigInt) (m : ℕ) : (m : ℤ) ∣ year.toInt ↔ year.mag.remU32 m = 0 := by
  rw [remU32_eq, ← Nat.dvd_iff_mod_eq_zero, BigInt.toInt]
  split
  · rw [Int.dvd_neg, Int.natCast_dvd_natCast]
  · rw [Int.natCast_dvd_natCast]

/-- The rule looks at the magnitude of the year, which has the divisors of the
year. -/
theorem isLeap_iff (year : BigInt) : isLeap year = true ↔ Day.Leap year.toInt := by
  have h4 := dvd_toInt year 4
  have h100 := dvd_toInt year 100
  have h400 := dvd_toInt year 400
  simp only [Nat.cast_ofNat] at h4 h100 h400
  rw [isLeap, Day.Leap, h4, h100, h400]
  simp

theorem daysInMonth_meaning {month : ℕ} (hm : 1 ≤ month ∧ month ≤ 12) (year : BigInt) :
    daysInMonth year month = Day.monthLength year.toInt month := by
  have hleap := isLeap_iff year
  obtain ⟨hm₁, hm₂⟩ := hm
  rw [daysInMonth, Day.monthLength]
  interval_cases month <;> simp [hleap]

theorem Literal.TwoDigits.not_mem {c : Char} (hc : c.isDigit = false) {s : Chars} {n : ℕ}
    (h : TwoDigits s n) : c ∉ s := by
  obtain ⟨a, b⟩ := h
  exact not_mem_digits hc [a, b]

theorem Literal.TwoDigits.parse {s : Chars} {n : ℕ} (h : TwoDigits s n) : parseFixed s 2 = some n :=
  twoDigits_iff.mp h

theorem Date.parse_sound {s : Chars} {v : TablesOS.Date} (h : TablesOS.Date.parse s = some v) :
    Literal.Date s v.meaning := by
  obtain ⟨sg, hsg, hs⟩ := splitMinus_sound s
  rw [TablesOS.Date.parse] at h
  generalize splitMinus s = r at hsg hs h
  obtain ⟨neg, body⟩ := r
  obtain ⟨⟨front, dd⟩, hbody, h⟩ := Option.bind_eq_some_iff.mp h
  obtain ⟨⟨yy, mm⟩, hfront, h⟩ := Option.bind_eq_some_iff.mp h
  dsimp only at h hs hsg
  split at h
  · cases h
  · obtain ⟨mag, hmag, h⟩ := Option.bind_eq_some_iff.mp h
    obtain ⟨month, hmonth, h⟩ := Option.bind_eq_some_iff.mp h
    obtain ⟨day, hday, h⟩ := Option.bind_eq_some_iff.mp h
    split at h
    · next hm =>
        split at h
        · next hd =>
            cases h
            obtain ⟨ys, hys, hyy, rfl⟩ := BigUint.parse_sound hmag
            obtain ⟨hb, -⟩ := rsplitOnce_eq_some hbody
            obtain ⟨hf, -⟩ := rsplitOnce_eq_some hfront
            have hyear : (BigInt.fromParts neg (BigUint.normalize ys)).toInt =
                signed neg (value ys : ℤ) := by
              rw [toInt_fromParts, toNat_normalize]
            have hvalid : Day.Valid ⟨signed neg (value ys : ℤ), month, day⟩ := by
              rw [daysInMonth_meaning hm, hyear] at hd
              exact ⟨hm.1, hm.2, hd.1, hd.2⟩
            have hdate := Literal.Date.mk hsg hys (twoDigits_iff.mpr hmonth)
              (twoDigits_iff.mpr hday) hvalid
            rw [hs, hb, hf, hyy, TablesOS.Date.meaning, hyear]
            simpa using hdate
        · cases h
    · cases h

theorem Date.parse_complete {s : Chars} {d : Day} (h : Literal.Date s d) :
    ∃ v, TablesOS.Date.parse s = some v ∧ v.meaning = d := by
  obtain @⟨sg, mm, dd, neg, ys, month, day, hsg, hys, hmm, hdd, hday⟩ := h
  have hyear : (BigInt.fromParts neg (BigUint.normalize ys)).toInt =
      signed neg (value ys : ℤ) := by
    rw [toInt_fromParts, toNat_normalize]
  obtain ⟨hm₁, hm₂, hd₁, hd₂⟩ := hday
  have hm : 1 ≤ month ∧ month ≤ 12 := ⟨hm₁, hm₂⟩
  have hd : 1 ≤ day ∧
      day ≤ daysInMonth (BigInt.fromParts neg (BigUint.normalize ys)) month := by
    rw [daysInMonth_meaning hm, hyear]
    exact ⟨hd₁, hd₂⟩
  refine ⟨⟨_, month, day, hm, hd⟩, ?_, ?_⟩
  · have hbody : TablesOS.Unsigned (numeral ys ++ '-' :: mm ++ '-' :: dd) := by
      rw [List.append_assoc]
      exact unsigned_numeral hys _
    have htext : sg ++ numeral ys ++ '-' :: mm ++ '-' :: dd =
        sg ++ (numeral ys ++ '-' :: mm ++ '-' :: dd) := by
      simp
    have hmm_dash : '-' ∉ mm := hmm.not_mem (by decide)
    have hdd_dash : '-' ∉ dd := hdd.not_mem (by decide)
    rw [htext]
    unfold TablesOS.Date.parse
    rw [splitMinus_complete hsg hbody]
    simp only [rsplitOnce_append hdd_dash, rsplitOnce_append hmm_dash, numeral_ne_nil.mpr hys,
      BigUint.parse_numeral hys, hmm.parse, hdd.parse, Option.bind_eq_bind, Option.bind_some,
      Bool.false_eq_true, if_false]
    rw [dif_pos hm, dif_pos hd]
  · rw [TablesOS.Date.meaning, hyear]

/-! ## Times -/

/-- The point and what follows it, when there is one. -/
def afterPoint : Option Chars → Chars
  | none => []
  | some f => '.' :: f

theorem splitFrac_sound (s : Chars) :
    s = (TimeOfDay.splitFrac s).1 ++ afterPoint (TimeOfDay.splitFrac s).2 := by
  unfold TimeOfDay.splitFrac
  split
  · next h => exact (splitOnce_eq_some h).1
  · exact (List.append_nil s).symm

theorem subSecond_sound {f : Option Chars} {frac : List Digit}
    (h : TimeOfDay.parseFrac f = some frac) :
    SubSecond (afterPoint f) (fraction frac) := by
  cases f with
  | none =>
      cases h
      exact .absent
  | some f =>
      rw [TimeOfDay.parseFrac] at h
      split at h
      · cases h
      · next hne =>
          obtain ⟨ds, hds, rfl⟩ := Option.map_eq_some_iff.mp h
          have hf := numeral_of_digits? hds
          rw [fraction_trimFrac, hf]
          rw [hf] at hne
          exact .point (numeral_ne_nil.mp (by simpa using hne))

theorem TimeOfDay.parse_sound {s : Chars} {v : TimeOfDay} (h : TimeOfDay.parse s = some v) :
    Literal.Time s v.meaning := by
  have hs := splitFrac_sound s
  rw [TimeOfDay.parse] at h
  generalize TimeOfDay.splitFrac s = r at hs h
  obtain ⟨hms, f⟩ := r
  dsimp only at h hs
  split at h
  · next hh mm ss hparts =>
      obtain ⟨hour, hhour, h⟩ := Option.bind_eq_some_iff.mp h
      obtain ⟨minute, hminute, h⟩ := Option.bind_eq_some_iff.mp h
      obtain ⟨second, hsecond, h⟩ := Option.bind_eq_some_iff.mp h
      split at h
      · next hr =>
          split at h
          · cases h
          · next frac hfrac =>
              cases h
              have hhms : hms = hh ++ ':' :: mm ++ ':' :: ss := by
                rw [← intercalate_splitAll ':' hms, hparts]
                simp [List.intercalate]
              rw [hs, hhms]
              exact .mk (twoDigits_iff.mpr hhour) (twoDigits_iff.mpr hminute)
                (twoDigits_iff.mpr hsecond) (subSecond_sound hfrac) hr.1 hr.2.1 hr.2.2
      · cases h
  · cases h

theorem subSecond_complete {hms ff : Chars} {q : ℚ} (hpoint : '.' ∉ hms) (h : SubSecond ff q) :
    ∃ f frac, TimeOfDay.splitFrac (hms ++ ff) = (hms, f) ∧ TimeOfDay.parseFrac f = some frac ∧
      fraction frac = q := by
  cases h with
  | absent =>
      refine ⟨none, [], ?_, rfl, rfl⟩
      rw [List.append_nil, TimeOfDay.splitFrac, splitOnce_none hpoint]
  | @point fs hfs =>
      refine ⟨some (numeral fs), trimFrac fs, ?_, ?_, fraction_trimFrac fs⟩
      · rw [TimeOfDay.splitFrac, splitOnce_append hpoint]
      · rw [TimeOfDay.parseFrac, numeral_ne_nil.mpr hfs, digits?_numeral]
        rfl

theorem TimeOfDay.parse_complete {s : Chars} {t : Clock} (h : Literal.Time s t) :
    ∃ v, TimeOfDay.parse s = some v ∧ v.meaning = t := by
  obtain @⟨hh, mm, ss, ff, hour, minute, second, q, hhh, hmm, hss, hff, hh_le, hm_le, hs_le⟩ := h
  have hpoint : '.' ∉ hh ++ ':' :: mm ++ ':' :: ss := by
    have h₁ : '.' ∉ hh := hhh.not_mem (by decide)
    have h₂ : '.' ∉ mm := hmm.not_mem (by decide)
    have h₃ : '.' ∉ ss := hss.not_mem (by decide)
    simp [h₁, h₂, h₃]
  have hparts : splitAll ':' (hh ++ ':' :: mm ++ ':' :: ss) = [hh, mm, ss] := by
    rw [List.append_assoc, List.cons_append, splitAll_append (hhh.not_mem (by decide)),
      splitAll_append (hmm.not_mem (by decide)), splitAll_none (hss.not_mem (by decide))]
  obtain ⟨f, frac, hsplit, hfrac, hq⟩ := subSecond_complete hpoint hff
  have hr : hour ≤ 23 ∧ minute ≤ 59 ∧ second ≤ 59 := ⟨hh_le, hm_le, hs_le⟩
  refine ⟨⟨hour * 3600 + minute * 60 + second, frac, by omega,
    TimeOfDay.getLast?_parseFrac hfrac⟩, ?_, ?_⟩
  · unfold TimeOfDay.parse
    rw [hsplit]
    simp only [hparts, hhh.parse, hmm.parse, hss.parse, Option.bind_eq_bind, Option.bind_some]
    rw [dif_pos hr]
    split
    · next hf =>
        rw [hfrac] at hf
        cases hf
    · next frac' hf =>
        rw [hfrac] at hf
        cases hf
        rfl
  · rw [TimeOfDay.meaning, hq]

/-! ## Zones -/

theorem Offset.parse_sound {s : Chars} {v : Offset} (h : Offset.parse s = some v) :
    Zone s v.minutes := by
  unfold Offset.parse at h
  split at h
  · next hz =>
      cases h
      rw [Bool.or_eq_true, decide_eq_true_eq, decide_eq_true_eq] at hz
      rcases hz with rfl | rfl
      · exact .upper
      · exact .lower
  · dsimp only at h
    split at h
    · cases h
    · next neg body hsigned =>
        obtain ⟨⟨hh, mm⟩, hsplit, h⟩ := Option.bind_eq_some_iff.mp h
        obtain ⟨hour, hhour, h⟩ := Option.bind_eq_some_iff.mp h
        obtain ⟨minute, hminute, h⟩ := Option.bind_eq_some_iff.mp h
        obtain ⟨hbody, -⟩ := splitOnce_eq_some hsplit
        have hhh := twoDigits_iff.mpr hhour
        have hmm := twoDigits_iff.mpr hminute
        split at h
        · next hr =>
            split at hsigned
            · cases hsigned
              cases h
              rw [hbody]
              simpa using Zone.east hhh hmm hr.1 hr.2
            · cases hsigned
              cases h
              rw [hbody]
              simpa using Zone.west hhh hmm hr.1 hr.2
            · cases hsigned
        · cases h

/-- Hours and minutes behind a sign. -/
theorem Offset.parse_signed {hh mm : Chars} {hour minute : ℕ} (hhh : TwoDigits hh hour)
    (hmm : TwoDigits mm minute) (hhour : hour ≤ 23) (hminute : minute ≤ 59) :
    (∃ v, Offset.parse ('+' :: hh ++ ':' :: mm) = some v ∧ v.minutes = hour * 60 + minute) ∧
      ∃ v, Offset.parse ('-' :: hh ++ ':' :: mm) = some v ∧ v.minutes = -(hour * 60 + minute) := by
  have hsplit : splitOnce ':' (hh ++ ':' :: mm) = some (hh, mm) :=
    splitOnce_append (hhh.not_mem (by decide))
  have hr : hour ≤ 23 ∧ minute ≤ 59 := ⟨hhour, hminute⟩
  constructor
  · refine ⟨⟨((hour * 60 + minute : ℕ) : ℤ), by omega, by omega⟩, ?_, by push_cast; rfl⟩
    unfold Offset.parse
    rw [if_neg (by simp)]
    simp only [List.cons_append, hsplit, hhh.parse, hmm.parse, Option.bind_eq_bind,
      Option.bind_some]
    rw [dif_pos hr]
    rfl
  · refine ⟨⟨-((hour * 60 + minute : ℕ) : ℤ), by omega, by omega⟩, ?_, by push_cast; rfl⟩
    unfold Offset.parse
    rw [if_neg (by simp)]
    simp only [List.cons_append, hsplit, hhh.parse, hmm.parse, Option.bind_eq_bind,
      Option.bind_some]
    rw [dif_pos hr]
    rfl

theorem splitTz_sound {s front : Chars} {off : Offset} (h : splitTz s = some (front, off)) :
    ∃ z, s = front ++ z ∧ Zone z off.minutes := by
  rw [splitTz] at h
  split at h
  · next stripped hz =>
      cases h
      rw [stripZulu] at hz
      split at hz
      · next hlast =>
          cases hz
          rw [Bool.or_eq_true, decide_eq_true_eq, decide_eq_true_eq] at hlast
          rcases hlast with hlast | hlast
          · exact ⟨['Z'], (List.dropLast_append_getLast? _ hlast).symm, .upper⟩
          · exact ⟨['z'], (List.dropLast_append_getLast? _ hlast).symm, .lower⟩
      · cases hz
  · split at h
    · split at h
      · next front' tail hcut =>
          split at h
          · obtain ⟨off', hoff, hpair⟩ := Option.map_eq_some_iff.mp h
            cases hpair
            exact ⟨tail, (splitAtByte_eq_some hcut).1, Offset.parse_sound hoff⟩
          · cases h
      · cases h
    · cases h

theorem splitTz_complete {z : Chars} {off : ℤ} (h : Zone z off) (front : Chars) :
    ∃ v : Offset, splitTz (front ++ z) = some (front, v) ∧ v.minutes = off := by
  cases h with
  | upper =>
      refine ⟨⟨0, by decide, by decide⟩, ?_, rfl⟩
      simp [splitTz, stripZulu]
  | lower =>
      refine ⟨⟨0, by decide, by decide⟩, ?_, rfl⟩
      simp [splitTz, stripZulu]
  | east hhh hmm hh_le hm_le =>
      obtain ⟨⟨v, hv, hmin⟩, -⟩ := Offset.parse_signed hhh hmm hh_le hm_le
      obtain ⟨a, b⟩ := hhh
      obtain ⟨c, d⟩ := hmm
      exact ⟨v, splitTz_append front (Or.inr rfl) a b c d hv, hmin⟩
  | west hhh hmm hh_le hm_le =>
      obtain ⟨-, v, hv, hmin⟩ := Offset.parse_signed hhh hmm hh_le hm_le
      obtain ⟨a, b⟩ := hhh
      obtain ⟨c, d⟩ := hmm
      exact ⟨v, splitTz_append front (Or.inl rfl) a b c d hv, hmin⟩

/-! ## Date and time -/

theorem Literal.Date.not_mem {c : Char} (hc : c.isDigit = false) (hdash : c ≠ '-') {s : Chars}
    {d : Day} (h : Literal.Date s d) : c ∉ s := by
  obtain @⟨sg, mm, dd, neg, ys, month, day, hsg, hys, hmm, hdd, hday⟩ := h
  have hsign : c ∉ sg := by
    cases hsg <;> simp [hdash]
  have hyear : c ∉ numeral ys := not_mem_digits hc ys
  simp [hsign, hyear, hdash, hmm.not_mem hc, hdd.not_mem hc]

theorem Literal.Time.not_mem {c : Char} (hc : c.isDigit = false) (hcolon : c ≠ ':')
    (hpoint : c ≠ '.') {s : Chars} {t : Clock} (h : Literal.Time s t) : c ∉ s := by
  obtain @⟨hh, mm, ss, ff, hour, minute, second, q, hhh, hmm, hss, hff, -, -, -⟩ := h
  have hfrac : c ∉ ff := by
    cases hff with
    | absent => exact List.not_mem_nil
    | @point fs hfs =>
        have hfs : c ∉ numeral fs := not_mem_digits hc fs
        simp [hpoint, hfs]
  simp [hcolon, hfrac, hhh.not_mem hc, hmm.not_mem hc, hss.not_mem hc]

theorem splitDt_sound {s d t : Chars} (h : splitDt s = some (d, t)) :
    ∃ c, Separator c ∧ s = d ++ c :: t := by
  rw [splitDt, Option.or_eq_some_iff] at h
  rcases h with h | ⟨-, h⟩
  · exact ⟨'T', .letter, (splitOnce_eq_some h).1⟩
  · exact ⟨' ', .space, (splitOnce_eq_some h).1⟩

theorem splitDt_complete {c : Char} {d t : Chars} {day : Day} {clock : Clock} (hc : Separator c)
    (hd : Literal.Date d day) (ht : Literal.Time t clock) :
    splitDt (d ++ c :: t) = some (d, t) := by
  have hdT : 'T' ∉ d := hd.not_mem (by decide) (by decide)
  have htT : 'T' ∉ t := ht.not_mem (by decide) (by decide) (by decide)
  have hdspace : ' ' ∉ d := hd.not_mem (by decide) (by decide)
  rw [splitDt]
  cases hc with
  | letter =>
      rw [splitOnce_append hdT]
      rfl
  | space =>
      rw [splitOnce_none (by simp [hdT, htT]), splitOnce_append hdspace]
      rfl

theorem dateTime_sound {s d t : Chars} {dv : TablesOS.Date} {tv : TimeOfDay}
    (hs : splitDt s = some (d, t)) (hd : TablesOS.Date.parse d = some dv)
    (ht : TimeOfDay.parse t = some tv) : DateTime s dv.meaning tv.meaning := by
  obtain ⟨c, hc, rfl⟩ := splitDt_sound hs
  exact .mk (Date.parse_sound hd) hc (TimeOfDay.parse_sound ht)

theorem dateTime_complete {s : Chars} {day : Day} {clock : Clock} (h : DateTime s day clock) :
    ∃ d t dv tv, splitDt s = some (d, t) ∧ TablesOS.Date.parse d = some dv ∧
      TimeOfDay.parse t = some tv ∧ dv.meaning = day ∧ tv.meaning = clock := by
  obtain ⟨hd, hc, ht⟩ := h
  obtain ⟨dv, hdv, hday⟩ := Date.parse_complete hd
  obtain ⟨tv, htv, hclock⟩ := TimeOfDay.parse_complete ht
  exact ⟨_, _, dv, tv, splitDt_complete hc hd ht, hdv, htv, hday, hclock⟩

/-! ## Values -/

theorem Value.parse?_sound {ty : Ty} {s : Chars} {v : Value} (h : parse? ty s = some v) :
    Denotes ty s v.meaning := by
  cases ty with
  | integer =>
      obtain ⟨a, ha, rfl⟩ := Option.map_eq_some_iff.mp h
      exact .integer (BigInt.parse_sound ha)
  | unsignedInteger =>
      obtain ⟨a, ha, rfl⟩ := Option.map_eq_some_iff.mp h
      exact .unsigned (BigUint.parse_meaning ha)
  | decimal =>
      obtain ⟨a, ha, rfl⟩ := Option.map_eq_some_iff.mp h
      exact .decimal (Decimal.parse_sound ha)
  | string =>
      cases h
      have htext := Denotes.string (String.ofList s)
      rwa [String.toList_ofList] at htext
  | date =>
      obtain ⟨a, ha, rfl⟩ := Option.map_eq_some_iff.mp h
      exact .date (Date.parse_sound ha)
  | dateTz =>
      obtain ⟨⟨d, off⟩, hz, h⟩ := Option.bind_eq_some_iff.mp h
      obtain ⟨dv, hd, h⟩ := Option.bind_eq_some_iff.mp h
      cases h
      obtain ⟨z, rfl, hzone⟩ := splitTz_sound hz
      exact .dateTz (Date.parse_sound hd) hzone
  | time =>
      obtain ⟨a, ha, rfl⟩ := Option.map_eq_some_iff.mp h
      exact .time (TimeOfDay.parse_sound ha)
  | dateTime =>
      obtain ⟨⟨d, t⟩, hs, h⟩ := Option.bind_eq_some_iff.mp h
      obtain ⟨dv, hd, h⟩ := Option.bind_eq_some_iff.mp h
      obtain ⟨tv, ht, h⟩ := Option.bind_eq_some_iff.mp h
      cases h
      exact .dateTime (dateTime_sound hs hd ht)
  | dateTimeTz =>
      obtain ⟨⟨dt, off⟩, hz, h⟩ := Option.bind_eq_some_iff.mp h
      obtain ⟨⟨d, t⟩, hs, h⟩ := Option.bind_eq_some_iff.mp h
      obtain ⟨dv, hd, h⟩ := Option.bind_eq_some_iff.mp h
      obtain ⟨tv, ht, h⟩ := Option.bind_eq_some_iff.mp h
      cases h
      obtain ⟨z, rfl, hzone⟩ := splitTz_sound hz
      exact .dateTimeTz (dateTime_sound hs hd ht) hzone

theorem Value.parse?_complete {ty : Ty} {s : Chars} {m : Meaning} (h : Denotes ty s m) :
    ∃ v, parse? ty s = some v ∧ v.meaning = m := by
  cases h with
  | integer h =>
      obtain ⟨a, ha, rfl⟩ := BigInt.parse_complete h
      exact ⟨.integer a, by rw [parse?, ha]; rfl, rfl⟩
  | unsigned h =>
      obtain ⟨a, ha, rfl⟩ := BigUint.parse_complete h
      exact ⟨.unsigned a, by rw [parse?, ha]; rfl, rfl⟩
  | decimal h =>
      obtain ⟨a, ha, rfl⟩ := Decimal.parse_complete h
      exact ⟨.decimal a, by rw [parse?, ha]; rfl, rfl⟩
  | string s => exact ⟨.str s, by rw [parse?, String.ofList_toList], rfl⟩
  | date h =>
      obtain ⟨a, ha, rfl⟩ := Date.parse_complete h
      exact ⟨.date a, by rw [parse?, ha]; rfl, rfl⟩
  | @dateTz front z _ _ h hz =>
      obtain ⟨a, ha, rfl⟩ := Date.parse_complete h
      obtain ⟨off, hoff, rfl⟩ := splitTz_complete hz front
      exact ⟨.dateTz a off, by simp [parse?, hoff, ha], rfl⟩
  | time h =>
      obtain ⟨a, ha, rfl⟩ := TimeOfDay.parse_complete h
      exact ⟨.time a, by rw [parse?, ha]; rfl, rfl⟩
  | dateTime h =>
      obtain ⟨d, t, dv, tv, hs, hd, ht, rfl, rfl⟩ := dateTime_complete h
      exact ⟨.dateTime dv tv, by simp [parse?, hs, hd, ht], rfl⟩
  | @dateTimeTz front z _ _ _ h hz =>
      obtain ⟨d, t, dv, tv, hs, hd, ht, rfl, rfl⟩ := dateTime_complete h
      obtain ⟨off, hoff, rfl⟩ := splitTz_complete hz front
      exact ⟨.dateTimeTz dv tv off, by simp [parse?, hoff, hs, hd, ht], rfl⟩

theorem Bytewise.parse_eq_ok {ty : Ty} {s : String} {v : Value} :
    Bytewise.parse ty s = .ok v ↔ Value.parse? ty s.toList = some v := by
  rw [Bytewise.parse_eq, Outcome.ofExcept_eq_ok, Value.parse]
  cases Value.parse? ty s.toList <;> simp

/-- Any text is parsed without a panic. It is a value of the type exactly when
it is in the type's language, and then the one it denotes. -/
theorem Value.parses_language (ty : Ty) (s : String) :
    (Bytewise.parse ty s).returned ∧
      ((∃ v, Bytewise.parse ty s = .ok v) ↔ ∃ m, Denotes ty s.toList m) ∧
      ∀ m, Denotes ty s.toList m ↔ ∃ v, Bytewise.parse ty s = .ok v ∧ v.meaning = m := by
  have hmeaning : ∀ m, Denotes ty s.toList m ↔
      ∃ v, Bytewise.parse ty s = .ok v ∧ v.meaning = m := by
    intro m
    constructor
    · intro h
      obtain ⟨v, hv, hm⟩ := Value.parse?_complete h
      exact ⟨v, Bytewise.parse_eq_ok.mpr hv, hm⟩
    · intro ⟨v, hv, hm⟩
      rw [← hm]
      exact Value.parse?_sound (Bytewise.parse_eq_ok.mp hv)
  refine ⟨?_, ⟨?_, ?_⟩, hmeaning⟩
  · rw [Bytewise.parse_eq]
    cases Value.parse ty s <;> trivial
  · intro ⟨v, hv⟩
    exact ⟨v.meaning, (hmeaning _).mpr ⟨v, hv, rfl⟩⟩
  · intro ⟨m, h⟩
    obtain ⟨v, hv, -⟩ := (hmeaning m).mp h
    exact ⟨v, hv⟩

end TablesOS
