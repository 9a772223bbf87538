import TablesOS.Engine.Value
import Mathlib.Tactic.IntervalCases

/-!
# What is displayed parses back

Values are stored as their display text, so every read of the store parses
what a write printed. The nine types are built from three kinds of text: runs
of digits, two-digit fields and separators. A parser finds its way by the
separators, and each lemma below is a statement of where the separators are
not: no digit is a dash, a point or a colon, so the first point ends the
integer part, the last dash starts the day, and so on. The rest is canonical
form, which the structures carry: leading zeros go and come back as padding,
trailing zeros were never there, and a sign is only ever printed in front of a
number that is not zero.
-/

namespace TablesOS

/-! ## Digits -/

theorem digit?_digitChar (d : Digit) : digit? (digitChar d) = some d := by
  revert d
  decide

theorem isDigit_digitChar (d : Digit) : (digitChar d).isDigit = true := by
  revert d
  decide

theorem digits?_map (ds : List Digit) : digits? (ds.map digitChar) = some ds := by
  induction ds with
  | nil => rfl
  | cons d ds ih =>
      rw [digits?] at ih
      simp [digits?, List.mapM_cons, digit?_digitChar, ih]

theorem digits?_append {a b : Chars} {da db : List Digit}
    (ha : digits? a = some da) (hb : digits? b = some db) :
    digits? (a ++ b) = some (da ++ db) := by
  rw [digits?] at ha hb ⊢
  simp [List.mapM_append, ha, hb]

/-- A separator is not among digits. -/
theorem not_mem_digits {c : Char} (hc : c.isDigit = false) (ds : List Digit) :
    c ∉ ds.map digitChar := by
  intro h
  obtain ⟨d, _, rfl⟩ := List.mem_map.mp h
  rw [isDigit_digitChar] at hc
  cases hc

theorem push2_eq {v : Nat} (hv : v < 100) :
    push2 v = [digitChar (Fin.ofNat 10 (v / 10)), digitChar (Fin.ofNat 10 v)] := by
  have h1 : v / 10 % 10 = v / 10 := Nat.mod_eq_of_lt (by omega)
  simp [push2, digitChar, h1]

theorem not_mem_push2 {c : Char} (hc : c.isDigit = false) {v : Nat}
    (hv : v < 100) : c ∉ push2 v := by
  have h := not_mem_digits hc [Fin.ofNat 10 (v / 10), Fin.ofNat 10 v]
  rw [push2_eq hv]
  simpa using h

theorem parseFixed_push2 {v : Nat} (hv : v < 100) :
    parseFixed (push2 v) 2 = some v := by
  have hall : ∀ w : Fin 100, parseFixed (push2 w.val) 2 = some w.val := by
    decide
  exact hall ⟨v, hv⟩

/-! ## Numbers -/

namespace BigUint

theorem normalize_digits (v : BigUint) : normalize v.digits = v := by
  obtain ⟨ds, hc⟩ := v
  cases ds with
  | nil => rfl
  | cons d ds =>
      have hd : d ≠ 0 := by simpa using hc
      simp [normalize, hd]

theorem digits?_toDecString (v : BigUint) :
    digits? v.toDecString = some (if v.isZero then [0] else v.digits) := by
  unfold toDecString
  split
  · rfl
  · exact digits?_map v.digits

theorem toDecString_ne_nil (v : BigUint) : v.toDecString ≠ [] := by
  unfold toDecString
  split
  · simp
  · next h =>
      rw [isZero, List.isEmpty_iff] at h
      simp [h]

theorem toDecString_eq (v : BigUint) :
    ∃ ds : List Digit, v.toDecString = ds.map digitChar := by
  unfold toDecString
  split
  · exact ⟨[0], rfl⟩
  · exact ⟨v.digits, rfl⟩

theorem normalize_replicate (k : Nat) (ds : List Digit) :
    normalize (List.replicate k 0 ++ ds) = normalize ds := by
  simp [normalize]

/-- Leading zeros, as `Date::display` pads with, do not change the number. -/
theorem parse_pad (v : BigUint) (k : Nat) :
    parse (List.replicate k '0' ++ v.toDecString) = some v := by
  have hz : digits? (List.replicate k '0') = some (List.replicate k 0) := by
    have h := digits?_map (List.replicate k 0)
    rwa [List.map_replicate] at h
  have hne : (List.replicate k '0' ++ v.toDecString).isEmpty = false := by
    simp [toDecString_ne_nil]
  rw [parse, hne, digits?_append hz (digits?_toDecString v)]
  simp only [Bool.false_eq_true, if_false, Option.map_some, normalize_replicate]
  split
  · next h =>
      rw [isZero, List.isEmpty_iff] at h
      obtain ⟨ds, hc⟩ := v
      cases h
      rfl
  · rw [normalize_digits]

theorem parse_toDecString (v : BigUint) : parse v.toDecString = some v :=
  parse_pad v 0

theorem not_mem_toDecString {c : Char} (hc : c.isDigit = false) (v : BigUint) :
    c ∉ v.toDecString := by
  obtain ⟨ds, h⟩ := v.toDecString_eq
  rw [h]
  exact not_mem_digits hc ds

end BigUint

theorem digitChar_ne {c : Char} (hc : c.isDigit = false) (d : Digit) :
    digitChar d ≠ c := by
  rintro rfl
  rw [isDigit_digitChar] at hc
  cases hc

/-- Text that starts with a digit has no sign in front. -/
def Unsigned (s : Chars) : Prop := ∃ c cs, s = c :: cs ∧ c ≠ '-' ∧ c ≠ '+'

theorem unsigned_digits {ds : List Digit} (h : ds ≠ []) (rest : Chars) :
    Unsigned (ds.map digitChar ++ rest) := by
  cases ds with
  | nil => exact absurd rfl h
  | cons d ds =>
      exact ⟨digitChar d, ds.map digitChar ++ rest, rfl,
        digitChar_ne (by decide) d, digitChar_ne (by decide) d⟩

theorem BigUint.unsigned_toDecString (v : BigUint) (rest : Chars) :
    Unsigned (v.toDecString ++ rest) := by
  obtain ⟨ds, h⟩ := v.toDecString_eq
  rw [h]
  refine unsigned_digits (fun hnil => ?_) rest
  rw [hnil] at h
  exact v.toDecString_ne_nil h

/-- The sign a parser splits off: a leading `-`, a leading `+` or none. -/
theorem sign_split {neg : Bool} {body : Chars} (h : Unsigned body) :
    splitSign ((if neg then ['-'] else []) ++ body) = (neg, body) := by
  obtain ⟨c, cs, rfl, h1, h2⟩ := h
  cases neg with
  | true => rfl
  | false =>
      simp only [Bool.false_eq_true, if_false, List.nil_append]
      unfold splitSign
      split
      · next heq => cases heq; exact absurd rfl h1
      · next heq => cases heq; exact absurd rfl h2
      · rfl

theorem BigInt.fromParts_self (v : BigInt) : fromParts v.negative v.mag = v := by
  obtain ⟨neg, mag, h⟩ := v
  cases neg with
  | false => simp [fromParts]
  | true => simp [fromParts, h rfl]

theorem BigInt.parse_toDecString (v : BigInt) : parse v.toDecString = some v := by
  have hu : Unsigned v.mag.toDecString := by
    simpa using v.mag.unsigned_toDecString []
  unfold parse toDecString
  rw [sign_split hu]
  simp only [BigUint.parse_toDecString, Option.map_some, fromParts_self]

/-! ## Decimals -/

theorem trimFrac_of_canonical {frac : List Digit} (h : frac.getLast? ≠ some 0) :
    trimFrac frac = frac := by
  rw [trimFrac, List.rdropWhile_eq_self_iff]
  intro hne
  have hl := List.getLast?_eq_some_getLast hne
  rw [hl] at h
  simpa using h

theorem Decimal.canonical_self (v : Decimal) :
    canonical v.negative v.int v.frac = v := by
  obtain ⟨neg, int, frac, ht, hz⟩ := v
  have htr := trimFrac_of_canonical ht
  cases neg with
  | false => simp [canonical, htr]
  | true =>
      have h := hz rfl
      simp only [canonical, htr, h]
      rfl

theorem Decimal.parse_display (v : Decimal) : parse v.display = some v := by
  have hu := v.int.unsigned_toDecString
    (if v.frac.isEmpty then [] else '.' :: v.frac.map digitChar)
  have hne : (v.int.toDecString ++ (if v.frac.isEmpty then []
      else '.' :: v.frac.map digitChar)).isEmpty = false := by
    simp [BigUint.toDecString_ne_nil]
  have hie : v.int.toDecString.isEmpty = false := by
    simp [BigUint.toDecString_ne_nil]
  have hdot : '.' ∉ v.int.toDecString :=
    BigUint.not_mem_toDecString (by decide) v.int
  unfold parse display
  rw [List.append_assoc, sign_split hu]
  simp only [hne, Bool.false_eq_true, if_false]
  by_cases hf : v.frac.isEmpty = true
  · rw [if_pos hf, List.append_nil, splitOnce_none hdot]
    have hnil : v.frac = [] := List.isEmpty_iff.mp hf
    have hself := canonical_self v
    rw [hnil] at hself
    simp [hie, BigUint.parse_toDecString, digits?, hself]
  · rw [if_neg hf, splitOnce_append hdot]
    simp [hie, BigUint.parse_toDecString, digits?_map, canonical_self]

/-! ## Dates, times and offsets -/

theorem splitDash_display {front : Chars} {v : Nat} (hv : v < 100) :
    rsplitOnce '-' (front ++ '-' :: push2 v) = some (front, push2 v) :=
  rsplitOnce_append (not_mem_push2 (by decide) hv)

theorem daysInMonth_le (year : BigInt) (month : Nat) :
    daysInMonth year month ≤ 31 := by
  unfold daysInMonth
  split
  · omega
  · split
    · omega
    · split
      · split <;> omega
      · omega

theorem unsigned_pad (v : BigUint) (k : Nat) (rest : Chars) :
    Unsigned (List.replicate k '0' ++ v.toDecString ++ rest) := by
  obtain ⟨ds, h⟩ := v.toDecString_eq
  have hz : List.replicate k '0' = (List.replicate k 0).map digitChar := by
    rw [List.map_replicate]
    rfl
  rw [hz, h, ← List.map_append]
  refine unsigned_digits (fun hnil => ?_) rest
  rw [(List.append_eq_nil_iff.mp hnil).2] at h
  exact v.toDecString_ne_nil h

/-- The text of a date, with `k` zeros in front of the digits of its year. -/
def Date.text (k : Nat) (v : Date) : Chars :=
  (if v.year.negative then ['-'] else []) ++ (List.replicate k '0' ++ v.year.mag.toDecString ++
    '-' :: push2 v.month ++ '-' :: push2 v.day)

theorem Date.display_eq (v : Date) :
    v.display = v.text (4 - v.year.mag.toDecString.length) := by
  simp [display, text]

/-- The sign of a date is only a minus. -/
theorem minus_split {neg : Bool} {body : Chars} (h : Unsigned body) :
    splitMinus ((if neg then ['-'] else []) ++ body) = (neg, body) := by
  obtain ⟨c, cs, rfl, h1, _⟩ := h
  cases neg with
  | true => rfl
  | false =>
      simp only [Bool.false_eq_true, if_false, List.nil_append]
      unfold splitMinus
      split
      · next heq => cases heq; exact absurd rfl h1
      · rfl

theorem Date.parse_text (v : Date) (k : Nat) : parse (v.text k) = some v := by
  obtain ⟨hm1, hm2⟩ := v.month_ok
  obtain ⟨hd1, hd2⟩ := v.day_ok
  have hday : v.day < 100 := by
    have := daysInMonth_le v.year v.month
    omega
  have hu : Unsigned (List.replicate k '0' ++ v.year.mag.toDecString ++
      '-' :: push2 v.month ++ '-' :: push2 v.day) := by
    rw [List.append_assoc]
    exact unsigned_pad v.year.mag k _
  have hne : (List.replicate k '0' ++ v.year.mag.toDecString).isEmpty = false := by
    simp [BigUint.toDecString_ne_nil]
  have hy := BigUint.parse_pad v.year.mag k
  rw [text]
  unfold parse
  rw [minus_split hu]
  simp only [splitDash_display hday, splitDash_display (show v.month < 100 by omega),
    hne, hy, parseFixed_push2 hday, parseFixed_push2 (show v.month < 100 by omega),
    BigInt.fromParts_self, Option.bind_eq_bind, Option.bind_some,
    Bool.false_eq_true, if_false]
  rw [dif_pos ⟨hm1, hm2⟩, dif_pos ⟨hd1, hd2⟩]

theorem Date.parse_display (v : Date) : parse v.display = some v := by
  rw [display_eq, parse_text]

theorem TimeOfDay.parseFrac_display {frac : List Digit} (ht : frac.getLast? ≠ some 0) :
    parseFrac (if frac.isEmpty then none else some (frac.map digitChar)) =
      some frac := by
  by_cases hf : frac.isEmpty = true
  · rw [if_pos hf, List.isEmpty_iff.mp hf]
    rfl
  · rw [if_neg hf, parseFrac, if_neg (by simpa using hf), digits?_map,
      Option.map_some, trimFrac_of_canonical ht]

theorem TimeOfDay.splitFrac_display {hms : Chars} (hp : '.' ∉ hms)
    (frac : List Digit) :
    splitFrac (hms ++ (if frac.isEmpty then [] else '.' :: frac.map digitChar)) =
      (hms, if frac.isEmpty then none else some (frac.map digitChar)) := by
  unfold splitFrac
  by_cases hf : frac.isEmpty = true
  · rw [if_pos hf, if_pos hf, List.append_nil, splitOnce_none hp]
  · rw [if_neg hf, if_neg hf, splitOnce_append hp]

theorem splitAll_hms {a b c : Nat} (ha : a < 100) (hb : b < 100) (hc : c < 100) :
    splitAll ':' (push2 a ++ ':' :: push2 b ++ ':' :: push2 c) =
      [push2 a, push2 b, push2 c] := by
  rw [List.append_assoc, List.cons_append, splitAll_append (not_mem_push2 (by decide) ha),
    splitAll_append (not_mem_push2 (by decide) hb),
    splitAll_none (not_mem_push2 (by decide) hc)]

theorem TimeOfDay.parse_display (v : TimeOfDay) : parse v.display = some v := by
  have hlt := v.secs_lt
  have hh : v.secs / 3600 < 100 := by omega
  have hm : v.secs % 3600 / 60 < 100 := by omega
  have hs : v.secs % 60 < 100 := by omega
  have hpoint : '.' ∉ push2 (v.secs / 3600) ++ ':' :: push2 (v.secs % 3600 / 60) ++
      ':' :: push2 (v.secs % 60) := by
    have hp : ('.' : Char).isDigit = false := by decide
    simp [not_mem_push2 hp hh, not_mem_push2 hp hm, not_mem_push2 hp hs]
  unfold parse display
  rw [splitFrac_display hpoint]
  simp only [splitAll_hms hh hm hs, parseFixed_push2 hh, parseFixed_push2 hm,
    parseFixed_push2 hs, Option.bind_eq_bind, Option.bind_some]
  rw [dif_pos (by omega)]
  have hfrac := parseFrac_display v.noTrailing
  split
  · next hnone => rw [hfrac] at hnone; cases hnone
  · next frac hsome =>
      rw [hfrac, Option.some.injEq] at hsome
      obtain ⟨secs, _, _, _⟩ := v
      subst hsome
      congr 1
      simp only [TimeOfDay.mk.injEq, and_true]
      simp only at hlt
      omega

theorem Offset.display_eq (off : Offset) : ∃ a b c d : Digit,
    off.display = [if off.minutes < 0 then '-' else '+', digitChar a, digitChar b,
      ':', digitChar c, digitChar d] := by
  have h1 := off.lower
  have h2 := off.upper
  have hh : off.minutes.natAbs / 60 < 100 := by omega
  have hm : off.minutes.natAbs % 60 < 100 := by omega
  refine ⟨Fin.ofNat 10 (off.minutes.natAbs / 60 / 10),
    Fin.ofNat 10 (off.minutes.natAbs / 60),
    Fin.ofNat 10 (off.minutes.natAbs % 60 / 10),
    Fin.ofNat 10 (off.minutes.natAbs % 60), ?_⟩
  rw [display, push2_eq hh, push2_eq hm]
  rfl

theorem Offset.parse_display (off : Offset) : parse off.display = some off := by
  have h1 := off.lower
  have h2 := off.upper
  have hh : off.minutes.natAbs / 60 < 100 := by omega
  have hm : off.minutes.natAbs % 60 < 100 := by omega
  have hsplit : splitOnce ':' (push2 (off.minutes.natAbs / 60) ++
      ':' :: push2 (off.minutes.natAbs % 60)) =
      some (push2 (off.minutes.natAbs / 60), push2 (off.minutes.natAbs % 60)) :=
    splitOnce_append (not_mem_push2 (by decide) hh)
  obtain ⟨minutes, _, _⟩ := off
  simp only at h1 h2 hh hm hsplit
  unfold parse display
  by_cases hneg : minutes < 0
  · have hval : -((minutes.natAbs / 60 * 60 + minutes.natAbs % 60 : Nat) : Int) =
        minutes := by omega
    simp only [hneg, if_true, List.cons_append, hsplit, parseFixed_push2 hh,
      parseFixed_push2 hm, Option.bind_eq_bind, Option.bind_some, hval]
    rw [if_neg (by simp [push2]), dif_pos (by omega)]
  · have hval : ((minutes.natAbs / 60 * 60 + minutes.natAbs % 60 : Nat) : Int) =
        minutes := by omega
    simp only [hneg, if_false, List.cons_append, hsplit, parseFixed_push2 hh,
      parseFixed_push2 hm, Option.bind_eq_bind, Option.bind_some, hval,
      Bool.false_eq_true]
    rw [if_neg (by simp [push2]), dif_pos (by omega)]

theorem utf8EncodeChar_digitChar (d : Digit) :
    String.utf8EncodeChar (digitChar d) = [UInt8.ofNat (48 + d.val)] := by
  revert d
  decide

theorem utf8Size_digitChar (d : Digit) : (digitChar d).utf8Size = 1 := by
  revert d
  decide

theorem utf8Bytes_colon {sign : Char} (hs : sign = '-' ∨ sign = '+')
    (a b c d : Digit) :
    (utf8Bytes [sign, digitChar a, digitChar b, ':', digitChar c,
      digitChar d])[3]? = some 58 := by
  have hsign : ∃ x, String.utf8EncodeChar sign = [x] := by
    rcases hs with rfl | rfl
    · exact ⟨45, by decide⟩
    · exact ⟨43, by decide⟩
  obtain ⟨x, hx⟩ := hsign
  have hcolon : String.utf8EncodeChar ':' = [58] := by decide
  simp [utf8Bytes, hx, hcolon, utf8EncodeChar_digitChar]

/-- A sign, two digits, a colon and two digits come off the end as the offset
they are. -/
theorem splitTz_append (front : Chars) {sign : Char} (hs : sign = '-' ∨ sign = '+')
    (a b c d : Digit) {off : Offset}
    (hoff : Offset.parse [sign, digitChar a, digitChar b, ':', digitChar c, digitChar d] =
      some off) :
    splitTz (front ++ [sign, digitChar a, digitChar b, ':', digitChar c, digitChar d]) =
      some (front, off) := by
  have hlast : (front ++ [sign, digitChar a, digitChar b, ':', digitChar c,
      digitChar d]).getLast? = some (digitChar d) := by
    simp
  have hz : stripZulu (front ++ [sign, digitChar a, digitChar b, ':', digitChar c,
      digitChar d]) = none := by
    rw [stripZulu, hlast, if_neg]
    simp [digitChar_ne (show ('Z' : Char).isDigit = false by decide),
      digitChar_ne (show ('z' : Char).isDigit = false by decide)]
  have hsize : sign.utf8Size = 1 := by
    rcases hs with rfl | rfl <;> decide
  have hcolon : (':' : Char).utf8Size = 1 := by decide
  have hlen : utf8Len [sign, digitChar a, digitChar b, ':', digitChar c, digitChar d] = 6 := by
    simp [utf8Size_digitChar, hsize, hcolon]
  have hcut := splitAtByte_append front
    [sign, digitChar a, digitChar b, ':', digitChar c, digitChar d]
  have hhead : (decide (sign = '+') || decide (sign = '-')) = true := by
    rcases hs with rfl | rfl <;> rfl
  unfold splitTz
  rw [hz, utf8Len_append, hlen, Nat.add_sub_cancel]
  simp only [hcut, utf8Bytes_colon hs, hoff]
  simp [hhead]

/-- The offset comes off the end of what `display` appended it to. -/
theorem splitTz_display (front : Chars) (off : Offset) :
    splitTz (front ++ off.display) = some (front, off) := by
  obtain ⟨a, b, c, d, hd⟩ := off.display_eq
  have hsign : (if off.minutes < 0 then '-' else '+') = '-' ∨
      (if off.minutes < 0 then '-' else '+') = '+' := by
    split
    · exact Or.inl rfl
    · exact Or.inr rfl
  have hparse := off.parse_display
  rw [hd] at hparse ⊢
  exact splitTz_append front hsign a b c d hparse

theorem Date.not_mem_text {c : Char} (hc : c.isDigit = false) (hd : c ≠ '-')
    (v : Date) (k : Nat) : c ∉ v.text k := by
  obtain ⟨hm1, hm2⟩ := v.month_ok
  have hday : v.day < 100 := by
    have h1 := daysInMonth_le v.year v.month
    have h2 := v.day_ok.2
    omega
  have hz : c ≠ '0' := fun h => by rw [h] at hc; cases hc
  have hsign : c ∉ (if v.year.negative then ['-'] else []) := by
    split <;> simp [hd]
  have hm := not_mem_push2 hc (show v.month < 100 by omega)
  have hyear := BigUint.not_mem_toDecString hc v.year.mag
  simp [text, hd, hsign, hm, hyear, not_mem_push2 hc hday, hz]

theorem splitDt_text (d : Date) (k : Nat) (rest : Chars) :
    splitDt (d.text k ++ 'T' :: rest) = some (d.text k, rest) := by
  rw [splitDt, splitOnce_append (d.not_mem_text (by decide) (by decide) k)]
  rfl

theorem splitDt_display (d : Date) (rest : Chars) :
    splitDt (d.display ++ 'T' :: rest) = some (d.display, rest) := by
  rw [d.display_eq, splitDt_text]

/-! ## Values -/

theorem Value.parse?_displayChars (v : Value) :
    parse? v.typeOf v.displayChars = some v := by
  cases v with
  | integer v => simp [parse?, typeOf, displayChars, BigInt.parse_toDecString]
  | unsigned v => simp [parse?, typeOf, displayChars, BigUint.parse_toDecString]
  | decimal v => simp [parse?, typeOf, displayChars, Decimal.parse_display]
  | str s => simp [parse?, typeOf, displayChars]
  | date d => simp [parse?, typeOf, displayChars, Date.parse_display]
  | dateTz d off =>
      simp [parse?, typeOf, displayChars, splitTz_display, Date.parse_display]
  | time t => simp [parse?, typeOf, displayChars, TimeOfDay.parse_display]
  | dateTime d t =>
      simp [parse?, typeOf, displayChars, splitDt_display, Date.parse_display,
        TimeOfDay.parse_display]
  | dateTimeTz d t off =>
      simp only [parse?, typeOf, displayChars, splitTz_display, Option.bind_eq_bind,
        Option.bind_some, splitDt_display, Date.parse_display,
        TimeOfDay.parse_display]

/-- The display text of a value parses back to it under its own type. -/
theorem Value.parse_display (v : Value) : parse v.typeOf v.display = .ok v := by
  rw [parse, display, String.toList_ofList, parse?_displayChars]

theorem Value.typeOf_of_parse? {ty : Ty} {input : Chars} {v : Value}
    (h : parse? ty input = some v) : v.typeOf = ty := by
  cases ty <;> simp only [parse?, Option.bind_eq_bind, Option.bind_eq_some_iff,
    Option.map_eq_some_iff, Option.some.injEq] at h <;> grind [typeOf]

/-- What `parse` accepts has the type it was asked for. -/
theorem Value.typeOf_of_parse {ty : Ty} {input : String} {v : Value}
    (h : parse ty input = .ok v) : v.typeOf = ty := by
  rw [parse] at h
  split at h
  · next heq => cases h; exact typeOf_of_parse? heq
  · cases h

end TablesOS
