import TablesOS.Spec.Meaning

/-!
# The language of each type

Which texts are values of a type, and what each says. Written as a grammar:
runs of ASCII digits, signs, the separators, and for dates the calendar. No
position is counted and nothing is searched for.
-/

namespace TablesOS

namespace Literal

/-- The text of a run of digits. -/
def numeral (ds : List Digit) : Chars := ds.map digitChar

/-- `[+-]?`, and whether it negates. -/
inductive Sign : Chars → Bool → Prop
  | absent : Sign [] false
  | plus : Sign ['+'] false
  | minus : Sign ['-'] true

/-- The sign of a year. -/
inductive Minus : Chars → Bool → Prop
  | absent : Minus [] false
  | minus : Minus ['-'] true

/-- The number with this sign and magnitude. -/
def signed {α : Type} [Neg α] (negative : Bool) (magnitude : α) : α :=
  if negative then -magnitude else magnitude

/-- `[+-]?digits` -/
inductive Integer : Chars → ℤ → Prop
  | mk {sg : Chars} {negative : Bool} {ds : List Digit} (hsg : Sign sg negative) (hds : ds ≠ []) :
      Integer (sg ++ numeral ds) (signed negative (Numeral.value ds : ℤ))

/-- `digits` -/
inductive Unsigned : Chars → ℕ → Prop
  | mk {ds : List Digit} (hds : ds ≠ []) : Unsigned (numeral ds) (Numeral.value ds)

/-- `digits(.digits*)?|.digits` -/
inductive Magnitude : Chars → ℚ → Prop
  | whole {ds : List Digit} (hds : ds ≠ []) : Magnitude (numeral ds) (Numeral.value ds)
  | point {ds fs : List Digit} (hds : ds ≠ []) :
      Magnitude (numeral ds ++ '.' :: numeral fs) (Numeral.value ds + Numeral.fraction fs)
  | bare {fs : List Digit} (hfs : fs ≠ []) :
      Magnitude ('.' :: numeral fs) (Numeral.fraction fs)

/-- `[+-]?` and a magnitude. -/
inductive Decimal : Chars → ℚ → Prop
  | mk {sg s : Chars} {negative : Bool} {q : ℚ} (hsg : Sign sg negative) (hs : Magnitude s q) :
      Decimal (sg ++ s) (signed negative q)

/-- Two digits. -/
inductive TwoDigits : Chars → ℕ → Prop
  | mk (a b : Digit) : TwoDigits (numeral [a, b]) (Numeral.value [a, b])

/-- `-?digits-MM-DD`, of a day that exists. -/
inductive Date : Chars → Day → Prop
  | mk {sg mm dd : Chars} {negative : Bool} {ys : List Digit} {month day : ℕ}
      (hsg : Minus sg negative) (hys : ys ≠ []) (hmm : TwoDigits mm month)
      (hdd : TwoDigits dd day)
      (hday : Day.Valid ⟨signed negative (Numeral.value ys : ℤ), month, day⟩) :
      Date (sg ++ numeral ys ++ '-' :: mm ++ '-' :: dd)
        ⟨signed negative (Numeral.value ys : ℤ), month, day⟩

/-- `(.digits)?` -/
inductive SubSecond : Chars → ℚ → Prop
  | absent : SubSecond [] 0
  | point {fs : List Digit} (hfs : fs ≠ []) : SubSecond ('.' :: numeral fs) (Numeral.fraction fs)

/-- `HH:MM:SS` below `24:00:00`, and a fraction. -/
inductive Time : Chars → Clock → Prop
  | mk {hh mm ss ff : Chars} {h m s : ℕ} {q : ℚ} (hhh : TwoDigits hh h) (hmm : TwoDigits mm m)
      (hss : TwoDigits ss s) (hff : SubSecond ff q) (hh_le : h ≤ 23) (hm_le : m ≤ 59)
      (hs_le : s ≤ 59) :
      Time (hh ++ ':' :: mm ++ ':' :: ss ++ ff) ⟨h * 3600 + m * 60 + s, q⟩

/-- `Z`, `z`, `+HH:MM` or `-HH:MM`, in minutes. -/
inductive Zone : Chars → ℤ → Prop
  | upper : Zone ['Z'] 0
  | lower : Zone ['z'] 0
  | east {hh mm : Chars} {h m : ℕ} (hhh : TwoDigits hh h) (hmm : TwoDigits mm m) (hh_le : h ≤ 23)
      (hm_le : m ≤ 59) : Zone ('+' :: hh ++ ':' :: mm) (h * 60 + m)
  | west {hh mm : Chars} {h m : ℕ} (hhh : TwoDigits hh h) (hmm : TwoDigits mm m) (hh_le : h ≤ 23)
      (hm_le : m ≤ 59) : Zone ('-' :: hh ++ ':' :: mm) (-(h * 60 + m))

/-- `T` or a space. -/
inductive Separator : Char → Prop
  | letter : Separator 'T'
  | space : Separator ' '

/-- A date, a separator and a time. -/
inductive DateTime : Chars → Day → Clock → Prop
  | mk {d t : Chars} {c : Char} {day : Day} {clock : Clock} (hd : Date d day) (hc : Separator c)
      (ht : Time t clock) : DateTime (d ++ c :: t) day clock

/-- The texts of each type and what they say. -/
inductive Denotes : Ty → Chars → Meaning → Prop
  | integer {s : Chars} {n : ℤ} (h : Integer s n) : Denotes .integer s (.integer n)
  | unsigned {s : Chars} {n : ℕ} (h : Unsigned s n) :
      Denotes .unsignedInteger s (.unsigned n)
  | decimal {s : Chars} {q : ℚ} (h : Decimal s q) : Denotes .decimal s (.decimal q)
  | string (s : String) : Denotes .string s.toList (.text s)
  | date {s : Chars} {d : Day} (h : Date s d) : Denotes .date s (.date d)
  | dateTz {s z : Chars} {d : Day} {off : ℤ} (h : Date s d) (hz : Zone z off) :
      Denotes .dateTz (s ++ z) (.dateTz d off)
  | time {s : Chars} {t : Clock} (h : Time s t) : Denotes .time s (.time t)
  | dateTime {s : Chars} {d : Day} {t : Clock} (h : DateTime s d t) :
      Denotes .dateTime s (.dateTime d t)
  | dateTimeTz {s z : Chars} {d : Day} {t : Clock} {off : ℤ} (h : DateTime s d t)
      (hz : Zone z off) : Denotes .dateTimeTz (s ++ z) (.dateTimeTz d t off)

end Literal

end TablesOS
