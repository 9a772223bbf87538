import TablesOS.Base.Numeral
import TablesOS.Engine.Value

/-!
# What a value stands for

Numbers are numbers, of any size; a date is a year, a month and a day of the
proleptic Gregorian calendar, with astronomical years; a time is a second of
the day and a fraction of the next one. `Meaning.Less` is the order of the
things meant, between values of one type.
-/

namespace TablesOS

/-- The number with these digits. -/
def BigUint.toNat (v : BigUint) : ℕ := Numeral.value v.digits

def BigInt.toInt (v : BigInt) : ℤ := if v.negative then -(v.mag.toNat : ℤ) else v.mag.toNat

def Decimal.toRat (v : Decimal) : ℚ :=
  if v.negative then -(v.int.toNat + Numeral.fraction v.frac)
  else v.int.toNat + Numeral.fraction v.frac

/-- A day of the calendar. -/
structure Day where
  year : ℤ
  month : ℕ
  day : ℕ
  deriving DecidableEq, Repr

namespace Day

/-- The Gregorian leap rule. -/
def Leap (year : ℤ) : Prop := 4 ∣ year ∧ (¬ 100 ∣ year ∨ 400 ∣ year)

instance (year : ℤ) : Decidable (Leap year) := inferInstanceAs (Decidable (_ ∧ _))

def monthLength (year : ℤ) (month : ℕ) : ℕ :=
  if month = 2 then if Leap year then 29 else 28
  else if month = 4 ∨ month = 6 ∨ month = 9 ∨ month = 11 then 30
  else 31

/-- The day exists. -/
def Valid (d : Day) : Prop :=
  1 ≤ d.month ∧ d.month ≤ 12 ∧ 1 ≤ d.day ∧ d.day ≤ monthLength d.year d.month

def Less (d e : Day) : Prop :=
  d.year < e.year ∨ d.year = e.year ∧
    (d.month < e.month ∨ d.month = e.month ∧ d.day < e.day)

end Day

/-- A time of day. -/
structure Clock where
  second : ℕ
  fraction : ℚ
  deriving DecidableEq

def Clock.Less (t u : Clock) : Prop :=
  t.second < u.second ∨ t.second = u.second ∧ t.fraction < u.fraction

inductive Meaning where
  | integer (n : ℤ)
  | unsigned (n : ℕ)
  | decimal (q : ℚ)
  | text (s : String)
  | date (d : Day)
  | dateTz (d : Day) (offset : ℤ)
  | time (t : Clock)
  | dateTime (d : Day) (t : Clock)
  | dateTimeTz (d : Day) (t : Clock) (offset : ℤ)

/-- By value; local value first, then the offset; text by its bytes. -/
def Meaning.Less : Meaning → Meaning → Prop
  | integer m, integer n => m < n
  | unsigned m, unsigned n => m < n
  | decimal p, decimal q => p < q
  | text s, text t => List.Lex (· < ·) ((utf8Bytes s.toList).map UInt8.toNat)
      ((utf8Bytes t.toList).map UInt8.toNat)
  | date d, date e => d.Less e
  | dateTz d o, dateTz e p => d.Less e ∨ d = e ∧ o < p
  | time t, time u => t.Less u
  | dateTime d t, dateTime e u => d.Less e ∨ d = e ∧ t.Less u
  | dateTimeTz d t o, dateTimeTz e u p => d.Less e ∨ d = e ∧ (t.Less u ∨ t = u ∧ o < p)
  | _, _ => False

def Date.meaning (d : Date) : Day := ⟨d.year.toInt, d.month, d.day⟩

def TimeOfDay.meaning (t : TimeOfDay) : Clock := ⟨t.secs, Numeral.fraction t.frac⟩

def Value.meaning : Value → Meaning
  | integer v => .integer v.toInt
  | unsigned v => .unsigned v.toNat
  | decimal v => .decimal v.toRat
  | str s => .text s
  | date d => .date d.meaning
  | dateTz d off => .dateTz d.meaning off.minutes
  | time t => .time t.meaning
  | dateTime d t => .dateTime d.meaning t.meaning
  | dateTimeTz d t off => .dateTimeTz d.meaning t.meaning off.minutes

end TablesOS
