import TablesOS.Engine.Block
import TablesOS.Engine.Bignum

/-!
# Types and typed values (`types.rs`, `value.rs`)

Every variant has unlimited size. The canonical forms the source documents on
its fields (no trailing zero in a fraction, no negative zero, a day that the
month has, a second of the day below 86400, an offset within a day) are fields
here, so each value below is one that `Value.parse` can produce.
-/

namespace TablesOS

/-- `enum Type` -/
inductive Ty where
  | integer
  | unsignedInteger
  | decimal
  | string
  | date
  | dateTz
  | time
  | dateTime
  | dateTimeTz
  deriving DecidableEq, Repr

namespace Ty

/-- `Type::ALL` -/
def all : List Ty :=
  [integer, unsignedInteger, decimal, string, date, dateTz, time, dateTime,
    dateTimeTz]

/-- `Type::name` -/
def name : Ty → String
  | integer => "integer"
  | unsignedInteger => "unsigned integer"
  | decimal => "decimal"
  | string => "string"
  | date => "date"
  | dateTz => "date tz"
  | time => "time"
  | dateTime => "date time"
  | dateTimeTz => "date time tz"

/-- `Type::tag` -/
def tag : Ty → Byte
  | integer => 1
  | unsignedInteger => 2
  | decimal => 3
  | string => 4
  | date => 5
  | dateTz => 6
  | time => 7
  | dateTime => 8
  | dateTimeTz => 9

/-- `Type::from_tag` -/
def fromTag (t : Byte) : Option Ty := all.find? fun ty => ty.tag == t

theorem fromTag_tag (ty : Ty) : fromTag ty.tag = some ty := by
  cases ty <;> decide

end Ty

/-- `perr` -/
def perr (msg : String) : StoreError := .parse msg

/-- `while frac.last() == Some(&0) { frac.pop(); }` -/
def trimFrac (frac : List Digit) : List Digit := frac.rdropWhile (· == 0)

theorem getLast?_trimFrac (frac : List Digit) :
    (trimFrac frac).getLast? ≠ some 0 := by
  rw [trimFrac, List.rdropWhile, List.getLast?_reverse]
  exact head?_dropWhile_zero frac.reverse

/-- `Decimal` -/
structure Decimal where
  negative : Bool
  int : BigUint
  frac : List Digit
  noTrailing : frac.getLast? ≠ some 0
  noNegZero : negative = true → (int.isZero && frac.isEmpty) = false
  deriving DecidableEq, Repr

namespace Decimal

/-- `Decimal::canonical` -/
def canonical (negative : Bool) (int : BigUint) (frac : List Digit) : Decimal :=
  ⟨negative && !(int.isZero && (trimFrac frac).isEmpty), int, trimFrac frac,
    getLast?_trimFrac frac, fun h => by
      rw [Bool.and_eq_true, Bool.not_eq_true'] at h
      exact h.2⟩

/-- `Decimal::parse` -/
def parse (s : Chars) : Option Decimal :=
  let (negative, rest) := splitSign s
  if rest.isEmpty then none else
  let (intPart, fracPart) := match splitOnce '.' rest with
    | some (i, f) => (i, f)
    | none => (rest, [])
  if intPart.isEmpty && fracPart.isEmpty then none else do
    let int ← if intPart.isEmpty then some BigUint.zero else BigUint.parse intPart
    let frac ← digits? fracPart
    some (canonical negative int frac)

/-- `Decimal::display` -/
def display (v : Decimal) : Chars :=
  (if v.negative then ['-'] else []) ++ v.int.toDecString ++
    (if v.frac.isEmpty then [] else '.' :: v.frac.map digitChar)

end Decimal

/-- `parse_fixed`: exactly `width` ASCII digits. -/
def parseFixed (s : Chars) (width : Nat) : Option Nat :=
  if utf8Len s ≠ width || !s.all Char.isDigit then none
  else some (s.foldl (fun v c => v * 10 + (c.toNat - 48)) 0)

/-- `push2` -/
def push2 (v : Nat) : Chars := [Char.ofNat (48 + v / 10), Char.ofNat (48 + v % 10)]

/-- `is_leap` -/
def isLeap (year : BigInt) : Bool :=
  year.mag.remU32 4 == 0 && (year.mag.remU32 100 != 0 || year.mag.remU32 400 == 0)

/-- `days_in_month` -/
def daysInMonth (year : BigInt) (month : Nat) : Nat :=
  if month ∈ [1, 3, 5, 7, 8, 10, 12] then 31
  else if month ∈ [4, 6, 9, 11] then 30
  else if month = 2 then if isLeap year then 29 else 28
  else 0

/-- `Date` -/
structure Date where
  year : BigInt
  month : Nat
  day : Nat
  month_ok : 1 ≤ month ∧ month ≤ 12
  day_ok : 1 ≤ day ∧ day ≤ daysInMonth year month
  deriving DecidableEq, Repr

/-- `s.starts_with('-')`, and the body after it. -/
def splitMinus : Chars → Bool × Chars
  | '-' :: rest => (true, rest)
  | s => (false, s)

namespace Date

/-- `Date::parse` -/
def parse (s : Chars) : Option Date := do
  let (neg, body) := splitMinus s
  let (front, dd) ← rsplitOnce '-' body
  let (yy, mm) ← rsplitOnce '-' front
  if yy.isEmpty then none else do
    let year := BigInt.fromParts neg (← BigUint.parse yy)
    let month ← parseFixed mm 2
    let day ← parseFixed dd 2
    if hm : 1 ≤ month ∧ month ≤ 12 then
      if hd : 1 ≤ day ∧ day ≤ daysInMonth year month then
        some ⟨year, month, day, hm, hd⟩
      else none
    else none

/-- `Date::display`: the year padded to at least four digits. -/
def display (v : Date) : Chars :=
  let yd := v.year.mag.toDecString
  (if v.year.negative then ['-'] else []) ++ List.replicate (4 - yd.length) '0' ++
    yd ++ '-' :: push2 v.month ++ '-' :: push2 v.day

end Date

/-- `TimeOfDay` -/
structure TimeOfDay where
  secs : Nat
  frac : List Digit
  secs_lt : secs < 86400
  noTrailing : frac.getLast? ≠ some 0
  deriving DecidableEq, Repr

namespace TimeOfDay

/-- `match s.split_once('.')`: the clock, and what follows the point. -/
def splitFrac (s : Chars) : Chars × Option Chars :=
  match splitOnce '.' s with
  | some (h, f) => (h, some f)
  | none => (s, none)

/-- The sub-second digits after the point, when there is one. -/
def parseFrac : Option Chars → Option (List Digit)
  | none => some []
  | some f => if f.isEmpty then none else (digits? f).map trimFrac

theorem getLast?_parseFrac {f : Option Chars} {frac : List Digit}
    (h : parseFrac f = some frac) : frac.getLast? ≠ some 0 := by
  cases f with
  | none => cases h; simp
  | some f =>
      simp only [parseFrac] at h
      split at h
      · cases h
      · obtain ⟨ds, _, rfl⟩ := Option.map_eq_some_iff.mp h
        exact getLast?_trimFrac ds

/-- `TimeOfDay::parse` -/
def parse (s : Chars) : Option TimeOfDay :=
  let (hms, fracStr) := splitFrac s
  match splitAll ':' hms with
  | [hs, ms, ss] => do
      let h ← parseFixed hs 2
      let m ← parseFixed ms 2
      let sec ← parseFixed ss 2
      if hr : h ≤ 23 ∧ m ≤ 59 ∧ sec ≤ 59 then
        match hf : parseFrac fracStr with
        | none => none
        | some frac =>
            some ⟨h * 3600 + m * 60 + sec, frac, by omega, getLast?_parseFrac hf⟩
      else none
  | _ => none

/-- `TimeOfDay::display` -/
def display (v : TimeOfDay) : Chars :=
  push2 (v.secs / 3600) ++ ':' :: push2 (v.secs % 3600 / 60) ++
    ':' :: push2 (v.secs % 60) ++
    (if v.frac.isEmpty then [] else '.' :: v.frac.map digitChar)

end TimeOfDay

/-- A zone offset in minutes. -/
structure Offset where
  minutes : Int
  lower : -1439 ≤ minutes
  upper : minutes ≤ 1439
  deriving DecidableEq, Repr

namespace Offset

/-- `parse_offset` -/
def parse (s : Chars) : Option Offset :=
  if s = ['Z'] || s = ['z'] then some ⟨0, by decide, by decide⟩ else
  let signed : Option (Bool × Chars) := match s with
    | '+' :: body => some (false, body)
    | '-' :: body => some (true, body)
    | _ => none
  match signed with
  | none => none
  | some (neg, body) => do
      let (hh, mm) ← splitOnce ':' body
      let h ← parseFixed hh 2
      let m ← parseFixed mm 2
      if hr : h ≤ 23 ∧ m ≤ 59 then
        let total := h * 60 + m
        if neg then some ⟨-(total : Int), by omega, by omega⟩
        else some ⟨total, by omega, by omega⟩
      else none

/-- `display_offset` -/
def display (off : Offset) : Chars :=
  (if off.minutes < 0 then '-' else '+') :: push2 (off.minutes.natAbs / 60) ++
    ':' :: push2 (off.minutes.natAbs % 60)

end Offset

/-- `enum Value` -/
inductive Value where
  | integer (v : BigInt)
  | unsigned (v : BigUint)
  | decimal (v : Decimal)
  | str (s : String)
  | date (d : Date)
  | dateTz (d : Date) (off : Offset)
  | time (t : TimeOfDay)
  | dateTime (d : Date) (t : TimeOfDay)
  | dateTimeTz (d : Date) (t : TimeOfDay) (off : Offset)
  deriving DecidableEq, Repr

/-- A trailing `Z` or `z` is UTC. -/
def stripZulu (s : Chars) : Option Chars :=
  if s.getLast? = some 'Z' || s.getLast? = some 'z' then some s.dropLast else none

/-- `split_tz`: the zone designator off the end. The cut six bytes from the
end has to be a character boundary. -/
def splitTz (s : Chars) : Option (Chars × Offset) :=
  match stripZulu s with
  | some stripped => some (stripped, ⟨0, by decide, by decide⟩)
  | none =>
      if 6 ≤ utf8Len s then
        match splitAtByte (utf8Len s - 6) s with
        | some (front, tail) =>
            if (tail.head? = some '+' || tail.head? = some '-') &&
                (utf8Bytes tail)[3]? = some 58 then
              (Offset.parse tail).map fun off => (front, off)
            else none
        | none => none
      else none

/-- `split_dt` -/
def splitDt (s : Chars) : Option (Chars × Chars) :=
  (splitOnce 'T' s).or (splitOnce ' ' s)

namespace Value

/-- `type_of` -/
def typeOf : Value → Ty
  | integer _ => .integer
  | unsigned _ => .unsignedInteger
  | decimal _ => .decimal
  | str _ => .string
  | date _ => .date
  | dateTz .. => .dateTz
  | time _ => .time
  | dateTime .. => .dateTime
  | dateTimeTz .. => .dateTimeTz

/-- The text of each type, before the error message is attached. -/
def parse? (ty : Ty) (input : Chars) : Option Value :=
  match ty with
  | .integer => (BigInt.parse input).map integer
  | .unsignedInteger => (BigUint.parse input).map unsigned
  | .decimal => (Decimal.parse input).map decimal
  | .string => some (str (String.ofList input))
  | .date => (Date.parse input).map date
  | .dateTz => do
      let (d, off) ← splitTz input
      some (dateTz (← Date.parse d) off)
  | .time => (TimeOfDay.parse input).map time
  | .dateTime => do
      let (d, t) ← splitDt input
      some (dateTime (← Date.parse d) (← TimeOfDay.parse t))
  | .dateTimeTz => do
      let (dt, off) ← splitTz input
      let (d, t) ← splitDt dt
      some (dateTimeTz (← Date.parse d) (← TimeOfDay.parse t) off)

/-- `Value::parse` -/
def parse (ty : Ty) (input : String) : Except StoreError Value :=
  match parse? ty input.toList with
  | some v => .ok v
  | none => .error (perr ("not a valid " ++ ty.name))

/-- The characters `display` prints. -/
def displayChars : Value → Chars
  | integer v => v.toDecString
  | unsigned v => v.toDecString
  | decimal v => v.display
  | str s => s.toList
  | date d => d.display
  | dateTz d off => d.display ++ off.display
  | time t => t.display
  | dateTime d t => d.display ++ 'T' :: t.display
  | dateTimeTz d t off => d.display ++ 'T' :: t.display ++ off.display

/-- `Value::display` -/
def display (v : Value) : String := String.ofList v.displayChars

end Value

end TablesOS
