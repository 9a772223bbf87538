import TablesOS.Base.Outcome
import TablesOS.Engine.Value

/-!
# The parsers on bytes (`bignum.rs`, `value.rs`)

The parsers of `Engine/Value.lean` once more, with the operations that can
panic as the source performs them: a slice `&s[i..]` has to fall on a character
boundary, an index into the bytes has to exist, and arithmetic on a machine
integer has to stay within it. A parser that returns `None` is an error without
a message here.
-/

namespace TablesOS

namespace Bytewise

/-- A parser that returns an `Option`. -/
abbrev Parsed (α : Type) := Outcome Unit α

/-- `&s[i..]` -/
def sliceFrom (i : Nat) (s : Chars) : Parsed Chars :=
  Outcome.unwrap ((splitAtByte i s).map Prod.snd)

/-- `&s[..i]` -/
def sliceTo (i : Nat) (s : Chars) : Parsed Chars :=
  Outcome.unwrap ((splitAtByte i s).map Prod.fst)

/-- `s.as_bytes()[i]` -/
def byteAt (i : Nat) (s : Chars) : Parsed Byte := Outcome.unwrap (utf8Bytes s)[i]?

/-- The result of an unsigned operation, when it fits `bits`. -/
def fits (bits n : Nat) : Parsed Nat := if n < 2 ^ bits then .ok n else .panic

/-- Unsigned subtraction. -/
def subtract (a b : Nat) : Parsed Nat := if b ≤ a then .ok (a - b) else .panic

/-- `is_ascii_digit` -/
def isAsciiDigit (b : Byte) : Bool := 48 ≤ b.toNat && b.toNat ≤ 57

/-- The body of the loops over digits: `b - b'0'`, anything else rejected. -/
def digit (b : Byte) : Parsed Digit :=
  if isAsciiDigit b then do
    let d ← subtract b.toNat 48
    pure (Fin.ofNat 10 d)
  else .err ()

/-- `for b in s.bytes()` -/
def digits (s : Chars) : Parsed (List Digit) := (utf8Bytes s).mapM digit

/-- `BigUint::parse` -/
def bigUint (s : Chars) : Parsed BigUint :=
  if s.isEmpty then .err () else do
    let ds ← digits s
    pure (BigUint.normalize ds)

/-- `match s.as_bytes().first()` -/
def sign (s : Chars) : Parsed (Bool × Chars) :=
  match (utf8Bytes s).head? with
  | some 45 => do pure (true, ← sliceFrom 1 s)
  | some 43 => do pure (false, ← sliceFrom 1 s)
  | _ => .ok (false, s)

/-- `BigInt::parse` -/
def bigInt (s : Chars) : Parsed BigInt := do
  let (negative, rest) ← sign s
  let mag ← bigUint rest
  pure (BigInt.fromParts negative mag)

/-- `Decimal::parse` -/
def decimal (s : Chars) : Parsed Decimal := do
  let (negative, rest) ← sign s
  if rest.isEmpty then .err () else
  let (intPart, fracPart) := match splitOnce '.' rest with
    | some (i, f) => (i, f)
    | none => (rest, [])
  if intPart.isEmpty && fracPart.isEmpty then .err () else do
    let int ← if intPart.isEmpty then .ok BigUint.zero else bigUint intPart
    let frac ← digits fracPart
    pure (Decimal.canonical negative int frac)

/-- `parse_fixed`, in a `u32`. -/
def fixed (s : Chars) (width : Nat) : Parsed Nat :=
  if utf8Len s ≠ width || !(utf8Bytes s).all isAsciiDigit then .err () else
  (utf8Bytes s).foldlM (fun v b => do
    let d ← subtract b.toNat 48
    let v ← fits 32 (v * 10)
    fits 32 (v + d)) 0

/-- `rem_u32`: the remainder is taken of a `u64`. -/
def remU32 (v : BigUint) (m : Nat) : Parsed Nat :=
  v.digits.foldlM (fun r d => do
    let r ← fits 64 (r * 10)
    let r ← fits 64 (r + d.val)
    if m = 0 then .panic else pure (r % m)) 0

/-- `is_leap` -/
def isLeap (year : BigInt) : Parsed Bool := do
  let r4 ← remU32 year.mag 4
  if r4 ≠ 0 then pure false else do
    let r100 ← remU32 year.mag 100
    if r100 ≠ 0 then pure true else do
      let r400 ← remU32 year.mag 400
      pure (r400 == 0)

/-- `days_in_month` -/
def daysInMonth (year : BigInt) (month : Nat) : Parsed Nat :=
  if month ∈ [1, 3, 5, 7, 8, 10, 12] then pure 31
  else if month ∈ [4, 6, 9, 11] then pure 30
  else if month = 2 then do
    let leap ← isLeap year
    pure (if leap then 29 else 28)
  else pure 0

/-- A value that keeps an invariant. One that broke it would be no value of the
model; that counts as a panic. -/
def keep {α : Type} (p : Prop) [Decidable p] (mk : p → α) : Parsed α :=
  if h : p then .ok (mk h) else .panic

/-- `s.starts_with('-')`, and the body after it. -/
def minus (s : Chars) : Parsed (Bool × Chars) :=
  if s.head? = some '-' then do pure (true, ← sliceFrom 1 s) else pure (false, s)

/-- `Date::parse` -/
def date (s : Chars) : Parsed Date := do
  let (neg, body) ← minus s
  let (front, dd) ← Outcome.okOr () (rsplitOnce '-' body)
  let (yy, mm) ← Outcome.okOr () (rsplitOnce '-' front)
  if yy.isEmpty then .err () else do
    let mag ← bigUint yy
    let year := BigInt.fromParts neg mag
    let month ← fixed mm 2
    let day ← fixed dd 2
    if month < 1 || month > 12 then .err () else do
      let days ← daysInMonth year month
      if day < 1 || day > days then .err () else
        keep ((1 ≤ month ∧ month ≤ 12) ∧ 1 ≤ day ∧ day ≤ TablesOS.daysInMonth year month)
          fun h => ⟨year, month, day, h.1, h.2⟩

/-- The digits after the point of a time, when there is one. -/
def subSecond : Option Chars → Parsed (List Digit)
  | none => pure []
  | some f => if f.isEmpty then .err () else do
      let ds ← digits f
      pure (trimFrac ds)

/-- `TimeOfDay::parse` -/
def timeOfDay (s : Chars) : Parsed TimeOfDay := do
  let (hms, fracStr) := TimeOfDay.splitFrac s
  let it := splitAll ':' hms
  let hs ← Outcome.okOr () it[0]?
  let h ← fixed hs 2
  let ms ← Outcome.okOr () it[1]?
  let m ← fixed ms 2
  let ss ← Outcome.okOr () it[2]?
  let sec ← fixed ss 2
  if it[3]?.isSome || h > 23 || m > 59 || sec > 59 then .err () else do
    let frac ← subSecond fracStr
    let hours ← fits 32 (h * 3600)
    let minutes ← fits 32 (m * 60)
    let secs ← fits 32 (hours + minutes)
    let secs ← fits 32 (secs + sec)
    keep (secs < 86400 ∧ frac.getLast? ≠ some 0) fun h => ⟨secs, frac, h.1, h.2⟩

/-- An offset of so many minutes, as an `i16`. -/
def minutesOffset (minutes : Int) : Parsed Offset :=
  keep (-1439 ≤ minutes ∧ minutes ≤ 1439) fun h => ⟨minutes, h.1, h.2⟩

/-- `match s.as_bytes().first()?`: whether the offset is negative. -/
def offsetSign (s : Chars) : Parsed Bool :=
  match (utf8Bytes s).head? with
  | some 43 => pure false
  | some 45 => pure true
  | _ => .err ()

/-- `parse_offset`: the sum is one of `i32`. -/
def offset (s : Chars) : Parsed Offset :=
  if s = ['Z'] || s = ['z'] then minutesOffset 0 else do
  let neg ← offsetSign s
  let body ← sliceFrom 1 s
  let (hh, mm) ← Outcome.okOr () (splitOnce ':' body)
  let h ← fixed hh 2
  let m ← fixed mm 2
  if h > 23 || m > 59 then .err () else do
    let hours ← fits 31 (h * 60)
    let total ← fits 31 (hours + m)
    minutesOffset (if neg then -(total : Int) else total)

/-- `split_tz` -/
def zone (s : Chars) : Parsed (Chars × Offset) :=
  match stripZulu s with
  | some stripped => do pure (stripped, ← minutesOffset 0)
  | none =>
      if 6 ≤ utf8Len s then do
        let cut ← subtract (utf8Len s) 6
        if (splitAtByte cut s).isSome then do
          let tail ← sliceFrom cut s
          if tail.head? = some '+' || tail.head? = some '-' then do
            let colon ← byteAt 3 tail
            if colon = 58 then do
              let off ← offset tail
              let front ← sliceTo cut s
              pure (front, off)
            else .err ()
          else .err ()
        else .err ()
      else .err ()

/-- The arms of `Value::parse`, before the error message is attached. -/
def value (ty : Ty) (input : String) : Parsed Value :=
  match ty with
  | .integer => .integer <$> bigInt input.toList
  | .unsignedInteger => .unsigned <$> bigUint input.toList
  | .decimal => .decimal <$> decimal input.toList
  | .string => .ok (.str input)
  | .date => .date <$> date input.toList
  | .dateTz => do
      let (d, off) ← zone input.toList
      pure (.dateTz (← date d) off)
  | .time => .time <$> timeOfDay input.toList
  | .dateTime => do
      let (d, t) ← Outcome.okOr () (splitDt input.toList)
      pure (.dateTime (← date d) (← timeOfDay t))
  | .dateTimeTz => do
      let (dt, off) ← zone input.toList
      let (d, t) ← Outcome.okOr () (splitDt dt)
      pure (.dateTimeTz (← date d) (← timeOfDay t) off)

/-- `Value::parse` -/
def parse (ty : Ty) (input : String) : Outcome StoreError Value :=
  match value ty input with
  | .ok v => .ok v
  | .err _ => .err (perr ("not a valid " ++ ty.name))
  | .panic => .panic
  | .diverge => .diverge

end Bytewise

end TablesOS
