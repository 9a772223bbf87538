import TablesOS.Base.Text
import Mathlib.Algebra.GroupWithZero.Nat
import Mathlib.Data.List.Basic

/-!
# Unlimited-magnitude integers (`bignum.rs`)

The digits are the number. Canonical form is a field of the structure, so two
equal numbers are equal values and a number with a leading zero, or a negative
zero, cannot be built.
-/

namespace TablesOS

abbrev Digit := Fin 10

instance neZeroTen : NeZero 10 := ⟨by decide⟩

/-- `(b'0' + d) as char` -/
def digitChar (d : Digit) : Char := Char.ofNat (48 + d.val)

/-- `b - b'0'` for an ASCII digit. -/
def digit? (c : Char) : Option Digit :=
  if c.isDigit then some (Fin.ofNat 10 (c.toNat - 48)) else none

/-- A run of digits, most significant first; anything else is rejected. -/
def digits? (s : Chars) : Option (List Digit) := s.mapM digit?

/-- `BigUint`: most-significant-first digits without leading zeros. -/
structure BigUint where
  digits : List Digit
  canonical : digits.head? ≠ some 0
  deriving DecidableEq, Repr

theorem head?_dropWhile_zero (ds : List Digit) :
    (ds.dropWhile (· == 0)).head? ≠ some 0 := by
  induction ds with
  | nil => simp
  | cons d ds ih =>
      by_cases h : d = 0
      · rw [List.dropWhile_cons_of_pos (by simpa using h)]; exact ih
      · rw [List.dropWhile_cons_of_neg (by simpa using h)]
        simpa using h

namespace BigUint

/-- `normalize`: strip the leading zeros. -/
def normalize (ds : List Digit) : BigUint :=
  ⟨ds.dropWhile (· == 0), head?_dropWhile_zero ds⟩

/-- `BigUint::zero` -/
def zero : BigUint := ⟨[], by simp⟩

/-- `is_zero` -/
def isZero (v : BigUint) : Bool := v.digits.isEmpty

/-- `BigUint::parse` -/
def parse (s : Chars) : Option BigUint :=
  if s.isEmpty then none else (digits? s).map normalize

/-- `to_dec_string` -/
def toDecString (v : BigUint) : Chars :=
  if v.isZero then ['0'] else v.digits.map digitChar

/-- The loop of `succ`: the digits from `i` on are done, and a carry comes out of
them. -/
def carry : Nat → List Digit → List Digit
  | 0, ds => 1 :: ds
  | i + 1, ds => if ds.getD i 0 = 9 then carry i (ds.set i 0) else ds.set i (ds.getD i 0 + 1)

/-- `succ` -/
def succ (v : BigUint) : BigUint := normalize (carry v.digits.length v.digits)

/-- The loop of `pred`: there is still one to take off, from the digits before
`i`. -/
def borrow : Nat → List Digit → List Digit
  | 0, ds => ds
  | i + 1, ds => if ds.getD i 0 = 0 then borrow i (ds.set i 9) else ds.set i (ds.getD i 0 - 1)

/-- `pred`: zero stays zero. -/
def pred (v : BigUint) : BigUint := normalize (borrow v.digits.length v.digits)

/-- `rem_u32` -/
def remU32 (v : BigUint) (m : Nat) : Nat :=
  v.digits.foldl (fun r d => (r * 10 + d.val) % m) 0

end BigUint

/-- `BigInt`: zero is never negative. -/
structure BigInt where
  negative : Bool
  mag : BigUint
  noNegZero : negative = true → mag.isZero = false
  deriving DecidableEq, Repr

/-- `match s.as_bytes().first()`: an optional sign off the front. -/
def splitSign : Chars → Bool × Chars
  | '-' :: rest => (true, rest)
  | '+' :: rest => (false, rest)
  | s => (false, s)

namespace BigInt

/-- `from_parts` -/
def fromParts (negative : Bool) (mag : BigUint) : BigInt :=
  ⟨negative && !mag.isZero, mag, by simp⟩

/-- `BigInt::parse` -/
def parse (s : Chars) : Option BigInt :=
  let (negative, rest) := splitSign s
  (BigUint.parse rest).map (fromParts negative)

/-- `to_dec_string` -/
def toDecString (v : BigInt) : Chars :=
  (if v.negative then ['-'] else []) ++ v.mag.toDecString

/-- `succ`: what lies below zero comes nearer to it. -/
def succ (v : BigInt) : BigInt :=
  if v.negative then fromParts true v.mag.pred else fromParts false v.mag.succ

end BigInt

end TablesOS
