import TablesOS.Engine.Value

/-!
# Comparing values (`bignum.rs`, `value.rs`)

The `Ord` implementations, each component by component on canonical forms.
`then` is the source's `then` and `then_with`: the second comparison counts
where the first finds nothing.
-/

namespace TablesOS

/-- `Ord` on a run of digits. -/
def cmpDigits : List Digit → List Digit → Ordering :=
  List.compareLex fun d e => compare d.val e.val

/-- `Ord for BigUint`: in canonical form the longer one is the larger. -/
def BigUint.cmp (a b : BigUint) : Ordering :=
  (compare a.digits.length b.digits.length).then (cmpDigits a.digits b.digits)

/-- `Ord for BigInt` -/
def BigInt.cmp (a b : BigInt) : Ordering :=
  match a.negative, b.negative with
  | false, true => .gt
  | true, false => .lt
  | false, false => a.mag.cmp b.mag
  | true, true => b.mag.cmp a.mag

/-- `cmp_frac`: digit by digit, a missing one counting as zero. -/
def cmpFrac (a b : List Digit) : Ordering :=
  (List.range (max a.length b.length)).foldl
    (fun ord i => ord.then (compare (a.getD i 0).val (b.getD i 0).val)) .eq

/-- `Ord for Decimal` -/
def Decimal.cmp (a b : Decimal) : Ordering :=
  match a.negative, b.negative with
  | false, true => .gt
  | true, false => .lt
  | _, _ =>
      let mag := (a.int.cmp b.int).then (cmpFrac a.frac b.frac)
      if a.negative then mag.swap else mag

/-- `Ord for Date` -/
def Date.cmp (a b : Date) : Ordering :=
  ((a.year.cmp b.year).then (compare a.month b.month)).then (compare a.day b.day)

/-- `Ord for TimeOfDay` -/
def TimeOfDay.cmp (a b : TimeOfDay) : Ordering :=
  (compare a.secs b.secs).then (cmpFrac a.frac b.frac)

/-- `Ord for i16` -/
def Offset.cmp (a b : Offset) : Ordering := compare a.minutes b.minutes

/-- `Ord for str`: by bytes. -/
def cmpStr (a b : String) : Ordering :=
  List.compareLex (fun x y => compare x.toNat y.toNat) (utf8Bytes a.toList)
    (utf8Bytes b.toList)

namespace Value

/-- `ord_tag` -/
def ordTag (v : Value) : Byte := v.typeOf.tag

/-- `Ord for Value` -/
def cmp (v w : Value) : Ordering :=
  if v.ordTag ≠ w.ordTag then compare v.ordTag.toNat w.ordTag.toNat else
  match v, w with
  | integer a, integer b => a.cmp b
  | unsigned a, unsigned b => a.cmp b
  | decimal a, decimal b => a.cmp b
  | str a, str b => cmpStr a b
  | date a, date b => a.cmp b
  | dateTz a ao, dateTz b bo => (a.cmp b).then (ao.cmp bo)
  | time a, time b => a.cmp b
  | dateTime da ta, dateTime db tb => (da.cmp db).then (ta.cmp tb)
  | dateTimeTz da ta oa, dateTimeTz db tb ob => ((da.cmp db).then (ta.cmp tb)).then (oa.cmp ob)
  | _, _ => .eq

end Value

end TablesOS
