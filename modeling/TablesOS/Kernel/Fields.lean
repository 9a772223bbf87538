import TablesOS.Kernel.Editor

/-!
# Keys in text fields, the row editor and the field builder (`ui.rs`)

A text field is a list of characters and a caret. The editor and the builder
hold several and one focus, which runs over the fields and then over the buttons
below them; a key changes the field in focus, or asks for one of the steps of
`Editor.lean`.
-/

namespace TablesOS

namespace Views

/-! ## One field -/

/-- `ce_insert` -/
def ceInsert (text : Chars) (caret : Nat) (c : Char) : Chars × Nat :=
  (text.insertIdx (min caret text.length) c, min caret text.length + 1)

/-- `ce_backspace` -/
def ceBackspace (text : Chars) (caret : Nat) : Chars × Nat :=
  if 0 < min caret text.length then
    (text.eraseIdx (min caret text.length - 1), min caret text.length - 1)
  else (text, caret)

/-- `ce_delete` -/
def ceDelete (text : Chars) (caret : Nat) : Chars × Nat :=
  if min caret text.length < text.length then
    (text.eraseIdx (min caret text.length), min caret text.length)
  else (text, caret)

/-- `ce_left` -/
def ceLeft (text : Chars) (caret : Nat) : Nat := min caret text.length - 1

/-- `ce_right` -/
def ceRight (text : Chars) (caret : Nat) : Nat := min (caret + 1) text.length

/-! ## The editor -/

/-- What the editor wants done after a key. -/
inductive Want where
  | stay
  | cancel
  | commit
  | now
  | next
  | parts (fi : Nat)
  deriving DecidableEq, Repr

namespace Field

/-- The text and the caret of the field. -/
def write (f : Field) (text : Chars × Nat) : Field :=
  { f with value := String.ofList text.1, caret := text.2 }

/-- A key on the field in focus, in a column that is nullable or not. -/
def key (nullable : Bool) (f : Field) : Ps2.Key → Field
  | .left => { f with caret := ceLeft f.value.toList f.caret }
  | .right => { f with caret := ceRight f.value.toList f.caret }
  | .home => { f with caret := 0 }
  | .endKey => { f with caret := f.value.length }
  | .delete => if nullable then { f with isNull := !f.isNull } else f
  | .backspace => { f with isNull := false }.write (ceBackspace f.value.toList f.caret)
  | .char c => { f with isNull := false }.write (ceInsert f.value.toList f.caret c)
  | _ => f

end Field

namespace Editor

/-- The column in focus, if it is not one of the two buttons. -/
def column (ed : Editor) : Option Column := ed.cols[ed.focus]?

/-- The editor after a key for the field in focus. -/
def typed (ed : Editor) (k : Ps2.Key) : Editor :=
  match ed.column with
  | some c => { ed with fields := ed.fields.modify ed.focus (Field.key c.nullable · k) }
  | none => ed

/-- `key_editor`, up to what it wants done. -/
def key (ed : Editor) (k : Ps2.Key) : Editor × Want :=
  match k with
  | .esc => (ed, .cancel)
  | .tab | .down => ({ ed with focus := (ed.focus + 1) % (ed.cols.length + 2) }, .stay)
  | .up => ({ ed with
      focus := (ed.focus + ed.cols.length + 1) % (ed.cols.length + 2) }, .stay)
  | .pageDown => (ed, if ed.focus < ed.cols.length then .parts ed.focus else .stay)
  | .enter => (ed, if ed.focus = ed.cols.length + 1 then .cancel else .commit)
  | k => (ed.typed k, .stay)

end Editor

/-! ## The builder -/

/-- `struct Rtc` -/
structure Rtc where
  year : Nat
  month : Nat
  day : Nat
  hour : Nat
  minute : Nat
  second : Nat
  deriving DecidableEq, Repr

namespace PartId

/-- `PartId::max_digits`; without a bound there is none. -/
def maxDigits : PartId → Option Nat
  | .month | .day | .hour | .minute | .second | .offHour | .offMin => some 2
  | _ => none

/-- `PartId::is_sign` -/
def isSign : PartId → Bool
  | .offSign | .sign => true
  | _ => false

/-- `PartId::is_text` -/
def isText : PartId → Bool
  | .text => true
  | _ => false

end PartId

namespace PartField

/-- The text and the caret of the part. -/
def write (f : PartField) (text : Chars × Nat) : PartField :=
  { f with buf := text.1, caret := text.2 }

/-- A character typed into the part. -/
def type (f : PartField) (c : Char) : PartField :=
  if f.id.isSign then
    if c = '+' then { f with neg := false } else if c = '-' then { f with neg := true } else f
  else if f.id = .year ∧ (c = '-' ∨ c = '+') then { f with neg := c == '-' }
  else if f.id.isText then f.write (ceInsert f.buf f.caret c)
  else if c.isDigit ∧ ∀ n ∈ f.id.maxDigits, f.buf.length < n then
    f.write (ceInsert f.buf f.caret c)
  else f

/-- A key on the part in focus. -/
def key (f : PartField) : Ps2.Key → PartField
  | .left =>
      if f.id.isSign then { f with neg := !f.neg } else { f with caret := ceLeft f.buf f.caret }
  | .right => if f.id.isSign then { f with neg := !f.neg }
      else { f with caret := ceRight f.buf f.caret }
  | .home => { f with caret := 0 }
  | .endKey => { f with caret := f.buf.length }
  | .backspace => f.write (ceBackspace f.buf f.caret)
  | .delete => f.write (ceDelete f.buf f.caret)
  | .char c => f.type c
  | _ => f

end PartField

namespace FieldBuilder

/-- `is_datetime` -/
def isDatetime : Ty → Bool
  | .date | .dateTz | .time | .dateTime | .dateTimeTz => true
  | _ => false

/-- `has_now` -/
def hasNow (b : FieldBuilder) : Bool := isDatetime b.ty

/-- `has_next` -/
def hasNext (b : FieldBuilder) : Bool := b.nextValue.isSome

/-- `now_index` -/
def nowIndex (b : FieldBuilder) : Option Nat := if b.hasNow then some b.fields.length else none

/-- `next_index` -/
def nextIndex (b : FieldBuilder) : Option Nat :=
  if b.hasNext then some (b.fields.length + b.hasNow.toNat) else none

/-- `ok_index` -/
def okIndex (b : FieldBuilder) : Nat := b.fields.length + b.hasNow.toNat + b.hasNext.toNat

/-- `cancel_index` -/
def cancelIndex (b : FieldBuilder) : Nat := b.okIndex + 1

/-- `total` -/
def total (b : FieldBuilder) : Nat := b.cancelIndex + 1

/-- `fill_now`, where the clock could be read. -/
def fillNow (b : FieldBuilder) (n : Rtc) : FieldBuilder :=
  let b := b.set .year (Nat.toDigits 10 n.year) false
  let b := ((b.set .month (num2 n.month) false).set .day (num2 n.day) false).set
    .hour (num2 n.hour) false
  let b := ((b.set .minute (num2 n.minute) false).set .second (num2 n.second) false).set
    .frac [] false
  ((b.set .offSign [] false).set .offHour (num2 0) false).set .offMin (num2 0) false

/-- `fill_next`, where there is a next value. -/
def fillNext (b : FieldBuilder) (text : String) : FieldBuilder :=
  let (neg, int, _) := splitNumber text.toList
  (b.set .sign [] neg).set .intDigits int false

/-- What Enter is worth. -/
def entered (b : FieldBuilder) : Want :=
  if some b.focus = b.nowIndex then .now
  else if some b.focus = b.nextIndex then .next
  else if b.focus = b.cancelIndex then .cancel
  else .commit

/-- The builder after a key for the part in focus. -/
def typed (b : FieldBuilder) (k : Ps2.Key) : FieldBuilder :=
  { b with fields := b.fields.modify b.focus (PartField.key · k) }

/-- `key_builder`, up to what it wants done. -/
def key (b : FieldBuilder) (k : Ps2.Key) : FieldBuilder × Want :=
  match k with
  | .esc => (b, .cancel)
  | .tab | .down => ({ b with focus := (b.focus + 1) % b.total }, .stay)
  | .up => ({ b with focus := (b.focus + b.total - 1) % b.total }, .stay)
  | .char c =>
      if (c = 'n' ∨ c = 'N') ∧ b.hasNow then (b, .now)
      else if (c = 'n' ∨ c = 'N') ∧ b.hasNext then (b, .next)
      else (b.typed k, .stay)
  | .enter => (b, b.entered)
  | k => (b.typed k, .stay)

end FieldBuilder

end Views

end TablesOS
