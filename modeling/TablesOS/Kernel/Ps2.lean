import TablesOS.Base.DropRing
import Mathlib.Data.UInt

/-!
# Keyboard and event queue (`ps2.rs`)

Raw bytes of scan-code set 1 come in with the keyboard's interrupt, are decoded
one at a time, and what they amount to is queued for the UI. Beside the decoder
stands the keyboard itself: which of its two shift keys is held, as far as the
bytes it sends tell.
-/

namespace TablesOS

namespace Ps2

/-- `enum Key` -/
inductive Key where
  | char (c : Char)
  | enter
  | esc
  | backspace
  | tab
  | up
  | down
  | left
  | right
  | home
  | endKey
  | delete
  | pageUp
  | pageDown
  deriving DecidableEq, Repr

/-- `enum Event` -/
inductive Event where
  | key (k : Key)
  | mouseMove (x y : Nat)
  | click (x y : Nat)
  | rightClick
  deriving DecidableEq, Repr

/-- `struct Kbd` -/
structure Kbd where
  shift : Bool
  extended : Bool
  deriving DecidableEq, Repr

/-- `QUEUE_CAP` -/
abbrev queueCap : Nat := 512

/-- `struct EventRing` -/
abbrev EventRing := DropRing Event queueCap

/-- `EventRing::new` -/
def EventRing.new : EventRing where
  buf := Vector.replicate queueCap (.mouseMove 0 0)
  head := 0
  len := 0
  head_lt := Nat.zero_lt_succ _
  len_le := Nat.zero_le _

/-! ## Decoding -/

/-- `LOW`, by scan code; `'\x00'` where there is no character. -/
def low : String :=
  "\x00\x001234567890-=\x00\x00qwertyuiop[]\x00\x00asdfghjkl;'`\x00\\zxcvbnm,./"

/-- `UP` -/
def up : String :=
  "\x00\x00!@#$%^&*()_+\x00\x00QWERTYUIOP\x7b\x7d\x00\x00ASDFGHJKL:\"~\x00|ZXCVBNM<>?"

/-- `scancode_char` -/
def scancodeChar (code : UInt8) (shift : Bool) : Option Char :=
  if code = 0x39 then some ' '
  else
    match (if shift then up else low).toList[code.toNat]? with
    | some c => if c ≠ '\x00' then some c else none
    | none => none

/-- The keys that are sent with a prefix byte. -/
def extendedKey (make : UInt8) : Option Key :=
  if make = 0x48 then some .up
  else if make = 0x50 then some .down
  else if make = 0x4B then some .left
  else if make = 0x4D then some .right
  else if make = 0x47 then some .home
  else if make = 0x4F then some .endKey
  else if make = 0x53 then some .delete
  else if make = 0x49 then some .pageUp
  else if make = 0x51 then some .pageDown
  else none

/-- The keys that are sent without one. -/
def plainKey (make : UInt8) (shift : Bool) : Option Key :=
  if make = 0x1C then some .enter
  else if make = 0x01 then some .esc
  else if make = 0x0E then some .backspace
  else if make = 0x0F then some .tab
  else (scancodeChar make shift).map .char

/-- `on_keyboard_byte`: the decoder after the byte, and the event it pushes. -/
def onKeyboardByte (k : Kbd) (code : UInt8) : Kbd × Option Event :=
  if code = 0xE0 then ({ k with extended := true }, none)
  else
    let released := code &&& 0x80 ≠ 0
    let make := code &&& 0x7F
    let ext := k.extended
    let k := { k with extended := false }
    if make = 0x2A ∨ make = 0x36 then ({ k with shift := !released }, none)
    else if released then (k, none)
    else if ext then (k, (extendedKey make).map .key)
    else (k, (plainKey make k.shift).map .key)

/-! ## The keyboard -/

/-- The shift keys that are held, and whether a prefix byte was sent that belongs to
the next one. -/
structure Shifts where
  left : Bool
  right : Bool
  prefixed : Bool
  deriving DecidableEq, Repr

/-- At least one of them. -/
def Shifts.held (s : Shifts) : Bool := s.left || s.right

/-- What a byte tells of the shift keys. `E0 2A`, `E0 AA`, `E0 36` and `E0 B6` are
sent around the navigation keys and are no shift keys. -/
def Shifts.byte (s : Shifts) (code : UInt8) : Shifts :=
  if code = 0xE0 then { s with prefixed := true }
  else
    let t := { s with prefixed := false }
    if s.prefixed then t
    else if code = 0x2A then { t with left := true }
    else if code = 0xAA then { t with left := false }
    else if code = 0x36 then { t with right := true }
    else if code = 0xB6 then { t with right := false }
    else t

/-! ## The driver at work -/

/-- A byte comes in, another source pushes an event, or the UI polls. -/
inductive Input where
  | byte (code : UInt8)
  | push (e : Event)
  | poll
  deriving DecidableEq, Repr

/-- `KBD`, `QUEUE`, and the keyboard that sends the bytes. -/
structure Driver where
  kbd : Kbd
  queue : EventRing
  shifts : Shifts

namespace Driver

/-- As the statics are initialised, with no key held. -/
def boot : Driver := ⟨⟨false, false⟩, EventRing.new, ⟨false, false, false⟩⟩

/-- The event that an input gives rise to. -/
def emits (d : Driver) : Input → Option Event
  | .byte code => (onKeyboardByte d.kbd code).2
  | .push e => some e
  | .poll => none

/-- What the UI gets from an input. -/
def polls (d : Driver) : Input → Option Event
  | .poll => d.queue.pop.1
  | _ => none

def step (d : Driver) (i : Input) : Driver where
  kbd := match i with
    | .byte code => (onKeyboardByte d.kbd code).1
    | _ => d.kbd
  queue := match i with
    | .poll => d.queue.pop.2
    | i => (d.emits i).elim d.queue d.queue.push
  shifts := match i with
    | .byte code => d.shifts.byte code
    | _ => d.shifts

def run (d : Driver) (is : List Input) : Driver := is.foldl step d

end Driver

end Ps2

end TablesOS
