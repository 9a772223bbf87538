import TablesOS.Base.Bytes
import TablesOS.Base.Outcome

/-!
# The framebuffer (`framebuffer.rs`)

Drawing goes to the off-screen `scene`; `present` copies it to the hardware
buffer and stamps the pointer on top, and `moveCursor` moves the pointer without
a repaint, taking what was under it from the scene. Here are these two and what
they call. The drawing routines between them are not: they write pixels of the
scene, and a `Call` to present carries the scene they have left.

The kernel is built with overflow checks, and an addition past `usize` is a
panic. The geometry is in the type of a `Display`, and with it the length of its
two buffers.
-/

namespace TablesOS

/-- `struct Rgb` -/
structure Rgb where
  r : Byte
  g : Byte
  b : Byte
  deriving DecidableEq, Repr

/-- `struct FbInfo` -/
structure FbInfo where
  width : Nat
  height : Nat
  /-- Bytes per scanline. -/
  pitch : Nat
  /-- Bytes per pixel. -/
  bpp : Nat
  /-- The byte order is BGR, not RGB. -/
  bgr : Bool
  deriving DecidableEq, Repr

namespace FbInfo

/-- The length of the buffer handed over, `fb.pitch * fb.height`. -/
abbrev len (info : FbInfo) : Nat := info.pitch * info.height

/-- What the bootloader's record can say and `kmain` goes on with: pixels of
three or four bytes, rows that hold them, and numbers that were `u32`s. -/
structure Accepted (info : FbInfo) : Prop where
  bpp : info.bpp = 3 ∨ info.bpp = 4
  row : info.width * info.bpp ≤ info.pitch
  pitch_lt : info.pitch < 2 ^ 32
  height_lt : info.height < 2 ^ 32

end FbInfo

namespace Framebuffer

/-- A sum or product of `usize`s. -/
def usize (n : Nat) : Outcome Empty Nat := if n < 2 ^ 64 then .ok n else .panic

/-- `CURSOR_W` -/
abbrev cursorW : Nat := 16

/-- `CURSOR_H` -/
abbrev cursorH : Nat := 24

/-- `CURSOR`: 1 = cyan fill, 2 = dark outline, 3 = white highlight,
0 = transparent. -/
def cursor : List (List Byte) :=
  [[2,0,0,0,0,0,0,0,0,0,0,0,0,0,0,0],
   [2,2,0,0,0,0,0,0,0,0,0,0,0,0,0,0],
   [2,3,2,0,0,0,0,0,0,0,0,0,0,0,0,0],
   [2,3,1,2,0,0,0,0,0,0,0,0,0,0,0,0],
   [2,3,3,1,2,0,0,0,0,0,0,0,0,0,0,0],
   [2,3,3,1,1,2,0,0,0,0,0,0,0,0,0,0],
   [2,3,3,1,1,1,2,0,0,0,0,0,0,0,0,0],
   [2,1,1,1,1,1,1,2,0,0,0,0,0,0,0,0],
   [2,1,1,1,1,1,1,1,2,0,0,0,0,0,0,0],
   [2,1,1,1,1,1,1,1,1,2,0,0,0,0,0,0],
   [2,1,1,1,1,1,1,1,1,1,2,0,0,0,0,0],
   [2,1,1,1,1,1,1,1,1,1,1,2,0,0,0,0],
   [2,1,1,1,1,1,1,1,1,1,1,1,2,0,0,0],
   [2,1,1,1,1,1,1,2,2,2,2,2,2,2,0,0],
   [2,1,1,1,1,2,1,2,0,0,0,0,0,0,0,0],
   [2,1,1,2,2,0,2,1,2,0,0,0,0,0,0,0],
   [2,2,2,0,0,0,0,2,1,2,0,0,0,0,0,0],
   [0,0,0,0,0,0,0,0,2,1,2,0,0,0,0,0],
   [0,0,0,0,0,0,0,0,0,2,1,2,0,0,0,0],
   [0,0,0,0,0,0,0,0,0,0,2,1,2,0,0,0],
   [0,0,0,0,0,0,0,0,0,0,0,2,1,2,0,0],
   [0,0,0,0,0,0,0,0,0,0,0,0,2,1,2,0],
   [0,0,0,0,0,0,0,0,0,0,0,0,0,0,0,0],
   [0,0,0,0,0,0,0,0,0,0,0,0,0,0,0,0]]

/-- `CURSOR[ry][rx]` -/
def cursorCell (ry rx : Nat) : Byte := (cursor.getD ry []).getD rx 0

/-- `C_ACCENT` -/
def cAccent : Rgb := ⟨0x3c, 0xf2, 0xff⟩

/-- The colour of a cell of the pointer, if it has one. -/
def cellColour (cell : Byte) : Option Rgb :=
  if cell = 1 then some cAccent
  else if cell = 2 then some ⟨0x01, 0x06, 0x0e⟩
  else if cell = 3 then some ⟨0xff, 0xff, 0xff⟩
  else none

/-- The three bytes of a colour as the buffer has them. -/
def colourBytes (info : FbInfo) (c : Rgb) : List Byte :=
  if info.bgr then [c.b, c.g, c.r] else [c.r, c.g, c.b]

/-- `put`: a pixel that is not on the screen is left out, and one that is not in
the buffer. -/
def put {n : Nat} (buf : Buf n) (info : FbInfo) (x y : Nat) (c : Rgb) :
    Outcome Empty (Buf n) :=
  if info.width ≤ x ∨ info.height ≤ y then pure buf else do
    let o ← usize (y * info.pitch + x * info.bpp)
    let stop ← usize (o + info.bpp)
    if n < stop then pure buf
    else if info.bpp < 3 then .panic
    else pure (buf.put o (colourBytes info c))

end Framebuffer

open Framebuffer

/-- `struct Display`: what compositing reads of it. -/
structure Display (info : FbInfo) where
  fb : Buf info.len
  scene : Buf info.len
  cursorAt : Option (Nat × Nat)

namespace Display

variable {info : FbInfo}

/-- `init` -/
def init (buffer : Buf info.len) : Display info := ⟨buffer, Buf.zero _, none⟩

/-- One round of `paint_cursor`. -/
def paintCell (cx cy ry : Nat) (fb : Buf info.len) (rx : Nat) : Outcome Empty (Buf info.len) :=
  match cellColour (cursorCell ry rx) with
  | none => pure fb
  | some c => do
      let x ← usize (cx + rx)
      let y ← usize (cy + ry)
      put fb info x y c

/-- `paint_cursor` -/
def paintCursor (d : Display info) : Outcome Empty (Display info) :=
  match d.cursorAt with
  | none => pure d
  | some (cx, cy) => do
      let fb ← (List.range cursorH).foldlM
        (fun fb ry => (List.range cursorW).foldlM (paintCell cx cy ry) fb) d.fb
      pure { d with fb }

/-- One round of `restore_cursor_bg`, in the row `py` of the screen. -/
def restoreCell (scene : Buf info.len) (ox py : Nat) (fb : Buf info.len) (rx : Nat) :
    Outcome Empty (Buf info.len) := do
  let px ← usize (ox + rx)
  if info.width ≤ px then pure fb else do
    let o ← usize (py * info.pitch + px * info.bpp)
    let stop ← usize (o + info.bpp)
    if stop ≤ info.len then pure (fb.put o (scene.slice o info.bpp)) else pure fb

/-- One row of `restore_cursor_bg`. -/
def restoreRow (scene : Buf info.len) (ox oy : Nat) (fb : Buf info.len) (ry : Nat) :
    Outcome Empty (Buf info.len) := do
  let py ← usize (oy + ry)
  if info.height ≤ py then pure fb
  else (List.range cursorW).foldlM (restoreCell scene ox py) fb

/-- `restore_cursor_bg` -/
def restoreCursorBg (d : Display info) (ox oy : Nat) : Outcome Empty (Display info) := do
  let fb ← (List.range cursorH).foldlM (restoreRow d.scene ox oy) d.fb
  pure { d with fb }

/-- `present` -/
def present (d : Display info) (cursor : Nat × Nat) : Outcome Empty (Display info) :=
  paintCursor { d with fb := d.fb.put 0 d.scene.toList, cursorAt := some cursor }

/-- `move_cursor` -/
def moveCursor (d : Display info) (x y : Nat) : Outcome Empty (Display info) :=
  match d.cursorAt with
  | none => paintCursor { d with cursorAt := some (x, y) }
  | some (ox, oy) =>
      if ox = x ∧ oy = y then pure d else do
        let d ← d.restoreCursorBg ox oy
        paintCursor { d with cursorAt := some (x, y) }

/-- A call: a scene drawn and presented, or the pointer moved. -/
inductive Call (info : FbInfo) where
  | present (scene : Buf info.len) (cursor : Nat × Nat)
  | moveCursor (x y : Nat)

/-- One call. -/
def step (d : Display info) : Call info → Outcome Empty (Display info)
  | .present scene cursor => present { d with scene } cursor
  | .moveCursor x y => d.moveCursor x y

/-- Calls in order. -/
def run (calls : List (Call info)) (d : Display info) : Outcome Empty (Display info) :=
  calls.foldlM step d

end Display

end TablesOS
