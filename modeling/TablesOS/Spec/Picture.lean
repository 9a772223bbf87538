import TablesOS.Kernel.Framebuffer

/-!
# What is on the screen

A screen is its pixels: what the padding at the end of a scanline holds is no
part of the picture. `overlaid` is the picture that compositing is for, the
scene with the pointer drawn over it once. A pixel of four bytes keeps the
fourth of the scene where the pointer covers it.
-/

namespace TablesOS

open Framebuffer

/-- A pixel of the screen. -/
structure Pixel (info : FbInfo) where
  x : Nat
  y : Nat
  x_lt : x < info.width
  y_lt : y < info.height

namespace Pixel

variable {info : FbInfo}

/-- Where its bytes start. -/
def offset (p : Pixel info) : Nat := p.y * info.pitch + p.x * info.bpp

/-- Its bytes. -/
def bytes (buf : Buf info.len) (p : Pixel info) : List Byte := buf.slice p.offset info.bpp

end Pixel

/-- The colour of the pointer at `x`, `y` when its tip is at `tip`. -/
def pointerAt (tip : Nat × Nat) (x y : Nat) : Option Rgb :=
  if tip.1 ≤ x ∧ tip.2 ≤ y then cellColour (cursorCell (y - tip.2) (x - tip.1)) else none

/-- The bytes of a pixel with a colour over it. -/
def inked (info : FbInfo) (c : Option Rgb) (px : List Byte) : List Byte :=
  c.elim px fun c => colourBytes info c ++ px.drop 3

/-- The scene with the pointer over it. -/
def overlaid {info : FbInfo} (scene : Buf info.len) (tip : Nat × Nat) (p : Pixel info) :
    List Byte :=
  inked info (pointerAt tip p.x p.y) (p.bytes scene)

namespace Display

variable {info : FbInfo}

/-- What the screen shows is the scene and one pointer. -/
structure Shows (d : Display info) (scene : Buf info.len) (tip : Nat × Nat) : Prop where
  clean : d.scene = scene
  cursorAt : d.cursorAt = some tip
  picture : ∀ p : Pixel info, p.bytes d.fb = overlaid scene tip p

/-- The scene a call presents. -/
def Call.drawn : Call info → Option (Buf info.len)
  | .present scene _ => some scene
  | .moveCursor _ _ => none

/-- Where a call puts the pointer. -/
def Call.position : Call info → Nat × Nat
  | .present _ cursor => cursor
  | .moveCursor x y => (x, y)

/-- The scene presented last. -/
def lastScene (calls : List (Call info)) : Option (Buf info.len) :=
  (calls.filterMap Call.drawn).getLast?

/-- Where the pointer was put last. -/
def lastPosition (calls : List (Call info)) : Option (Nat × Nat) :=
  (calls.map Call.position).getLast?

/-- A pointer at this position has pixels with `usize` coordinates only. -/
def Addressable (tip : Nat × Nat) : Prop :=
  tip.1 + cursorW ≤ 2 ^ 64 ∧ tip.2 + cursorH ≤ 2 ^ 64

end Display

end TablesOS
