import Mathlib.Data.UInt

/-!
# Video mode selection of the boot loader (`stage2.s`)

`vesa_set` in 16-bit code: an area is a register pair, its comparison goes half
by half, and the mode list is read from a segment, a word at a time up to
`0xFFFF`. The BIOS answers as it always does: its mode list, what it tells of a
mode and which modes it can set are fixed.
-/

namespace TablesOS

namespace Vesa

/-- The fields of a VBE mode information block that are read. -/
structure ModeInfo where
  attributes : UInt16
  pitch : UInt16
  width : UInt16
  height : UInt16
  bpp : UInt8
  redPos : UInt8
  addr : UInt32
  deriving DecidableEq, Repr

/-- What `int 0x10` gives access to. -/
structure Bios where
  /-- The word at an offset of `vm_seg`. -/
  word : UInt16 → UInt16
  /-- `vm_off` -/
  off : UInt16
  /-- `4F01`: whether `AX` comes back as `0x004F`, and the buffer. -/
  info : UInt16 → Bool × ModeInfo
  /-- `4F02`: the same, for `BX`. -/
  set : UInt16 → Bool

/-- `DX:AX` -/
structure Area where
  hi : UInt16
  lo : UInt16
  deriving DecidableEq, Repr

/-- `mul bx` -/
def mul (ax bx : UInt16) : Area :=
  ⟨UInt16.ofNat (ax.toNat * bx.toNat / 65536), UInt16.ofNat (ax.toNat * bx.toNat % 65536)⟩

/-- `ja`, `jb`, `jae`: skip an area that is not below the ceiling. -/
def Area.under (a ceil : Area) : Bool :=
  if ceil.hi < a.hi then false
  else if a.hi < ceil.hi then true
  else !(ceil.lo ≤ a.lo)

/-- `jb`, `ja`, `jbe`: pass over an area that is not above the best. -/
def Area.over (a best : Area) : Bool :=
  if a.hi < best.hi then false
  else if best.hi < a.hi then true
  else !(a.lo ≤ best.lo)

/-- A linear-framebuffer graphics mode of 32 bits per pixel and at least
1024x720. -/
def ModeInfo.fits (i : ModeInfo) : Bool :=
  i.attributes &&& 0x80 ≠ 0 && i.attributes &&& 0x10 ≠ 0 && i.bpp = 32 &&
    !(i.width < 1024) && !(i.height < 720)

def ModeInfo.area (i : ModeInfo) : Area := mul i.width i.height

/-- `best_mode` and `best_area` -/
structure Best where
  mode : UInt16
  area : Area
  deriving DecidableEq, Repr

/-- One mode of a pass. -/
def consider (b : Bios) (ceil : Area) (best : Best) (cx : UInt16) : Best :=
  let (ok, i) := b.info cx
  if ok && i.fits && i.area.under ceil && i.area.over best.area then ⟨cx, i.area⟩ else best

/-- `.vs_scan`, from `vm_idx` on. -/
def scan (b : Bios) (ceil : Area) : Nat → UInt16 → Best → Option Best
  | 0, _, _ => none
  | fuel + 1, idx, best =>
      let cx := b.word (b.off + (idx <<< 1))
      if cx = 0xFFFF then some best
      else scan b ceil fuel (idx + 1) (consider b ceil best cx)

/-- `fb_w`, `fb_h`, `fb_pitch`, `fb_addr`, `fb_bpp` and `fb_fmt` -/
structure Framebuffer where
  w : UInt16
  h : UInt16
  pitch : UInt16
  addr : UInt32
  bpp : UInt8
  fmt : UInt8
  deriving DecidableEq, Repr

/-- Bytes a pixel; the red field at the low end is `0`, anywhere else `1`. -/
def ModeInfo.framebuffer (i : ModeInfo) : Framebuffer :=
  ⟨i.width, i.height, i.pitch, i.addr, i.bpp >>> 3, if i.redPos = 0 then 0 else 1⟩

/-- How `vesa_set` ends: it returns with a mode set, or goes to `die`. -/
inductive Ending where
  | set (mode : UInt16) (fb : Framebuffer)
  | die
  deriving DecidableEq, Repr

/-- `.vs_pass`: a scan, and the set of what it found. Both loops have fuel of their
own. -/
def pass (b : Bios) (scanFuel : Nat) : Nat → Area → Option Ending
  | 0, _ => none
  | fuel + 1, ceil =>
      match scan b ceil scanFuel 0 ⟨0xFFFF, ⟨0, 0⟩⟩ with
      | none => none
      | some best =>
          if best.mode = 0xFFFF then some .die
          else if b.set (best.mode ||| 0x4000) then
            some (.set best.mode (b.info best.mode).2.framebuffer)
          else pass b scanFuel fuel best.area

/-- `vesa_set`, once the BIOS has answered `4F00`. -/
def vesaSet (b : Bios) (fuel : Nat) : Option Ending := pass b fuel fuel ⟨0xFFFF, 0xFFFF⟩

/-- The mode list from index `idx` on. -/
def Bios.Lists (b : Bios) (idx : UInt16) : List UInt16 → Prop
  | [] => b.word (b.off + (idx <<< 1)) = 0xFFFF
  | m :: ms => b.word (b.off + (idx <<< 1)) = m ∧ m ≠ 0xFFFF ∧ b.Lists (idx + 1) ms

end Vesa

end TablesOS
