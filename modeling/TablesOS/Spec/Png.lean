import TablesOS.Spec.Deflate

/-!
# PNG files

A picture of 8-bit samples, in one of five colour types, and the ways to write
it down: a filter for each scanline, a DEFLATE stream of the filtered
scanlines, that stream behind its zlib header cut into `IDAT` chunks, and other
chunks around them. A checksum may be anything, and so may what follows the
last chunk.
-/

namespace TablesOS.Png

open Deflate (bitsOf)

/-! ## Pictures -/

/-- The colour types. A palette comes with the alpha values of its entries; an
entry past them is opaque. -/
inductive Colour where
  | grey
  | rgb
  | palette (entries : List (Byte × Byte × Byte)) (alpha : List Byte)
  | greyAlpha
  | rgba

namespace Colour

/-- Samples in a pixel. -/
def samples : Colour → Nat
  | .grey => 1
  | .rgb => 3
  | .palette _ _ => 1
  | .greyAlpha => 2
  | .rgba => 4

/-- The code of the colour type in a header. -/
def code : Colour → Byte
  | .grey => 0
  | .rgb => 2
  | .palette _ _ => 3
  | .greyAlpha => 4
  | .rgba => 6

/-- The pixel of these samples. An index past the palette is black. -/
def pixel (s : Nat → Byte) : Colour → List Byte
  | .grey => [s 0, s 0, s 0, 255]
  | .rgb => [s 0, s 1, s 2, 255]
  | .palette entries alpha =>
      let e := entries.getD (s 0).toNat (0, 0, 0)
      [e.1, e.2.1, e.2.2, alpha.getD (s 0).toNat 255]
  | .greyAlpha => [s 0, s 0, s 0, s 1]
  | .rgba => [s 0, s 1, s 2, s 3]

end Colour

/-- A picture: its samples, pixel by pixel, scanline by scanline. -/
structure Picture where
  width : Nat
  height : Nat
  colour : Colour
  data : List Byte

namespace Picture

variable (p : Picture)

/-- The length of a scanline. -/
def stride : Nat := p.width * p.colour.samples

/-- The picture has pixels, a header can say how many, and its samples are
there. -/
structure Valid : Prop where
  width : 1 ≤ p.width ∧ p.width < 2 ^ 32
  height : 1 ≤ p.height ∧ p.height < 2 ^ 32
  data : p.data.length = p.height * p.stride

/-- Sample `i`. -/
def sample (i : Nat) : Byte := p.data.getD i 0

/-- The pixels. -/
def pixels : List Byte :=
  (List.range (p.width * p.height)).flatMap fun i =>
    p.colour.pixel fun j => p.sample (i * p.colour.samples + j)

/-- The filtered scanlines and the pixels fit in vectors. -/
def Fits : Prop := (p.stride + 1) * p.height < 2 ^ 63 ∧ p.width * p.height * 4 < 2 ^ 63

end Picture

/-! ## Filters -/

inductive Filter where
  | none
  | sub
  | up
  | average
  | paeth

/-- Of `best` and `v`, the one nearer to `target`, or `best`. -/
def nearer (target : Int) (best v : Byte) : Byte :=
  if (target - v.toNat).natAbs < (target - best.toNat).natAbs then v else best

namespace Filter

def code : Filter → Byte
  | .none => 0
  | .sub => 1
  | .up => 2
  | .average => 3
  | .paeth => 4

/-- What the filter takes from a byte: `a` is the byte to the left, `b` the one
above, `c` the one above `a`. Paeth's filter takes the first of `a`, `b` and `c`
that is nearest to `a + b - c`. -/
def predict (a b c : Byte) : Filter → Byte
  | .none => 0
  | .sub => a
  | .up => b
  | .average => UInt8.ofNat ((a.toNat + b.toNat) / 2)
  | .paeth =>
      let target : Int := a.toNat + b.toNat - c.toNat
      nearer target (nearer target a b) c

end Filter

namespace Picture

variable (p : Picture)

/-- The byte at `x` in scanline `y`, filtered. -/
def filtered (f : Filter) (y x : Nat) : Byte :=
  let bpp := p.colour.samples
  let a := if bpp ≤ x then p.sample (y * p.stride + x - bpp) else 0
  let b := if 0 < y then p.sample ((y - 1) * p.stride + x) else 0
  let c := if 0 < y ∧ bpp ≤ x then p.sample ((y - 1) * p.stride + x - bpp) else 0
  p.sample (y * p.stride + x) - f.predict a b c

/-- A filtered scanline. -/
def scanline (f : Filter) (y : Nat) : List Byte :=
  f.code :: (List.range p.stride).map (p.filtered f y)

/-- The filtered scanlines. -/
def scanlines (filters : Nat → Filter) : List Byte :=
  (List.range p.height).flatMap fun y => p.scanline (filters y) y

end Picture

/-! ## Chunks -/

/-- A number in four bytes, the highest first. -/
def beBytes (n : Nat) : List Byte :=
  [UInt8.ofNat (n / 2 ^ 24), UInt8.ofNat (n / 2 ^ 16), UInt8.ofNat (n / 2 ^ 8), UInt8.ofNat n]

def ascii (s : String) : List Byte := s.toList.map fun c => UInt8.ofNat c.toNat

structure Chunk where
  ctype : List Byte
  data : List Byte
  crc : List Byte

namespace Chunk

def bytes (c : Chunk) : List Byte := beBytes c.data.length ++ (c.ctype ++ (c.data ++ c.crc))

structure Fits (c : Chunk) : Prop where
  ctype : c.ctype.length = 4
  data : c.data.length < 2 ^ 32
  crc : c.crc.length = 4

/-- The data of the chunks of one type, in order. -/
def dataOf (ctype : List Byte) (body : List Chunk) : List (List Byte) :=
  (body.filter fun c => c.ctype = ctype).map Chunk.data

end Chunk

/-! ## Files -/

/-- What a file has besides its header: the chunks between the first and the
last, the checksums of these two, and what follows. -/
structure Layout where
  ihdrCrc : List Byte
  body : List Chunk
  iendCrc : List Byte
  trailer : List Byte

namespace Picture

variable (p : Picture)

/-- The data of `IHDR`: 8 bits a sample, not interlaced. -/
def header : List Byte :=
  beBytes p.width ++ (beBytes p.height ++ [8, p.colour.code, 0, 0, 0])

/-- The file. -/
def file (l : Layout) : List Byte :=
  [137, 80, 78, 71, 13, 10, 26, 10] ++ ((Chunk.mk (ascii "IHDR") p.header l.ihdrCrc).bytes ++
    (l.body.flatMap Chunk.bytes ++ ((Chunk.mk (ascii "IEND") [] l.iendCrc).bytes ++ l.trailer)))

/-- The zlib stream: a two-byte header, then a DEFLATE stream of the filtered
scanlines, then anything. -/
def Compressed (zlib : List Byte) : Prop :=
  ∃ (head : List Byte) (deflated : List Byte) (s : Deflate.Stream) (filters : Nat → Filter),
    zlib = head ++ deflated ∧ head.length = 2 ∧ s.Valid ∧ s.bits <+: bitsOf deflated ∧
      s.output = p.scanlines filters

/-- The chunks of a layout are those of a file of the picture: its samples are
in the `IDAT` chunks, and if it has a palette, that is in the one `PLTE` chunk
and the alpha values, if any, are in the one `tRNS` chunk. -/
structure Encoded (l : Layout) : Prop where
  crcs : l.ihdrCrc.length = 4 ∧ l.iendCrc.length = 4
  fits : ∀ c ∈ l.body, c.Fits
  inner : ∀ c ∈ l.body, c.ctype ≠ ascii "IHDR" ∧ c.ctype ≠ ascii "IEND"
  idat : p.Compressed (Chunk.dataOf (ascii "IDAT") l.body).flatten
  palette : ∀ entries alpha, p.colour = .palette entries alpha →
    Chunk.dataOf (ascii "PLTE") l.body = [entries.flatMap fun e => [e.1, e.2.1, e.2.2]] ∧
      (Chunk.dataOf (ascii "tRNS") l.body = [alpha] ∨
        Chunk.dataOf (ascii "tRNS") l.body = [] ∧ alpha = [])

end Picture

end TablesOS.Png
