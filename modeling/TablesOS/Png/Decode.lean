import TablesOS.Png.Inflate

/-!
# The PNG decoder (`pngdec`)

Chunks, checks on the header, the scanline filters, and the expansion to RGBA.
A `vec![0; n]` of more than `isize::MAX` bytes is a capacity overflow, which is
a panic. The chunk loop gets one round for each byte of the file, and each of
its rounds passes at least twelve.
-/

namespace TablesOS.Png

/-- `struct Image` -/
structure Image where
  width : Nat
  height : Nat
  rgba : List Byte
  deriving DecidableEq, Repr

/-- `&v[a..b]` -/
def range! (v : List Byte) (a b : Nat) : Res (List Byte) :=
  if a ≤ b ∧ b ≤ v.length then .ok ((v.drop a).take (b - a)) else .panic

/-- `vec![0u8; n]` -/
def zeroed (n : Nat) : Res (List Byte) :=
  if n < 2 ^ 63 then .ok (List.replicate n 0) else .panic

/-- `be32` -/
def be32 (b : List Byte) : Res Nat := do
  let b0 ← at! b 0
  let b1 ← at! b 1
  let b2 ← at! b 2
  let b3 ← at! b 3
  .ok (b0.toNat * 2 ^ 24 + b1.toNat * 2 ^ 16 + b2.toNat * 2 ^ 8 + b3.toNat)

/-- `paeth` -/
def paeth (a b c : Int) : Int :=
  let p := a + b - c
  let pa := (p - a).natAbs
  let pb := (p - b).natAbs
  let pc := (p - c).natAbs
  if pa ≤ pb ∧ pa ≤ pc then a else if pb ≤ pc then b else c

/-- `SIG` -/
def sig : List Byte := [137, 80, 78, 71, 13, 10, 26, 10]

/-- `b"IHDR"`, and the four other chunk types that `decode` knows. -/
def tIHDR : List Byte := [73, 72, 68, 82]
def tPLTE : List Byte := [80, 76, 84, 69]
def tTRNS : List Byte := [116, 82, 78, 83]
def tIDAT : List Byte := [73, 68, 65, 84]
def tIEND : List Byte := [73, 69, 78, 68]

/-! ## Chunks -/

/-- The variables that the chunk loop fills. -/
structure Chunks where
  width : Nat
  height : Nat
  bitDepth : Byte
  colorType : Byte
  interlace : Byte
  palette : List (List Byte)
  trns : List Byte
  idat : List Byte

def Chunks.empty : Chunks := ⟨0, 0, 0, 0, 0, [], [], []⟩

/-- `chunks_exact(3)`: what is left over at the end is dropped. -/
def triples : List Byte → List (List Byte)
  | r :: g :: b :: rest => [r, g, b] :: triples rest
  | _ => []

/-- The arm of `IHDR`. -/
def ihdr (s : Chunks) (len : Nat) (data : List Byte) : Res Chunks :=
  if len < 13 then .err .badChunk else do
    let w ← range! data 0 4
    let width ← be32 w
    let h ← range! data 4 8
    let height ← be32 h
    let bitDepth ← at! data 8
    let colorType ← at! data 9
    let interlace ← at! data 12
    .ok { s with width, height, bitDepth, colorType, interlace }

/-- `match ctype`: the chunks so far, and if this one ends the loop. -/
def chunk (s : Chunks) (ctype : List Byte) (len : Nat) (data : List Byte) : Res (Chunks × Bool) :=
  if ctype = tIHDR then do
    let s ← ihdr s len data
    .ok (s, false)
  else if ctype = tPLTE then .ok ({ s with palette := triples data }, false)
  else if ctype = tTRNS then .ok ({ s with trns := data }, false)
  else if ctype = tIDAT then .ok ({ s with idat := s.idat ++ data }, false)
  else if ctype = tIEND then .ok (s, true)
  else .ok (s, false)

/-- The chunk loop. -/
def walk (bytes : List Byte) : Nat → Nat → Chunks → Res Chunks
  | 0, _, _ => .diverge
  | fuel + 1, pos, s => do
      let dstart ← usize (pos + 8)
      if bytes.length < dstart then .err .truncated else do
        let four ← range! bytes pos (pos + 4)
        let len ← be32 four
        let ctype ← range! bytes (pos + 4) (pos + 8)
        let past ← usize (dstart + len + 4)
        if bytes.length < past then .err .truncated else do
          let data ← range! bytes dstart (dstart + len)
          let (s, last) ← chunk s ctype len data
          if last then .ok s else walk bytes fuel past s -- data + 4-byte CRC

/-! ## Filters -/

/-- `buf[y * stride + x - back]` -/
def pixelAt (buf : List Byte) (stride y x back : Nat) : Res Byte := do
  let row ← usize (y * stride)
  let i ← usize (row + x)
  at! buf (i - back)

/-- `if c { buf[y * stride + x - back] } else { 0 }` -/
def pixelIf (c : Prop) [Decidable c] (buf : List Byte) (stride y x back : Nat) : Res Byte :=
  if c then pixelAt buf stride y x back else .ok 0

/-- `match filter` -/
def unfiltered (filter : Byte) (rb a b c : Int) : Res Int :=
  if filter = 0 then .ok rb
  else if filter = 1 then .ok (rb + a)
  else if filter = 2 then .ok (rb + b)
  else if filter = 3 then .ok (rb + (a + b) / 2)
  else if filter = 4 then .ok (rb + paeth a b c)
  else .err .unsupported

/-- `for x in 0..stride`, with `n` rounds left. -/
def unfilterRow (bpp stride y : Nat) (filter : Byte) (row : List Byte) :
    Nat → Nat → List Byte → Res (List Byte)
  | 0, _, img => .ok img
  | n + 1, x, img => do
      let rb ← at! row x
      let a ← pixelIf (bpp ≤ x) img stride y x bpp
      let b ← pixelIf (0 < y) img stride (y - 1) x 0
      let c ← pixelIf (0 < y ∧ bpp ≤ x) img stride (y - 1) x bpp
      let v ← unfiltered filter rb.toNat a.toNat b.toNat c.toNat
      let start ← usize (y * stride)
      let i ← usize (start + x)
      let img ← set! img i (UInt8.ofNat (v % 256).toNat)
      unfilterRow bpp stride y filter row n (x + 1) img

/-- `for y in 0..height`, with `n` rounds left. -/
def unfilter (raw : List Byte) (bpp stride : Nat) : Nat → Nat → List Byte → Res (List Byte)
  | 0, _, img => .ok img
  | n + 1, y, img => do
      let start ← usize (y * (stride + 1))
      let filter ← at! raw start
      let first ← usize (start + 1)
      let past ← usize (first + stride)
      let row ← range! raw first past
      let img ← unfilterRow bpp stride y filter row stride 0 img
      unfilter raw bpp stride n (y + 1) img

/-! ## Expansion -/

/-- `img[i * k + j]` -/
def sample (img : List Byte) (i k j : Nat) : Res Byte := do
  let m ← usize (i * k)
  let n ← usize (m + j)
  at! img n

/-- The colour and alpha of pixel `i`. -/
def expandPixel (colorType : Byte) (palette : List (List Byte)) (trns img : List Byte) (i : Nat) :
    Res (List Byte) :=
  if colorType = 0 then do
    let v ← at! img i
    .ok [v, v, v, 255]
  else if colorType = 2 then do
    let r ← sample img i 3 0
    let g ← sample img i 3 1
    let b ← sample img i 3 2
    .ok [r, g, b, 255]
  else if colorType = 3 then do
    let idx ← at! img i
    let p := (palette[idx.toNat]?).getD [0, 0, 0]
    let al := (trns[idx.toNat]?).getD 255
    let r ← at! p 0
    let g ← at! p 1
    let b ← at! p 2
    .ok [r, g, b, al]
  else if colorType = 4 then do
    let v ← sample img i 2 0
    let al ← sample img i 2 1
    .ok [v, v, v, al]
  else if colorType = 6 then do
    let r ← sample img i 4 0
    let g ← sample img i 4 1
    let b ← sample img i 4 2
    let al ← sample img i 4 3
    .ok [r, g, b, al]
  else .panic

/-- The four stores of a pixel, from `rgba[i * 4 + j]` on. -/
def putPixel (i : Nat) : List Byte → Nat → List Byte → Res (List Byte)
  | [], _, rgba => .ok rgba
  | v :: vs, j, rgba => do
      let m ← usize (i * 4)
      let n ← usize (m + j)
      let rgba ← set! rgba n v
      putPixel i vs (j + 1) rgba

/-- `for i in 0..pixels`, with `n` rounds left. -/
def expand (colorType : Byte) (palette : List (List Byte)) (trns img : List Byte) :
    Nat → Nat → List Byte → Res (List Byte)
  | 0, _, rgba => .ok rgba
  | n + 1, i, rgba => do
      let px ← expandPixel colorType palette trns img i
      let rgba ← putPixel i px 0 rgba
      expand colorType palette trns img n (i + 1) rgba

/-! ## The whole file -/

/-- `match color_type` -/
def channels (colorType : Byte) : Option Nat :=
  if colorType = 0 then some 1
  else if colorType = 2 then some 3
  else if colorType = 3 then some 1
  else if colorType = 4 then some 2
  else if colorType = 6 then some 4
  else none

/-- `checked_mul` -/
def checkedMul (a b : Nat) : Option Nat := if a * b < 2 ^ 64 then some (a * b) else none

/-- `decode` from the end of the chunk loop on. -/
def picture (s : Chunks) : Res Image :=
  if s.width = 0 ∨ s.height = 0 then .err .dimensions
  else if s.bitDepth ≠ 8 ∨ s.interlace ≠ 0 then .err .unsupported
  else do
    let channels ← Outcome.okOr Error.unsupported (channels s.colorType)
    if s.idat.length < 2 then .err .truncated else do
      -- Guard against absurd dimensions overflowing the allocation math.
      let pixels ← Outcome.okOr Error.dimensions (checkedMul s.width s.height)
      let stride ← Outcome.okOr Error.dimensions (checkedMul s.width channels)
      let raw ← inflate (s.idat.drop 2) -- skip the 2-byte zlib header
      let line ← usize (stride + 1)
      let need ← usize (line * s.height)
      if raw.length < need then .err .inflate else do
        let size ← usize (stride * s.height)
        let img ← zeroed size
        let img ← unfilter raw channels stride s.height 0 img
        let size ← usize (pixels * 4)
        let rgba ← zeroed size
        let rgba ← expand s.colorType s.palette s.trns img pixels 0 rgba
        .ok ⟨s.width, s.height, rgba⟩

/-- `decode` -/
def decode (bytes : List Byte) : Res Image :=
  if bytes.length < 8 ∨ bytes.take 8 ≠ sig then .err .signature
  else do
    let s ← walk bytes (bytes.length + 1) 8 .empty
    picture s

end TablesOS.Png
