import TablesOS.Base.Bytes
import TablesOS.Base.Outcome

/-!
# Inflate (`pngdec`)

The bit reader, the Huffman tables and the block loop. The build checks
arithmetic, so a `u16` or `i32` that overflows is a panic, as is an index out
of range. The loops over compressed data get as many rounds as the data has
bits: a round that reads no bit does not exist, so a loop that outlives its
rounds would have read more than there is. A vector that grows finds its memory.
-/

namespace TablesOS.Png

/-- `enum Error` -/
inductive Error where
  | signature
  | truncated
  | badChunk
  | unsupported
  | inflate
  | dimensions
  deriving DecidableEq, Repr

abbrev Res := Outcome Error

/-- `v[i]`: out of range panics. -/
def at! {α : Type} (v : List α) (i : Nat) : Res α := Outcome.unwrap v[i]?

/-- `v[i] = x`: out of range panics. -/
def set! {α : Type} (v : List α) (i : Nat) (x : α) : Res (List α) :=
  if i < v.length then .ok (v.set i x) else .panic

/-- A `u16` sum. -/
def u16 (n : Nat) : Res Nat := if n < 2 ^ 16 then .ok n else .panic

/-- An `i32` sum or difference. -/
def i32 (n : Int) : Res Int := if -2147483648 ≤ n ∧ n < 2147483648 then .ok n else .panic

/-- A `usize` sum or product, where `usize` has 64 bits. -/
def usize (n : Nat) : Res Nat := if n < 2 ^ 64 then .ok n else .panic

/-- `x << 1` on an `i32`, which drops what is shifted out. -/
def shl1 (x : Int) : Int := (2 * x + 2147483648) % 4294967296 - 2147483648

/-! ## Bits -/

/-- `struct BitReader` -/
structure BitReader where
  data : List Byte
  pos : Nat
  bitbuf : Nat
  bitcnt : Nat

abbrev BitM := StateT BitReader Res

/-- `return Err(e)` -/
def fail {α : Type} (e : Error) : BitM α := fun _ => .err e

/-- A loop that goes on for ever. -/
def diverge {α : Type} : BitM α := fun _ => .diverge

namespace BitReader

/-- `BitReader::new` -/
def new (data : List Byte) : BitReader := ⟨data, 0, 0, 0⟩

/-- The lowest bit of `bitbuf`. -/
def shift (br : BitReader) : Nat × BitReader :=
  (br.bitbuf &&& 1, { br with bitbuf := br.bitbuf >>> 1, bitcnt := br.bitcnt - 1 })

/-- `bit` -/
def bit : BitM Nat := fun br =>
  if br.bitcnt = 0 then
    if br.data.length ≤ br.pos then .err .inflate else do
      let b ← at! br.data br.pos
      .ok { br with bitbuf := b.toNat, pos := br.pos + 1, bitcnt := 8 }.shift
  else .ok br.shift

/-- The loop of `bits`. -/
def bitsLoop : Nat → Nat → Nat → BitM Nat
  | 0, _, v => pure v
  | n + 1, i, v => do
      let b ← bit
      bitsLoop n (i + 1) (v ||| b <<< i)

/-- `bits` -/
def bits (n : Nat) : BitM Nat := bitsLoop n 0 0

/-- `align` -/
def align (br : BitReader) : BitReader := { br with bitcnt := 0 }

end BitReader

/-! ## Huffman tables -/

/-- `struct Huffman` -/
structure Huffman where
  counts : List Nat
  symbols : List Nat

namespace Huffman

/-- `v[i] += n`, on `u16`s. -/
def addAt (v : List Nat) (i n : Nat) : Res (List Nat) := do
  let x ← at! v i
  let y ← u16 (x + n)
  set! v i y

/-- The first loop of `build`. -/
def countLengths : List Nat → List Nat → Res (List Nat)
  | [], counts => .ok counts
  | l :: ls, counts => do
      let counts ← addAt counts l 1
      countLengths ls counts

/-- The second loop of `build`: where the symbols of each length start. -/
def startOffs (counts : List Nat) : List Nat → Nat → List Nat → Res (List Nat)
  | [], _, offs => .ok offs
  | i :: is, sum, offs => do
      let offs ← set! offs i sum
      let c ← at! counts i
      let sum ← u16 (sum + c)
      startOffs counts is sum offs

/-- The third loop of `build`. -/
def place : List Nat → Nat → List Nat → List Nat → Res (List Nat)
  | [], _, _, symbols => .ok symbols
  | l :: ls, sym, offs, symbols =>
      if l = 0 then place ls (sym + 1) offs symbols else do
        let o ← at! offs l
        let symbols ← set! symbols o (sym % 2 ^ 16)
        let offs ← addAt offs l 1
        place ls (sym + 1) offs symbols

/-- `Huffman::build` -/
def build (lengths : List Nat) : Res Huffman := do
  let counts ← countLengths lengths (List.replicate 16 0)
  let counts ← set! counts 0 0
  let offs ← startOffs counts (List.range' 1 15) 0 (List.replicate 16 0)
  let symbols ← place lengths 0 offs (List.replicate lengths.length 0)
  .ok ⟨counts, symbols⟩

/-- The loop of `decode`, over the lengths that are left; 15 bits at most go
into `code`. An index below 0 is a huge `usize`, which `get` does not find. -/
def decodeLoop (h : Huffman) : List Nat → Nat → Int → Int → BitM Nat
  | [], _, _, _ => fail .inflate
  | len :: lens, code, first, index => do
      let b ← BitReader.bit
      let code := code ||| b
      let count ← (at! h.counts len : Res Nat)
      let d ← i32 (code - first)
      if d < count then do
        let i ← i32 (index + d)
        if i < 0 then fail .inflate
        else liftM (Outcome.okOr Error.inflate h.symbols[i.toNat]?)
      else do
        let index ← i32 (index + count)
        let first ← i32 (first + count)
        decodeLoop h lens (code <<< 1) (shl1 first) index

/-- `Huffman::decode` -/
def decode (h : Huffman) : BitM Nat := decodeLoop h (List.range' 1 15) 0 0 0

end Huffman

/-! ## The tables of the format -/

/-- `LEN_BASE` -/
def lenBase : List Nat :=
  [3, 4, 5, 6, 7, 8, 9, 10, 11, 13, 15, 17, 19, 23, 27, 31, 35, 43, 51, 59, 67, 83, 99, 115, 131,
    163, 195, 227, 258]

/-- `LEN_EXTRA` -/
def lenExtra : List Nat :=
  [0, 0, 0, 0, 0, 0, 0, 0, 1, 1, 1, 1, 2, 2, 2, 2, 3, 3, 3, 3, 4, 4, 4, 4, 5, 5, 5, 5, 0]

/-- `DIST_BASE` -/
def distBase : List Nat :=
  [1, 2, 3, 4, 5, 7, 9, 13, 17, 25, 33, 49, 65, 97, 129, 193, 257, 385, 513, 769, 1025, 1537,
    2049, 3073, 4097, 6145, 8193, 12289, 16385, 24577]

/-- `DIST_EXTRA` -/
def distExtra : List Nat :=
  [0, 0, 0, 0, 1, 1, 2, 2, 3, 3, 4, 4, 5, 5, 6, 6, 7, 7, 8, 8, 9, 9, 10, 10, 11, 11, 12, 12, 13,
    13]

/-- The code lengths of `fixed_lit`. -/
def fixedLitLengths : List Nat :=
  (List.range 288).map fun i =>
    if i ≤ 143 then 8 else if i ≤ 255 then 9 else if i ≤ 279 then 7 else 8

/-- `fixed_lit` -/
def fixedLit : Res Huffman := Huffman.build fixedLitLengths

/-- `fixed_dist` -/
def fixedDist : Res Huffman := Huffman.build (List.replicate 32 5)

/-- `ORDER` -/
def order : List Nat := [16, 17, 18, 0, 8, 7, 9, 6, 10, 5, 11, 4, 12, 3, 13, 2, 14, 1, 15]

/-! ## Dynamic tables -/

/-- The loop that reads the lengths of the code-length code. -/
def readCl : List Nat → List Nat → BitM (List Nat)
  | [], cl => pure cl
  | o :: os, cl => do
      let v ← BitReader.bits 3
      let cl ← set! cl o v
      readCl os cl

/-- One of the three repeat loops: `rep` times the length `v`. -/
def repeatLength (total v : Nat) : Nat → List Nat → Nat → Res (List Nat × Nat)
  | 0, lengths, i => .ok (lengths, i)
  | rep + 1, lengths, i =>
      if total ≤ i then .err .inflate else do
        let lengths ← set! lengths i v
        repeatLength total v rep lengths (i + 1)

/-- The loop that reads the code lengths. Every round writes one or fails, so
`total` rounds are enough. -/
def readLengths (clHuff : Huffman) (total : Nat) : Nat → List Nat → Nat → BitM (List Nat)
  | 0, lengths, i => if i < total then diverge else pure lengths
  | fuel + 1, lengths, i =>
      if i < total then do
        let sym ← clHuff.decode
        if sym ≤ 15 then do
          let lengths ← set! lengths i sym
          readLengths clHuff total fuel lengths (i + 1)
        else if sym = 16 then
          if i = 0 then fail .inflate else do
            let prev ← at! lengths (i - 1)
            let rep ← BitReader.bits 2
            let (lengths, i) ← repeatLength total prev (3 + rep) lengths i
            readLengths clHuff total fuel lengths i
        else if sym = 17 then do
          let rep ← BitReader.bits 3
          let (lengths, i) ← repeatLength total 0 (3 + rep) lengths i
          readLengths clHuff total fuel lengths i
        else if sym = 18 then do
          let rep ← BitReader.bits 7
          let (lengths, i) ← repeatLength total 0 (11 + rep) lengths i
          readLengths clHuff total fuel lengths i
        else fail .inflate
      else pure lengths

/-- `read_dynamic` -/
def readDynamic : BitM (Huffman × Huffman) := do
  let a ← BitReader.bits 5
  let hlit := a + 257
  let b ← BitReader.bits 5
  let hdist := b + 1
  let c ← BitReader.bits 4
  let hclen := c + 4
  let cl ← readCl (order.take hclen) (List.replicate 19 0)
  let clHuff ← Huffman.build cl
  let total := hlit + hdist
  let lengths ← readLengths clHuff total total (List.replicate total 0) 0
  let lit ← Huffman.build (lengths.take hlit)
  let dist ← Huffman.build (lengths.drop hlit)
  pure (lit, dist)

/-! ## Blocks -/

/-- The copy loop of a match. -/
def copyLoop (start : Nat) : Nat → Nat → List Byte → Res (List Byte)
  | 0, _, out => .ok out
  | n + 1, k, out => do
      let b ← at! out (start + k)
      copyLoop start n (k + 1) (out ++ [b])

/-- `inflate_block` -/
def inflateBlock (lit dist : Huffman) : Nat → List Byte → BitM (List Byte)
  | 0, _ => diverge
  | fuel + 1, out => do
      let sym ← lit.decode
      if sym = 256 then pure out
      else if sym < 256 then inflateBlock lit dist fuel (out ++ [UInt8.ofNat sym])
      else do
        let s := sym - 257
        if lenBase.length ≤ s then fail .inflate else do
          let base ← at! lenBase s
          let extra ← at! lenExtra s
          let more ← BitReader.bits extra
          let len := base + more
          let dsym ← dist.decode
          if distBase.length ≤ dsym then fail .inflate else do
            let base ← at! distBase dsym
            let extra ← at! distExtra dsym
            let more ← BitReader.bits extra
            let distance := base + more
            if distance = 0 ∨ out.length < distance then fail .inflate else do
              let out ← copyLoop (out.length - distance) len 0 out
              inflateBlock lit dist fuel out

/-- A stored block. -/
def storedBlock (out : List Byte) : BitM (List Byte) := fun br => do
  let br := br.align
  let four ← usize (br.pos + 4)
  if br.data.length < four then .err .inflate else do
    let lo ← at! br.data br.pos
    let hi ← at! br.data (br.pos + 1)
    let len := lo.toNat ||| hi.toNat <<< 8
    let br := { br with pos := four } -- LEN + NLEN
    let fin ← usize (br.pos + len)
    if br.data.length < fin then .err .inflate
    else .ok (out ++ (br.data.drop br.pos).take len, { br with pos := fin })

/-- `match btype` -/
def blockOf (rounds btype : Nat) (out : List Byte) : BitM (List Byte) :=
  if btype = 0 then storedBlock out
  else if btype = 1 then do
    let lit ← fixedLit
    let dist ← fixedDist
    inflateBlock lit dist rounds out
  else if btype = 2 then do
    let (lit, dist) ← readDynamic
    inflateBlock lit dist rounds out
  else fail .inflate

/-- The loop of `inflate`. -/
def inflateLoop (rounds : Nat) : Nat → List Byte → BitM (List Byte)
  | 0, _ => diverge
  | fuel + 1, out => do
      let bfinal ← BitReader.bit
      let btype ← BitReader.bits 2
      let out ← blockOf rounds btype out
      if bfinal = 1 then pure out else inflateLoop rounds fuel out

/-- `inflate` -/
def inflate (data : List Byte) : Res (List Byte) := do
  let rounds := 8 * data.length + 1
  let (out, _) ← inflateLoop rounds rounds [] (.new data)
  .ok out

end TablesOS.Png
