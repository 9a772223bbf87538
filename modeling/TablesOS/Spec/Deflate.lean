import TablesOS.Base.Bytes
import TablesOS.Base.PrefixCode

/-!
# DEFLATE streams

What RFC 1951 calls a compressed data set, as a list of blocks: the bits it is
written in, the bytes it stands for, and when it is valid. The bits of a byte
come lowest first, numbers come lowest bit first, codewords highest bit first.

A repeated run is copied a byte at a time, so one that overlaps itself repeats
what it has just written.
-/

namespace TablesOS.Deflate

open PrefixCode

/-- The bits of a byte string. -/
def bitsOf (data : List Byte) : List Bool := data.flatMap fun b => lowBits 8 b.toNat

/-! ## Literals and repeated runs -/

/-- The extra bits of length symbol `257 + l`. -/
def lenExtra (l : Nat) : Nat := if l < 8 ∨ l = 28 then 0 else l / 4 - 1

/-- The shortest run of length symbol `257 + l`. -/
def lenBase (l : Nat) : Nat :=
  if l < 8 then 3 + l else if l = 28 then 258 else 3 + (4 + l % 4) * 2 ^ lenExtra l

/-- The extra bits of distance symbol `d`. -/
def distExtra (d : Nat) : Nat := if d < 4 then 0 else d / 2 - 1

/-- The shortest distance of distance symbol `d`. -/
def distBase (d : Nat) : Nat := if d < 4 then 1 + d else 1 + (2 + d % 2) * 2 ^ distExtra d

/-- A literal byte, or a run: length symbol `257 + l` with the extra bits `lx`,
distance symbol `d` with the extra bits `dx`. -/
inductive Item where
  | lit (b : Byte)
  | run (l lx d dx : Nat)

/-- `n` more bytes, each the one that is `dist` bytes back. -/
def again (dist : Nat) : Nat → List Byte → List Byte
  | 0, out => out
  | n + 1, out => again dist n (out ++ [out.getD (out.length - dist) 0])

namespace Item

/-- The bits of an item under a literal code and a distance code. -/
def bits (lit dist : List Nat) : Item → List Bool
  | .lit b => codeword lit b.toNat
  | .run l lx d dx =>
      codeword lit (257 + l) ++ (lowBits (lenExtra l) lx ++
        (codeword dist d ++ lowBits (distExtra d) dx))

/-- The output after the item. -/
def apply (out : List Byte) : Item → List Byte
  | .lit b => out ++ [b]
  | .run l lx d dx => again (distBase d + dx) (lenBase l + lx) out

/-- The codes have its symbols, and a run starts inside the output. -/
def Valid (lit dist : List Nat) (out : List Byte) : Item → Prop
  | .lit b => Coded lit b.toNat
  | .run l lx d dx =>
      (l < 29 ∧ Coded lit (257 + l) ∧ lx < 2 ^ lenExtra l) ∧
        (d < 30 ∧ Coded dist d ∧ dx < 2 ^ distExtra d) ∧ distBase d + dx ≤ out.length

instance (lit dist : List Nat) (out : List Byte) (i : Item) : Decidable (i.Valid lit dist out) :=
  match i with
  | .lit _ => inferInstanceAs (Decidable (Coded _ _))
  | .run _ _ _ _ => inferInstanceAs (Decidable (_ ∧ _))

end Item

/-- The items of a block, then the symbol that ends it. -/
def bodyBits (lit dist : List Nat) (items : List Item) : List Bool :=
  items.flatMap (Item.bits lit dist) ++ codeword lit 256

def BodyValid (lit dist : List Nat) : List Byte → List Item → Prop
  | _, [] => Coded lit 256
  | out, i :: is => i.Valid lit dist out ∧ BodyValid lit dist (i.apply out) is

instance decBodyValid (lit dist : List Nat) :
    (out : List Byte) → (items : List Item) → Decidable (BodyValid lit dist out items)
  | _, [] => inferInstanceAs (Decidable (Coded lit 256))
  | out, i :: is =>
      have := decBodyValid lit dist (i.apply out) is
      inferInstanceAs (Decidable (_ ∧ _))

/-! ## The lengths of a dynamic block -/

/-- A code length, the last length `n` times, or `n` zeros in one of two ways. -/
inductive LenItem where
  | one (l : Nat)
  | last (n : Nat)
  | zeros (n : Nat)
  | manyZeros (n : Nat)

namespace LenItem

def bits (cl : List Nat) : LenItem → List Bool
  | .one l => codeword cl l
  | .last n => codeword cl 16 ++ lowBits 2 (n - 3)
  | .zeros n => codeword cl 17 ++ lowBits 3 (n - 3)
  | .manyZeros n => codeword cl 18 ++ lowBits 7 (n - 11)

def apply (out : List Nat) : LenItem → List Nat
  | .one l => out ++ [l]
  | .last n => out ++ List.replicate n (out.getLastD 0)
  | .zeros n => out ++ List.replicate n 0
  | .manyZeros n => out ++ List.replicate n 0

def Valid (cl : List Nat) (out : List Nat) : LenItem → Prop
  | .one l => l ≤ 15 ∧ Coded cl l
  | .last n => (3 ≤ n ∧ n ≤ 6) ∧ out ≠ [] ∧ Coded cl 16
  | .zeros n => (3 ≤ n ∧ n ≤ 10) ∧ Coded cl 17
  | .manyZeros n => (11 ≤ n ∧ n ≤ 138) ∧ Coded cl 18

instance (cl out : List Nat) (i : LenItem) : Decidable (i.Valid cl out) :=
  match i with
  | .one _ | .last _ | .zeros _ | .manyZeros _ => inferInstanceAs (Decidable (_ ∧ _))

end LenItem

def LengthsValid (cl : List Nat) : List Nat → List LenItem → Prop
  | _, [] => True
  | out, i :: is => i.Valid cl out ∧ LengthsValid cl (i.apply out) is

instance decLengthsValid (cl : List Nat) :
    (out : List Nat) → (items : List LenItem) → Decidable (LengthsValid cl out items)
  | _, [] => inferInstanceAs (Decidable True)
  | out, i :: is =>
      have := decLengthsValid cl (i.apply out) is
      inferInstanceAs (Decidable (_ ∧ _))

/-- The order in which the lengths of the code-length code are sent. -/
def clOrder : List Nat := [16, 17, 18, 0, 8, 7, 9, 6, 10, 5, 11, 4, 12, 3, 13, 2, 14, 1, 15]

/-- The tables of a dynamic block: the lengths of the code-length code, of
which `hclen` are sent, and the items that give the lengths of the `hlit`
literal and length symbols and after them the `hdist` distance symbols. -/
structure Tables where
  hlit : Nat
  hdist : Nat
  hclen : Nat
  cl : List Nat
  items : List LenItem

namespace Tables

variable (t : Tables)

def lengths : List Nat := t.items.foldl LenItem.apply []

def lit : List Nat := t.lengths.take t.hlit

def dist : List Nat := t.lengths.drop t.hlit

def bits : List Bool :=
  lowBits 5 (t.hlit - 257) ++ (lowBits 5 (t.hdist - 1) ++ (lowBits 4 (t.hclen - 4) ++
    ((clOrder.take t.hclen).flatMap (fun o => lowBits 3 (t.cl.getD o 0)) ++
      t.items.flatMap (LenItem.bits t.cl))))

structure Valid : Prop where
  hlit : 257 ≤ t.hlit ∧ t.hlit ≤ 288
  hdist : 1 ≤ t.hdist ∧ t.hdist ≤ 32
  hclen : 4 ≤ t.hclen ∧ t.hclen ≤ 19
  cl : t.cl.length = 19 ∧ Kraft t.cl 7
  sent : ∀ o ∈ clOrder.drop t.hclen, t.cl.getD o 0 = 0
  items : LengthsValid t.cl [] t.items
  total : t.lengths.length = t.hlit + t.hdist
  lit : Kraft t.lit 15
  dist : Kraft t.dist 15

instance : Decidable t.Valid :=
  decidable_of_iff
    (((257 ≤ t.hlit ∧ t.hlit ≤ 288) ∧ (1 ≤ t.hdist ∧ t.hdist ≤ 32) ∧ 4 ≤ t.hclen ∧ t.hclen ≤ 19) ∧
      ((t.cl.length = 19 ∧ Kraft t.cl 7) ∧ ∀ o ∈ clOrder.drop t.hclen, t.cl.getD o 0 = 0) ∧
      (LengthsValid t.cl [] t.items ∧ t.lengths.length = t.hlit + t.hdist) ∧
      Kraft t.lit 15 ∧ Kraft t.dist 15)
    ⟨fun h => ⟨h.1.1, h.1.2.1, h.1.2.2, h.2.1.1, h.2.1.2, h.2.2.1.1, h.2.2.1.2, h.2.2.2.1,
      h.2.2.2.2⟩,
    fun h => ⟨⟨h.hlit, h.hdist, h.hclen⟩, ⟨h.cl, h.sent⟩, ⟨h.items, h.total⟩, h.lit, h.dist⟩⟩

end Tables

/-! ## Blocks -/

/-- The lengths of the fixed literal code. -/
def fixedLit : List Nat :=
  List.replicate 144 8 ++ List.replicate 112 9 ++ List.replicate 24 7 ++ List.replicate 8 8

/-- The lengths of the fixed distance code. -/
def fixedDist : List Nat := List.replicate 32 5

/-- A block: stored bytes behind the bits that fill up a byte, or items under
the fixed codes or under codes of its own. -/
inductive Block where
  | stored (pad : List Bool) (bytes : List Byte)
  | fixed (items : List Item)
  | dynamic (tables : Tables) (items : List Item)

namespace Block

/-- The bits of a block after the one that says if it is the last. -/
def bits : Block → List Bool
  | .stored pad bytes =>
      lowBits 2 0 ++ (pad ++ (lowBits 16 bytes.length ++
        (lowBits 16 (2 ^ 16 - 1 - bytes.length) ++ bitsOf bytes)))
  | .fixed items => lowBits 2 1 ++ bodyBits fixedLit fixedDist items
  | .dynamic t items => lowBits 2 2 ++ (t.bits ++ bodyBits t.lit t.dist items)

def apply (out : List Byte) : Block → List Byte
  | .stored _ bytes => out ++ bytes
  | .fixed items => items.foldl Item.apply out
  | .dynamic _ items => items.foldl Item.apply out

/-- A block may start at this bit of the stream, behind this output. -/
def Valid (off : Nat) (out : List Byte) : Block → Prop
  | .stored pad bytes => pad.length < 8 ∧ (off + 3 + pad.length) % 8 = 0 ∧ bytes.length < 2 ^ 16
  | .fixed items => BodyValid fixedLit fixedDist out items
  | .dynamic t items => t.Valid ∧ BodyValid t.lit t.dist out items

instance (off : Nat) (out : List Byte) (b : Block) : Decidable (b.Valid off out) :=
  match b with
  | .stored _ _ | .dynamic _ _ => inferInstanceAs (Decidable (_ ∧ _))
  | .fixed _ => inferInstanceAs (Decidable (BodyValid _ _ _ _))

end Block

/-! ## Streams -/

/-- Any number of blocks, then the last. -/
structure Stream where
  blocks : List Block
  last : Block

namespace Stream

def blockBits (last : Block) : List Block → List Bool
  | [] => true :: last.bits
  | b :: bs => false :: (b.bits ++ blockBits last bs)

def BlocksValid (last : Block) : Nat → List Byte → List Block → Prop
  | off, out, [] => last.Valid off out
  | off, out, b :: bs =>
      b.Valid off out ∧ BlocksValid last (off + 1 + b.bits.length) (b.apply out) bs

instance decBlocksValid (last : Block) : (off : Nat) → (out : List Byte) → (bs : List Block) →
    Decidable (BlocksValid last off out bs)
  | off, out, [] => inferInstanceAs (Decidable (last.Valid off out))
  | off, out, b :: bs =>
      have := decBlocksValid last (off + 1 + b.bits.length) (b.apply out) bs
      inferInstanceAs (Decidable (_ ∧ _))

/-- The bits of the stream. -/
def bits (s : Stream) : List Bool := blockBits s.last s.blocks

/-- The bytes it decompresses to. -/
def output (s : Stream) : List Byte := s.last.apply (s.blocks.foldl Block.apply [])

def Valid (s : Stream) : Prop := BlocksValid s.last 0 [] s.blocks

instance (s : Stream) : Decidable s.Valid := inferInstanceAs (Decidable (BlocksValid _ _ _ _))

end Stream

end TablesOS.Deflate
