import TablesOS.Base.Decode
import TablesOS.Engine.Value

/-!
# Canonical byte encoding of values and rows (`codec.rs`)

An encoder returns the bytes it appends. A decoder consumes a prefix of the
buffer it is given: the source's `(buf, pos)` is `buf[pos..]` here, and `pos`
moves by what was taken off. Lengths and counts are `u64`s on the wire.
-/

namespace TablesOS

abbrev Dec (α : Type) := Decoder StoreError α

/-- A row: one optional cell per column, `none` for `NULL`. -/
abbrev Row := List (Option Value)

namespace Codec

/-- The loop of `put_uvarint`. Ten groups of seven bits cover a `u64`, so the
first argument never runs out. -/
def putUvarintLoop : Nat → Nat → List Byte
  | 0, _ => []
  | n + 1, v =>
      if v / 128 ≠ 0 then UInt8.ofNat (v % 128 + 128) :: putUvarintLoop n (v / 128)
      else [UInt8.ofNat (v % 128)]

/-- `put_uvarint`: an unsigned LEB128 varint. -/
def putUvarint (v : Nat) : List Byte := putUvarintLoop 10 (v % 2 ^ 64)

/-- The loop of `get_uvarint`. -/
def getUvarintLoop (result shift : Nat) :
    List Byte → Except StoreError (Nat × List Byte)
  | [] => .error (.corrupt "varint eof")
  | b :: rest =>
      if 64 ≤ shift then .error (.corrupt "varint overflow") else
      let result := result ||| ((b.toNat % 128) <<< shift) % 2 ^ 64
      if b.toNat < 128 then .ok (result, rest)
      else getUvarintLoop result (shift + 7) rest

/-- `get_uvarint` -/
def getUvarint : Dec Nat := getUvarintLoop 0 0

/-- `*buf.get(*pos).ok_or(Corrupt(what))?`, advancing `pos`. -/
def getByte (what : String) : Dec Byte
  | [] => .error (.corrupt what)
  | b :: rest => .ok (b, rest)

/-- `put_bytes` -/
def putBytes (b : List Byte) : List Byte := putUvarint b.length ++ b

/-- `get_bytes` -/
def getBytes : Dec (List Byte) := do
  let len ← getUvarint
  fun rest =>
    if len ≤ rest.length then .ok (rest.take len, rest.drop len)
    else .error (.corrupt "bytes eof")

/-- `s.as_bytes()` -/
def strBytes (s : String) : List Byte := s.toUTF8.data.toList

/-- `core::str::from_utf8` -/
def fromUtf8 (b : List Byte) : Option String := String.fromUTF8? ⟨b.toArray⟩

/-- `put_str` -/
def putStr (s : String) : List Byte := putBytes (strBytes s)

/-- `get_str` -/
def getStr : Dec String := do
  let b ← getBytes
  match fromUtf8 b with
  | some s => pure s
  | none => throw (.corrupt "bad utf8")

/-- `put_cell`: `0x00` for `NULL`, otherwise `0x01 tag str`. -/
def putCell : Option Value → List Byte
  | none => [0]
  | some v => 1 :: v.typeOf.tag :: putStr v.display

/-- `get_cell` -/
def getCell : Dec (Option Value) := do
  let present ← getByte "cell eof"
  if present = 0 then pure none else do
    let tag ← getByte "cell tag eof"
    match Ty.fromTag tag with
    | none => throw (.corrupt "bad type tag")
    | some ty =>
        let s ← getStr
        match Value.parse ty s with
        | .ok v => pure (some v)
        | .error _ => throw (.corrupt "undecodable value")

/-- A count, then that many encodings. -/
def putVec {α : Type} (enc : α → List Byte) (xs : List α) : List Byte :=
  putUvarint xs.length ++ xs.flatMap enc

/-- `let n = get_uvarint()?; for _ in 0..n { v.push(d()?); }` -/
def getVec {α : Type} (d : Dec α) : Dec (List α) := do
  let n ← getUvarint
  Decoder.many d n

/-- `encode_row` -/
def encodeRow (cells : Row) : List Byte := putVec putCell cells

/-- `decode_row`: bytes past the last cell are not looked at. -/
def decodeRow (buf : List Byte) : Except StoreError Row := (getVec getCell).run' buf

end Codec

end TablesOS
