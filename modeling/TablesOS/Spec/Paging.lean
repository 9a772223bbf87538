import TablesOS.Base.Memory

/-!
# The address translation of the processor

Four levels of tables of 512 entries in memory, as long mode walks them from the
root. An entry that is not present ends the walk; one with the size bit ends it
with a large page.
-/

namespace TablesOS

namespace Paging

/-- The entry for an address at a level whose entries map `2 ^ bits` bytes each. -/
def entry (m : Mem) (table bits v : Nat) : Nat := m.getLe 8 (table + 8 * (v / 2 ^ bits % 512))

/-- Bit 0 -/
def isPresent (e : Nat) : Prop := e % 2 = 1

/-- Bit 7 -/
def isLarge (e : Nat) : Prop := e / 2 ^ 7 % 2 = 1

instance (e : Nat) : Decidable (isPresent e) := inferInstanceAs (Decidable (_ = _))
instance (e : Nat) : Decidable (isLarge e) := inferInstanceAs (Decidable (_ = _))

/-- The bits of an entry from `bits` up to 51. -/
def frame (e bits : Nat) : Nat := e % 2 ^ 52 / 2 ^ bits * 2 ^ bits

/-- The walk below a table whose entries map `2 ^ (12 + 9 * level)` bytes each. -/
def walk (m : Mem) (v : Nat) : Nat → Nat → Option Nat
  | 0, table =>
      let e := entry m table 12 v
      if isPresent e then some (frame e 12 + v % 2 ^ 12) else none
  | level + 1, table =>
      let bits := 12 + 9 * (level + 1)
      let e := entry m table bits v
      if ¬ isPresent e then none
      else if level < 2 ∧ isLarge e then some (frame e bits + v % 2 ^ bits)
      else walk m v level (frame e 12)

/-- The address that a virtual address stands for. -/
def translate (m : Mem) (root v : Nat) : Option Nat := walk m v 3 root

end Paging

end TablesOS
