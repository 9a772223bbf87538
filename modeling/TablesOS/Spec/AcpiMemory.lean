import TablesOS.Kernel.Acpi

/-!
# What a memory holds for the power-off

The tables and the packages of a memory, by their layout and without a search:
which addresses hold an RSDP, which tables the root table lists, where an AML
table has its first `_S5_` package, and how long that package says it is.
-/

namespace TablesOS

namespace Acpi

variable (mem : ℕ → UInt8)

/-- The bytes from an address. -/
def bytesFrom (pa n : ℕ) : List UInt8 := (List.range n).map fun i => mem (pa + i)

/-- The little-endian number at an address. -/
def word (n pa : ℕ) : ℕ := (List.range n).foldl (fun v i => v + (mem (pa + i)).toNat * 256 ^ i) 0

/-- The length field of a table. -/
def tableLen (table : ℕ) : ℕ := word mem 4 (table + 4)

/-- One past the last byte of a table. -/
def tableEnd (table : ℕ) : ℕ := table + tableLen mem table

/-- A table with a header, that can be read from one end to the other. -/
def Whole (table : ℕ) : Prop :=
  readable table 36 = true ∧ 36 ≤ tableLen mem table ∧ readable table (tableLen mem table) = true

instance (table : ℕ) : Decidable (Whole mem table) := inferInstanceAs (Decidable (_ ∧ _ ∧ _))

/-! ## The root table -/

/-- The signature and the checksum. -/
def IsRsdp (pa : ℕ) : Prop := bytesFrom mem pa 8 = rsdpSig ∧ (bytesFrom mem pa 20).sum = 0

instance (pa : ℕ) : Decidable (IsRsdp mem pa) := inferInstanceAs (Decidable (_ ∧ _))

/-- The first KiB of the EBDA, if it has a place below 640 KiB. -/
def ebdaPlaces (ebda : ℕ) : List ℕ :=
  if 0x400 ≤ ebda ∧ ebda < 0xA0000 then places ebda (ebda + 0x400) else []

/-- The RSDP, where there is one. -/
def rsdpOf : Option ℕ :=
  (ebdaPlaces (word mem 2 0x40E * 16) ++ places 0xE0000 0x100000).find? fun pa =>
    decide (IsRsdp mem pa)

/-- The root table that an RSDP points at, and the size of its entries. -/
def rootAt (rsdp : ℕ) : ℕ × ℕ :=
  if 2 ≤ mem (rsdp + 15) ∧ readable (word mem 8 (rsdp + 24)) 36 = true then
    (word mem 8 (rsdp + 24), 8)
  else (word mem 4 (rsdp + 16), 4)

/-- The number of entries that are looked at. -/
def rootCount (root : ℕ × ℕ) : ℕ := min ((tableLen mem root.1 - 36) / root.2) 1024

/-- The entries of a root table. -/
def entriesAt (root : ℕ × ℕ) : List ℕ :=
  if Whole mem root.1 then
    (List.range (rootCount mem root)).map fun i => word mem root.2 (root.1 + 36 + i * root.2)
  else []

/-- What the root table lists, as far as it has a readable header. -/
def listed : List ℕ :=
  (rsdpOf mem).elim [] fun rsdp => (entriesAt mem (rootAt mem rsdp)).filter (readable · 36)

/-- The listed tables of a signature. -/
def tables (sig : List UInt8) : List ℕ := (listed mem).filter (bytesFrom mem · 4 = sig)

/-! ## The package -/

/-- The DSDT of a FADT. -/
def dsdtOf (fadt : ℕ) : ℕ :=
  if 148 ≤ tableLen mem fadt ∧ readable (word mem 8 (fadt + 140)) 36 = true then
    word mem 8 (fadt + 140)
  else word mem 4 (fadt + 40)

/-- The AML tables: the DSDT of the last FADT and the first eight SSDTs. -/
def amlTables : List ℕ :=
  (tables mem facp).getLast?.elim [] fun fadt => dsdtOf mem fadt :: (tables mem ssdt).take 8

/-- An `_S5_` name that a `NameOp` introduces and a `PackageOp` follows. -/
def IsS5 (stop p : ℕ) : Prop :=
  bytesFrom mem p 4 = s5Name ∧ (mem (p - 1) = 0x08 ∨ mem (p - 1) = 0x5C ∧ mem (p - 2) = 0x08) ∧
    p + 4 < stop ∧ mem (p + 4) = 0x12

instance (stop p : ℕ) : Decidable (IsS5 mem stop p) := inferInstanceAs (Decidable (_ ∧ _ ∧ _ ∧ _))

/-- The first one of a table. -/
def s5Of (table : ℕ) : Option ℕ :=
  if Whole mem table then
    (List.range' (table + 36) (tableLen mem table - 39)).find? fun p =>
      decide (IsS5 mem (tableEnd mem table) p)
  else none

/-- The first element of the package whose length starts at `q`. -/
def firstElement (q : ℕ) : ℕ := q + (mem q >>> 6).toNat + 2

/-- There is an element at `q`: a byte, or a `BytePrefix` and a byte. -/
def HasElement (q stop : ℕ) : Prop := q < stop ∧ (mem q = 0x0A → q + 1 < stop)

instance (q stop : ℕ) : Decidable (HasElement mem q stop) := inferInstanceAs (Decidable (_ ∧ _))

/-- The bytes that are taken for an element. -/
def elementWidth (q stop : ℕ) : ℕ :=
  if stop ≤ q then 0 else if mem q = 0x0A ∧ q + 1 < stop then 2 else 1

/-- Where the two elements end that follow the package length at `q`. -/
def elementsEnd (q stop : ℕ) : ℕ :=
  let second := firstElement mem q + elementWidth mem (firstElement mem q) stop
  second + elementWidth mem second stop

/-- The length that a package has in the encoding of AML, its length field included: six
bits, or four and up to three bytes more. -/
def pkgLength (q : ℕ) : ℕ :=
  let extra := (mem q >>> 6).toNat
  if extra = 0 then (mem q &&& 0x3F).toNat
  else (mem q &&& 0x0F).toNat + 16 * word mem extra (q + 1)

/-- The name in a table at which its sleep type is found. -/
def sleepName (table : ℕ) : Option ℕ :=
  (s5Of mem table).filter fun p =>
    decide (HasElement mem (firstElement mem (p + 5)) (tableEnd mem table))

/-- The sleep type is found in this table, at this name. -/
def Chosen (table p : ℕ) : Prop :=
  ∃ before after, amlTables mem = before ++ table :: after ∧
    (∀ t ∈ before, sleepName mem t = none) ∧ sleepName mem table = some p

end Acpi

end TablesOS
