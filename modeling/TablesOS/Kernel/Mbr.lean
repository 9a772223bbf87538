import TablesOS.Kernel.Install

/-!
# What the first sector of a disk says (`ata.rs`)

`parse_mbr` on any bytes: the custom header, a partition table, or neither. The
sector is read at a time when nothing is known of the disk it came from.
-/

namespace TablesOS

namespace Mbr

/-- `struct Partition` -/
structure Partition where
  bootable : Bool
  typeByte : Byte
  startLba : Nat
  sectors : Nat
  deriving DecidableEq, Repr

/-- The fields of `MbrInfo::TablesOs`. -/
structure Header where
  version : Nat
  dataLocLba : Nat
  stage2Lba : Nat
  stage2Sectors : Nat
  kernelLba : Nat
  kernelSectors : Nat
  kernelLoad : Nat
  kernelEntry : Nat
  sysGuid : List Byte
  deriving DecidableEq, Repr

/-- `enum MbrInfo` -/
inductive Info where
  | tablesOs (h : Header)
  | partitioned (parts : List Partition)
  | blank
  | unknown
  | unreadable
  deriving DecidableEq, Repr

/-- `s[o..o + k]` -/
def field (s : List Byte) (o k : Nat) : List Byte := (s.drop o).take k

/-- `from_le_bytes` of it. -/
def word (s : List Byte) (o k : Nat) : Nat := ofLe (field s o k)

/-- `boot_sig` -/
def hasSignature (s : List Byte) : Bool := s.getD 510 0 == 0x55 && s.getD 511 0 == 0xAA

def header (s : List Byte) : Header where
  version := word s 0x1B8 2
  dataLocLba := word s 0x1BC 8
  stage2Lba := word s 0x1C4 4
  stage2Sectors := word s 0x1C8 2
  kernelLba := word s 0x1CC 4
  kernelSectors := word s 0x1D0 4
  kernelLoad := word s 0x1D4 4
  kernelEntry := word s 0x1D8 4
  sysGuid := field s 0x1DC 16

/-- An entry of the partition table, unless its type is zero. -/
def partition (s : List Byte) (i : Nat) : Option Partition :=
  let off := 0x1BE + i * 16
  if s.getD (off + 4) 0 = 0 then none
  else some ⟨s.getD off 0 == 0x80, s.getD (off + 4) 0, word s (off + 8) 4, word s (off + 12) 4⟩

/-- `parse_mbr` -/
def parse (s : List Byte) : Info :=
  if s.length < 512 then .unreadable
  else if field s 0x1B0 8 = bootMagic ∧ hasSignature s then .tablesOs (header s)
  else if !hasSignature s then
    if s.all (· == 0) then .blank else .unknown
  else
    match (List.range 4).filterMap (partition s) with
    | [] => .unknown
    | parts => .partitioned parts

end Mbr

end TablesOS
