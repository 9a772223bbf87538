import TablesOS.Base.Probe
import Mathlib.Data.UInt

/-!
# Discovery for power-off (`acpi.rs`)

From the RSDP over the root table to the FADT, and from there to the `_S5_`
package of the DSDT or an SSDT. Physical memory is what the firmware left in
it; the search only reads it. Addresses are `u64` in the source. Every sum of
one here is of addresses that a check has found to lie below 4 GiB, or of an
RSDP below 1 MiB, so none overflows.
-/

namespace TablesOS

namespace Acpi

open Probe

/-- A computation on physical memory. -/
abbrev Phys (α : Type) := Probe UInt8 α

/-- `PHYS_LIMIT` -/
abbrev physLimit : Nat := 0x100000000

/-- `readable` -/
def readable (pa len : Nat) : Bool := pa ≠ 0 && pa + len ≤ physLimit

/-- `rd_u8` -/
abbrev rdU8 (pa : Nat) : Phys UInt8 := cell pa

/-- `rd_u16`, `rd_u32` and `rd_u64`, by the number of bytes: little-endian. -/
def rd (n pa : Nat) : Phys Nat :=
  (List.range n).foldlM (fun v i => (fun b : UInt8 => v + b.toNat * 256 ^ i) <$> rdU8 (pa + i)) 0

/-- `checksum_ok` -/
def checksumOk (pa len : Nat) : Phys Bool :=
  if readable pa len then do
    let sum ← (List.range len).foldlM (fun sum i => (sum + ·) <$> rdU8 (pa + i)) (0 : UInt8)
    pure (sum == 0)
  else pure false

/-- The bytes at an address are these. -/
def bytesAt (pa : Nat) (bytes : List UInt8) : Phys Bool :=
  bytes.zipIdx.allM fun b => (· == b.1) <$> rdU8 (pa + b.2)

/-! ## The tables -/

/-- `RSDP_SIG`: `RSD PTR ` -/
def rsdpSig : List UInt8 := [0x52, 0x53, 0x44, 0x20, 0x50, 0x54, 0x52, 0x20]

/-- The addresses that `scan_rsdp` looks at: multiples of 16 with 20 bytes to the
end. -/
def places (start stop : Nat) : List Nat :=
  List.range' (start / 16 * 16) ((stop + 16 - (start / 16 * 16 + 20)) / 16) 16

/-- `scan_rsdp` -/
def scanRsdp (start stop : Nat) : Phys (Option Nat) :=
  (places start stop).findM? fun pa => do
    match ← bytesAt pa rsdpSig with
    | true => checksumOk pa 20
    | false => pure false

/-- The two regions of `find_rsdp`. -/
def scanRegions (ebda : Nat) : Phys (Option Nat) :=
  if 0x400 ≤ ebda ∧ ebda < 0xA0000 then do
    match ← scanRsdp ebda (ebda + 0x400) with
    | some p => pure (some p)
    | none => scanRsdp 0xE0000 0x100000
  else scanRsdp 0xE0000 0x100000

/-- `find_rsdp` -/
def findRsdp : Phys (Option Nat) := do
  let segment ← rd 2 0x40E
  scanRegions (segment * 16)

/-- The XSDT of an RSDP of revision 2 or later, if it can be read; the RSDT
otherwise. With it the size of its entries. -/
def rootOf (rsdp : Nat) : Phys (Nat × Nat) := do
  let revision ← rdU8 (rsdp + 15)
  if 2 ≤ revision then do
    let xsdt ← rd 8 (rsdp + 24)
    if readable xsdt 36 then pure (xsdt, 8) else (·, 4) <$> rd 4 (rsdp + 16)
  else (·, 4) <$> rd 4 (rsdp + 16)

/-- The length field of a table that has a readable header. -/
def lengthOf (table : Nat) : Phys Nat :=
  if readable table 36 then rd 4 (table + 4) else pure 0

variable {σ : Type}

/-- One entry of the root table. -/
def visit (f : List UInt8 → Nat → σ → Phys σ) (root entrySize : Nat) (s : σ) (i : Nat) :
    Phys σ := do
  let table ← rd entrySize (root + 36 + i * entrySize)
  if readable table 36 then do
    let s₀ ← rdU8 table
    let s₁ ← rdU8 (table + 1)
    let s₂ ← rdU8 (table + 2)
    let s₃ ← rdU8 (table + 3)
    f [s₀, s₁, s₂, s₃] table s
  else pure s

/-- `for_each_sdt`, with the state of its closure. -/
def forEachSdt (f : List UInt8 → Nat → σ → Phys σ) (s : σ) : Phys σ := do
  match ← findRsdp with
  | none => pure s
  | some rsdp => do
      let root ← rootOf rsdp
      let len ← lengthOf root.1
      if len < 36 || !readable root.1 len then pure s
      else (List.range (min ((len - 36) / root.2) 1024)).foldlM (visit f root.1 root.2) s

/-! ## The FADT -/

/-- `struct Fadt` -/
structure Fadt where
  smiCmd : Nat
  acpiEnable : UInt8
  pm1aCnt : Nat
  pm1bCnt : Nat
  dsdt : Nat
  deriving DecidableEq, Repr

/-- `gas_io_port` -/
def gasIoPort (pa : Nat) : Phys (Option Nat) := do
  let space ← rdU8 pa
  let addr ← rd 8 (pa + 4)
  pure (if space = 1 ∧ addr ≠ 0 ∧ addr ≤ 0xFFFF then some addr else none)

/-- `X_DSDT`, where the table is long enough and it can be read. -/
def xDsdt (pa len dsdt : Nat) : Phys Nat :=
  if 148 ≤ len then (fun x => if readable x 36 then x else dsdt) <$> rd 8 (pa + 140)
  else pure dsdt

/-- A block of the second kind at `off`, where the table is `least` long. -/
def extended (pa len least off cnt : Nat) : Phys Nat :=
  if least ≤ len then (·.getD cnt) <$> gasIoPort (pa + off) else pure cnt

/-- `parse_fadt` -/
def parseFadt (pa : Nat) : Phys Fadt := do
  let len ← rd 4 (pa + 4)
  let smiCmd ← rd 4 (pa + 48)
  let acpiEnable ← rdU8 (pa + 52)
  let pm1a ← rd 4 (pa + 64)
  let pm1b ← rd 4 (pa + 68)
  let dsdt ← rd 4 (pa + 40)
  let dsdt ← xDsdt pa len dsdt
  let pm1aCnt ← extended pa len 184 172 pm1a
  let pm1bCnt ← extended pa len 196 184 pm1b
  pure { smiCmd, acpiEnable, pm1aCnt, pm1bCnt, dsdt }

/-! ## The sleep type -/

/-- `struct S5` -/
structure S5 where
  a : UInt8
  b : UInt8
  deriving DecidableEq, Repr

/-- A sleep type, with the table and the name it was found at. -/
structure Found where
  s5 : S5
  table : Nat
  name : Nat
  deriving DecidableEq, Repr

/-- `read_aml_byte` after a `BytePrefix`. -/
def readAmlConst (q stop : Nat) : Phys (Option UInt8 × Nat) :=
  if stop ≤ q then pure (none, q) else (fun v => (some v, q + 1)) <$> rdU8 q

/-- `read_aml_byte`: the byte, and `q` afterwards. -/
def readAmlByte (q stop : Nat) : Phys (Option UInt8 × Nat) :=
  if stop ≤ q then pure (none, q)
  else do
    let b ← rdU8 q
    readAmlConst (if b = 0x0A then q + 1 else q) stop

/-- `parse_s5_package` from where it has read its first element. -/
def parseSecond (stop : Nat) (r : Option UInt8 × Nat) : Phys (Option S5) :=
  match r.1 with
  | none => pure none
  | some a => (fun r' => some ⟨a, r'.1.getD 0⟩) <$> readAmlByte r.2 stop

/-- `parse_s5_package` -/
def parseS5Package (q stop : Nat) : Phys (Option S5) :=
  if stop ≤ q then pure none
  else do
    let lead ← rdU8 q
    readAmlByte (q + (lead >>> 6).toNat + 2) stop >>= parseSecond stop

/-- `_S5_` -/
def s5Name : List UInt8 := [0x5F, 0x53, 0x35, 0x5F]

/-- `b2` -/
def secondBefore (table p : Nat) : Phys UInt8 :=
  if table + 2 ≤ p then rdU8 (p - 2) else pure 0

/-- `pkg_op` -/
def packageOp (p stop : Nat) : Phys Bool :=
  if p + 4 < stop then (· == 0x12) <$> rdU8 (p + 4) else pure false

/-- One round of the scan: a package that follows the name decides. -/
def s5At (table stop p : Nat) : Phys (Option (Option Found)) := do
  match ← bytesAt p s5Name with
  | false => pure none
  | true => do
      let b1 ← rdU8 (p - 1)
      let b2 ← secondBefore table p
      let pkgOp ← packageOp p stop
      if (b1 == 0x08 || (b1 == 0x5C && b2 == 0x08)) && pkgOp then
        (fun s5 => some (s5.map (⟨·, table, p⟩))) <$> parseS5Package (p + 5) stop
      else pure none

/-- `find_s5` -/
def findS5 (table : Nat) : Phys (Option Found) :=
  if readable table 36 then do
    let len ← rd 4 (table + 4)
    if len < 36 || !readable table len then pure none
    else (·.getD none) <$>
      (List.range' (table + 36) (len - 39)).findSomeM? (s5At table (table + len))
  else pure none

/-! ## The search -/

/-- `FACP` and `SSDT` -/
def facp : List UInt8 := [0x46, 0x41, 0x43, 0x50]

def ssdt : List UInt8 := [0x53, 0x53, 0x44, 0x54]

/-- The closure of `poweroff`: the last FADT, and the first eight SSDTs. -/
def gather (sig : List UInt8) (addr : Nat) (s : Option Fadt × List Nat) :
    Phys (Option Fadt × List Nat) :=
  if sig = facp then (fun fadt => (some fadt, s.2)) <$> parseFadt addr
  else if sig = ssdt ∧ s.2.length < 8 then pure (s.1, s.2 ++ [addr])
  else pure s

/-- What `poweroff` does with the result: the sleep type comes from the DSDT, or from an
SSDT. -/
def sleepType (s : Option Fadt × List Nat) : Phys (Option (Fadt × Option Found)) :=
  match s.1 with
  | none => pure none
  | some fadt => (fun s5 => some (fadt, s5)) <$> (fadt.dsdt :: s.2).findSomeM? findS5

/-- `poweroff` up to where it has the FADT and the sleep type. -/
def search : Phys (Option (Fadt × Option Found)) := forEachSdt gather (none, []) >>= sleepType

end Acpi

end TablesOS
