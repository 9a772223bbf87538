import TablesOS.Base.Bytes
import TablesOS.Base.Fallible
import TablesOS.Base.Medium

/-!
# Errors and block devices (`lib.rs`, `block.rs`)

`BlockDevice` is the trait: everything above it is generic in the device.
`Disk` is the device the proofs run it on, with the two things a real medium
does that the in-memory test device only hints at. Its sectors sit behind a
volatile write cache, and a fault plan says which of its calls report an I/O
error: none of them on a device that works, one of them for a transient fault,
every one from some point on for a power cut. A call that reports an error has
had no effect.
-/

namespace TablesOS

/-- `StoreError`: what every fallible engine operation funnels through. -/
inductive StoreError where
  | io
  | corrupt (what : String)
  | outOfSpace
  | parse (msg : String)
  | nullViolation (column : String)
  | uniqueViolation (column : String)
  | foreignKeyViolation (fk : String)
  | schemaRejected (why : String)
  | notFound (what : String)
  | duplicate (what : String)
  deriving DecidableEq, Repr

/-- `block::SECTOR` -/
abbrev sectorSize : Nat := 512

abbrev Sector := Buf sectorSize

/-- A computation on a device. -/
abbrev DevM (D α : Type) := Fallible StoreError D α

/-- `trait BlockDevice`. A sector number is a `u64`, so there are at most
`2 ^ 64` of them. -/
class BlockDevice (D : Type) where
  sectorCount : D → Nat
  sectorCount_lt : ∀ d, sectorCount d < 2 ^ 64
  readSector : Nat → DevM D Sector
  writeSector : Nat → Sector → DevM D Unit
  flush : DevM D Unit

/-- A medium behind a write cache, with a plan of faults: call number `i`
reports an error when `plan i`. -/
structure Disk where
  sectors : Nat
  sectors_lt : sectors < 2 ^ 64
  medium : Medium Sector
  /-- Calls made so far. -/
  clock : Nat
  plan : Nat → Bool

namespace Disk

/-- What a read of each sector returns. -/
def view (d : Disk) : Nat → Sector := d.medium.view

/-- The device reports no I/O error. -/
def Quiet (d : Disk) : Prop := ∀ i, d.plan i = false

/-- One device call: it reports an error when the plan says so or when the
request is out of range, and takes effect otherwise. -/
def call {α : Type} (inRange : Disk → Bool) (act : Disk → α × Disk) :
    DevM Disk α := fun d =>
  let d' := { d with clock := d.clock + 1 }
  if d.plan d.clock || !inRange d then (.error .io, d') else
    let (a, d'') := act d'
    (.ok a, d'')

instance : BlockDevice Disk where
  sectorCount d := d.sectors
  sectorCount_lt d := d.sectors_lt
  readSector lba := call (fun d => lba < d.sectors) fun d => (d.view lba, d)
  writeSector lba s := call (fun d => lba < d.sectors) fun d =>
    ((), { d with medium := d.medium.write lba s })
  flush := call (fun _ => true) fun d =>
    ((), { d with medium := d.medium.flush })

/-- Attach a medium: nothing cached, the calls counted from zero. -/
def attach (sectors : Nat) (h : sectors < 2 ^ 64) (V : Nat → Sector)
    (plan : Nat → Bool) : Disk :=
  ⟨sectors, h, ⟨V, []⟩, 0, plan⟩

/-- Power is lost at call `n`: it and every later call fail. -/
def cutAt (n : Nat) : Nat → Bool := fun i => n ≤ i

/-- The plan of a device that works. -/
def noFaults : Nat → Bool := fun _ => false

end Disk

end TablesOS
