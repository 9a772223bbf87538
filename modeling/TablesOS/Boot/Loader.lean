import TablesOS.Base.Fallible
import TablesOS.Base.Memory
import TablesOS.Boot.Image
import TablesOS.Boot.Vesa

/-!
# The boot stages (`stage1.s`, `stage2.s`)

What stage 1 and stage 2 do to the memory, on a firmware that answers as it
likes: reads fail, the A20 line is closed, a BIOS call drops the limits that
unreal mode had cached. Accesses of the code go through the segment limits and
the A20 line; the variables of stage 2 are those of the definitions, and what is
printed is left out but for what the call does to the limits.
-/

namespace TablesOS

namespace Boot

/-! ## The machine -/

/-- `S1`, `S2`, `BOOTINFO`, `BOUNCE`, `PML4` and `KERNEL_DST` -/
abbrev s1 : Nat := 0x7C00
abbrev s2 : Nat := 0x8000
abbrev bootinfo : Nat := 0x7000
abbrev bounce : Nat := 0x10000
abbrev pml4 : Nat := 0x70000
abbrev kernelDst : Nat := 0x200000

/-- `DIAG_SECS`, `CHUNK_SECS` -/
abbrev diagSecs : Nat := 16
abbrev chunkSecs : Nat := 64

/-- What the BIOS and the chipset answer. -/
structure Firmware where
  /-- `DL` -/
  drive : Byte
  /-- What the boot drive holds. -/
  disk : Nat → Sector
  /-- Which extended reads succeed, and what those that do not leave behind. -/
  reads : Nat → Bool
  junk : Nat → List Byte
  /-- Whether the limits of `DS` and `ES` survive a read, a reset and `int 0x10`. -/
  readKeeps : Nat → Bool
  resetKeeps : Nat → Bool
  videoKeeps : Bool
  /-- Whether `int 0x15` opens the A20 line, what port 0x92 reads, and whether a
  write to it does. -/
  a20Bios : Bool
  port92 : Byte
  a20Fast : Bool
  /-- `4F00`, and the two blocks that the VBE calls fill. -/
  vbe : Option Vesa.Bios
  vbeBlocks : List Byte
  /-- The variables of stage 1, in front of the header. -/
  scratch : List Byte

structure Machine where
  mem : Mem
  /-- Whether the A20 line is open. -/
  a20 : Bool
  /-- Whether `DS` and `ES` reach beyond 64 KiB. -/
  big : Bool
  /-- Extended reads so far. -/
  nreads : Nat

/-- How the code ends without a jump into the kernel. -/
inductive Stop where
  | die
  /-- An access beyond a limit. -/
  | fault
  /-- The mode list has no end. -/
  | hang
  /-- What lies at `S2` is not stage 2. -/
  | astray
  deriving DecidableEq, Repr

abbrev LoaderM (α : Type) := Fallible Stop Machine α

/-- The address on the bus: a closed A20 line stays low. -/
def Machine.line (m : Machine) (a : Nat) : Nat :=
  if m.a20 then a else a / 2 ^ 21 * 2 ^ 21 + a % 2 ^ 20

/-- Whether `k` bytes at an address are within the limits of `DS` and `ES`, whose
base is 0. -/
def Machine.reaches (m : Machine) (k a : Nat) : Bool := m.big || decide (a + k ≤ 0x10000)

/-- `ds:[a]`; an aligned word lies on one side of the line. -/
def load (k a : Nat) : LoaderM Nat := fun m =>
  if m.reaches k a then (.ok (m.mem.getLe k (m.line a)), m) else (.error .fault, m)

def store (k a v : Nat) : LoaderM Unit := fun m =>
  if m.reaches k a then (.ok (), { m with mem := m.mem.putLe k (m.line a) v })
  else (.error .fault, m)

/-- A change that the firmware makes. -/
def firmware (f : Machine → Machine) : LoaderM Unit := fun m => (.ok (), f m)

/-- `print`, `emit`: `int 0x10` -/
def print (fw : Firmware) : LoaderM Unit := firmware fun m =>
  { m with big := m.big && fw.videoKeeps }

/-- The bytes of `n` sectors of the boot drive. -/
def Firmware.sectorsAt (fw : Firmware) (lba : Nat) : Nat → List Byte
  | 0 => []
  | n + 1 => (fw.disk lba).toList ++ fw.sectorsAt (lba + 1) n

/-- `int 0x13`, `AH=42h`: whether it succeeded. -/
def extendedRead (fw : Firmware) (lba n buf : Nat) : LoaderM Bool := fun m =>
  let bytes := if fw.reads m.nreads then fw.sectorsAt lba n
    else (fw.junk m.nreads).take (n * sectorSize)
  (.ok (fw.reads m.nreads), { m with
    mem := m.mem.put buf bytes
    big := m.big && fw.readKeeps m.nreads
    nreads := m.nreads + 1 })

/-! ## Stage 1 -/

/-- The BIOS loads the first sector, and stage 1 asks for the next ones; it goes on
whatever came of it. -/
def stage1 (fw : Firmware) : LoaderM Unit := do
  firmware fun m => { m with mem := m.mem.put s1 (fw.disk 0).toList }
  firmware fun m => { m with mem := m.mem.put s1 (fw.scratch.take 0x1B0) }
  print fw
  firmware fun m => { m with mem := m.mem.put s2 (List.replicate (diagSecs * sectorSize) 0xCC) }
  let _ ← extendedRead fw stage2Lba diagSecs s2
  print fw

/-! ## The A20 line -/

/-- `a20_check`: `0000:0500` and `FFFF:0510`, both within their limits. -/
def a20Check : LoaderM Bool := fun m =>
  let at0 := m.line 0x500
  let at1 := m.line 0x100500
  let bl := m.mem at0
  let bh := m.mem at1
  let mem := (m.mem.put at0 [0x00]).put at1 [0xFF]
  let al := mem at0
  (.ok (al ≠ 0xFF), { m with mem := (mem.put at0 [bl]).put at1 [bh] })

/-- The fast method. Bit 0 is never set, and a bit 1 that is set already is not
written again. -/
def fastA20 (fw : Firmware) : LoaderM Unit := firmware fun m =>
  if fw.port92 &&& 2 = 0 then { m with a20 := m.a20 || fw.a20Fast } else m

/-- `a20_enable` -/
def a20Enable (fw : Firmware) : LoaderM Unit := do
  if ← a20Check then pure () else do
  firmware fun m => { m with a20 := m.a20 || fw.a20Bios }
  if ← a20Check then pure () else do
  fastA20 fw
  if ← a20Check then pure () else Fallible.throw .die

/-! ## The kernel -/

/-- `unreal` -/
def unreal : LoaderM Unit := firmware fun m => { m with big := true }

/-- The reset of the disk controller, `AH=00h`. -/
def resetDisk (fw : Firmware) : LoaderM Unit := firmware fun m =>
  { m with big := m.big && fw.resetKeeps m.nreads }

/-- `disk_read`, with the retries that are left. -/
def diskRead (fw : Firmware) (n lba : Nat) : Nat → LoaderM Unit
  | 0 => Fallible.throw .die
  | cx + 1 => do
      if ← extendedRead fw lba n bounce then unreal
      else do
        resetDisk fw
        diskRead fw n lba cx

/-- `.lk_copy`: `ecx` rounds, and `edi` behind them. -/
def lkCopy : Nat → Nat → Nat → LoaderM Nat
  | 0, _, edi => pure edi
  | ecx + 1, esi, edi => do
      let eax ← load 4 esi
      store 4 edi eax
      lkCopy ecx ((esi + 4) % 2 ^ 32) ((edi + 4) % 2 ^ 32)

/-- `.lk_loop` -/
def lkLoop (fw : Firmware) (ebx edx edi : Nat) : LoaderM Unit :=
  if h : edx = 0 then pure () else do
    let ecx := min chunkSecs edx
    diskRead fw ecx ebx 5
    let edi ← lkCopy (ecx * 128) bounce edi
    lkLoop fw ((ebx + ecx) % 2 ^ 32) (edx - ecx) edi
termination_by edx
decreasing_by
  simp only [chunkSecs]
  omega

/-- `load_kernel` -/
def loadKernel (fw : Firmware) : LoaderM Unit := do
  let ebx ← load 4 (s1 + 0x1CC)
  let edx ← load 4 (s1 + 0x1D0)
  lkLoop fw ebx edx kernelDst

/-! ## Video mode, boot information and page tables -/

/-- `vesa_set`; both VBE blocks lie in segment `0x2000`. -/
def vesaMode (fw : Firmware) (fuel : Nat) : LoaderM Vesa.Framebuffer := do
  firmware fun m => { m with
    mem := m.mem.put 0x20000 (fw.vbeBlocks.take 0x300), big := m.big && fw.videoKeeps }
  match fw.vbe with
  | none => Fallible.throw .die
  | some bios =>
      match Vesa.vesaSet bios fuel with
      | none => Fallible.throw .hang
      | some .die => Fallible.throw .die
      | some (.set _ fb) => pure fb

/-- `.cpguid` -/
def cpguid : Nat → Nat → Nat → LoaderM Unit
  | 0, _, _ => pure ()
  | ecx + 1, esi, edi => do
      let al ← load 1 esi
      store 1 edi al
      cpguid ecx (esi + 1) (edi + 1)

/-- `build_bootinfo` -/
def buildBootinfo (fw : Firmware) (fb : Vesa.Framebuffer) : LoaderM Unit := do
  store 4 (bootinfo + 0x00) 0x5342544F
  store 4 (bootinfo + 0x04) fb.w.toNat
  store 4 (bootinfo + 0x08) fb.h.toNat
  store 4 (bootinfo + 0x0C) fb.pitch.toNat
  store 4 (bootinfo + 0x10) fb.addr.toNat
  store 4 (bootinfo + 0x14) 0
  store 1 (bootinfo + 0x18) fb.bpp.toNat
  store 1 (bootinfo + 0x19) fb.fmt.toNat
  let eax ← load 4 (s1 + 0x1BC)
  store 4 (bootinfo + 0x20) eax
  let eax ← load 4 (s1 + 0x1C0)
  store 4 (bootinfo + 0x24) eax
  store 1 (bootinfo + 0x28) fw.drive.toNat
  cpguid 16 (s1 + 0x1DC) (bootinfo + 0x30)

/-- `.bz` -/
def zeroDwords : Nat → Nat → LoaderM Unit
  | 0, _ => pure ()
  | ecx + 1, edi => do
      store 4 edi 0
      zeroDwords ecx (edi + 4)

/-- `.pd`, with the rounds that are left. -/
def pdLoop : Nat → Nat → Nat → LoaderM Unit
  | 0, _, _ => pure ()
  | n + 1, eax, edi => do
      store 4 edi eax
      store 4 (edi + 4) 0
      pdLoop n ((eax + 0x200000) % 2 ^ 32) (edi + 8)

/-- `build_paging`: identity-map 0..4 GiB with 2 MiB pages. -/
def buildPaging : LoaderM Unit := do
  zeroDwords (6 * 4096 / 4) pml4
  store 4 pml4 (0x71000 + 3)
  store 4 (0x71000 + 0x00) (0x72000 + 3)
  store 4 (0x71000 + 0x08) (0x73000 + 3)
  store 4 (0x71000 + 0x10) (0x74000 + 3)
  store 4 (0x71000 + 0x18) (0x75000 + 3)
  pdLoop 2048 0x83 0x72000

/-! ## Stage 2 -/

/-- Stage 2, up to the jump to `KERNEL_DST`. -/
def stage2 (fw : Firmware) (fuel : Nat) : LoaderM Unit := do
  print fw
  a20Enable fw
  print fw
  unreal
  loadKernel fw
  print fw
  let fb ← vesaMode fw fuel
  buildBootinfo fw fb
  buildPaging
  print fw

/-- The jump of stage 1: the code at `S2` runs if it has got there. -/
def jumpStage2 (fw : Firmware) (code : List Byte) (fuel : Nat) : LoaderM Unit := fun m =>
  if m.mem.bytes s2 code.length = code then stage2 fw fuel m else (.error .astray, m)

/-- From the BIOS to the kernel, with the code of stage 2. -/
def boot (fw : Firmware) (code : List Byte) (fuel : Nat) : LoaderM Unit := do
  stage1 fw
  jumpStage2 fw code fuel

end Boot

end TablesOS
