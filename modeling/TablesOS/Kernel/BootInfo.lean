import TablesOS.Base.Memory

/-!
# The boot information (`main.rs` of the kernel)

The record that `kmain` gets a pointer to, and what it looks at before it goes
on. The layout is that of the C representation.
-/

namespace TablesOS

/-- `BOOT_MAGIC` -/
abbrev bootInfoMagic : Nat := 0x5342544F

/-- `struct BootInfo` -/
structure BootInfo where
  magic : Nat
  fbWidth : Nat
  fbHeight : Nat
  fbPitch : Nat
  fbAddr : Nat
  fbBpp : Nat
  fbFmt : Nat
  dataLba : Nat
  bootDrive : Nat
  sysGuid : List Byte
  deriving DecidableEq, Repr

namespace BootInfo

/-- `&*info` -/
def read (m : Mem) (info : Nat) : BootInfo where
  magic := m.getLe 4 info
  fbWidth := m.getLe 4 (info + 0x04)
  fbHeight := m.getLe 4 (info + 0x08)
  fbPitch := m.getLe 4 (info + 0x0C)
  fbAddr := m.getLe 8 (info + 0x10)
  fbBpp := m.getLe 1 (info + 0x18)
  fbFmt := m.getLe 1 (info + 0x19)
  dataLba := m.getLe 8 (info + 0x20)
  bootDrive := m.getLe 1 (info + 0x28)
  sysGuid := m.bytes (info + 0x30) 16

/-- Neither of the two `FATAL` messages of `kmain`. -/
def accepted (b : BootInfo) : Bool :=
  b.magic == bootInfoMagic &&
    !(b.fbWidth < 1024 || b.fbHeight < 720 || (b.fbBpp != 3 && b.fbBpp != 4) || b.fbAddr == 0)

end BootInfo

end TablesOS
