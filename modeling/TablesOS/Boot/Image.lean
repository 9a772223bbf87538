import TablesOS.Engine.Block

/-!
# The disk image (`main.rs` of the builder)

The builder lays the two boot stages, the kernel and an already formatted volume
onto one image, and writes into the first sector where they are. A slice that
does not fit panics, as an assertion does.
-/

namespace TablesOS

namespace Boot

/-- `STAGE2_LBA` -/
abbrev stage2Lba : Nat := 1

/-- `STAGE2_MAX_SECTORS` -/
abbrev stage2MaxSectors : Nat := 63

/-- `KERNEL_LBA` -/
abbrev kernelLba : Nat := 64

/-- `KERNEL_LOAD` -/
abbrev kernelLoad : Nat := 0x200000

/-- `IMG_SECTORS` -/
def imgSectors : Nat := 64 * 1024 * 1024 / sectorSize

theorem imgSectors_eq : imgSectors = 131072 := rfl

/-- `sectors` -/
def sectors (len : Nat) : Nat := (len + sectorSize - 1) / sectorSize % 2 ^ 32

/-- `align_up` -/
def alignUp (v a : Nat) : Nat := (v + a - 1) / a * a

/-- What goes onto the image, beside the volume. -/
structure Parts where
  stage1 : List Byte
  stage2 : List Byte
  kernel : List Byte
  guid : List Byte
  guid_length : guid.length = 16

namespace Parts

variable (p : Parts)

/-- `s2_secs` -/
def s2Secs : Nat := sectors p.stage2.length

/-- `k_secs` -/
def kSecs : Nat := sectors p.kernel.length

/-- `data_lba` -/
def dataLba : Nat := alignUp (kernelLba + p.kSecs) 2048

end Parts

def imgBytes : Nat := imgSectors * sectorSize

theorem imgBytes_eq : imgBytes = imgSectors * 512 := rfl

abbrev Img := Buf imgBytes

/-- A sector of the image. -/
def Img.sector (img : Img) (lba : Nat) : Sector := fun j => img.get (lba * sectorSize + j.1)

/-- `img[o..o + bs.len()].copy_from_slice(bs)` -/
def place (o : Nat) (bs : List Byte) (img : Img) : Option Img :=
  if o + bs.length ≤ imgBytes then some (img.put o bs) else none

/-- The fields of the header, over stage 1. -/
def patch (p : Parts) (img : Img) : Img :=
  let img := img.putLe 8 0x1BC p.dataLba
  let img := img.putLe 4 0x1C4 stage2Lba
  let img := img.putLe 2 0x1C8 p.s2Secs
  let img := img.putLe 4 0x1CC kernelLba
  let img := img.putLe 4 0x1D0 p.kSecs
  let img := img.putLe 4 0x1D4 kernelLoad
  img.putLe 4 0x1D8 kernelLoad

/-- `main`, up to the finished image; the volume is the snapshot of a store on a
device of `imgSectors - dataLba` sectors. -/
def build (p : Parts) (vol : List Byte) : Option Img := do
  if p.stage1.length ≠ sectorSize then none
  else if stage2MaxSectors < p.s2Secs then none
  else if imgSectors ≤ p.dataLba + 4096 then none
  else
    let img ← place 0 p.stage1 (Buf.zero imgBytes)
    let img ← place 0x1DC p.guid (patch p img)
    let img ← place (stage2Lba * sectorSize) p.stage2 img
    let img ← place (kernelLba * sectorSize) p.kernel img
    if vol.length ≠ imgBytes - p.dataLba * sectorSize then none
    else place (p.dataLba * sectorSize) vol img

end Boot

end TablesOS
