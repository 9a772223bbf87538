import TablesOS.Kernel.Install
import TablesOS.Kernel.Startup
import TablesOS.Kernel.Stick

/-!
# The start on any boot disk (`main.rs`)

All of `discover_boot_disk`: the ATA primary master, if there is one and it
carries the system id, or else the first USB drive that does. The USB half
starts from the record that the earlier steps of the xHCI pipeline have made,
and probes every mass-storage device on the bus.
-/

namespace TablesOS

namespace Usb

open Pio Store

/-- `probe_mass_storage` on the sticks of the bus. -/
def probeSticks (devices : XhciState) (bus : Sticks) : List MscProbe × Sticks :=
  match onSticksFor (callTransfers * (mscTargets devices).length) devices probeDrives bus with
  | (.ok probes, bus) => (probes, bus)
  | (.error _, bus) => ([], bus)

/-- The USB half of `discover_boot_disk`, on the bus. -/
def discoverStick (dataLba : Nat) (guid : List Byte) (devices : XhciState) (bus : Sticks) :
    Option UsbVolume :=
  let (probes, bus) := probeSticks devices bus
  (discoverBootDisk probes dataLba guid).map fun disk => ⟨disk, devices, bus⟩

/-- `BootDisk` -/
inductive BootVolume where
  | ata (p : Ports)
  | usb (v : UsbVolume)

/-- `discover_boot_disk` -/
def discover (dataLba : Nat) (guid : List Byte) (ata : Option Drive) (devices : XhciState)
    (bus : Sticks) : Option BootVolume :=
  match ata.bind (discoverPorts dataLba guid) with
  | some p => some (.ata p)
  | none => (discoverStick dataLba guid devices bus).map .usb

/-- The identity gate of `kmain` on a USB drive. -/
def isSystemStick (guid : List Byte) (v : UsbVolume) : Option UsbVolume :=
  match UsbVolume.readBootSector v with
  | (.ok mbr, v) => if guidOf mbr.toList = guid then some v else none
  | (.error _, _) => none

/-- The store that the system comes up with. -/
inductive Mounted where
  | ata (pg : Pager Ports)
  | usb (pg : Pager UsbVolume)

/-- The identity gate and the mount of `kmain`. -/
def mountVolume (guid : List Byte) : BootVolume → Option Mounted
  | .ata p => (isSystem guid p).bind fun p =>
      match openStore p with
      | (.ok pg, _) => some (.ata pg)
      | (.error _, _) => none
  | .usb v => (isSystemStick guid v).bind fun v =>
      match openStore v with
      | (.ok pg, _) => some (.usb pg)
      | (.error _, _) => none

/-- `kmain`, up to the UI. -/
def kmain (mem : Mem) (info : Nat) (ata : Option Drive) (devices : XhciState) (bus : Sticks) :
    Option Mounted :=
  let info := BootInfo.read mem info
  if !info.accepted then none
  else (discover info.dataLba info.sysGuid ata devices bus).bind (mountVolume info.sysGuid)

end Usb

end TablesOS
