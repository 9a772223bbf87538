import TablesOS.Engine.Handle
import TablesOS.Kernel.AtaPorts
import TablesOS.Kernel.BootInfo
import TablesOS.Kernel.UsbDisk

/-!
# From the boot information to the store (`main.rs`)

What `kmain` does with the boot information, on a machine whose boot disk is the
ATA primary master: the checks in front, the search for the disk with the system
id, the identity gate behind it, and the mount. Where it goes on with USB disks
or halts, there is no store here.
-/

namespace TablesOS

open Pio Store Usb

/-- `read_boot_sector` -/
def Pio.Ports.readBootSector : DevM Ports Sector := Ports.onDrive (readAbsolute 0)

/-- The first sector carries the system id. -/
def isSystem (guid : List Byte) (p : Ports) : Option Ports :=
  match Ports.readBootSector p with
  | (.ok mbr, p) => if guidOf mbr.toList = guid then some p else none
  | (.error _, _) => none

/-- `discover_boot_disk`, up to the USB disks. -/
def discoverPorts (dataLba : Nat) (guid : List Byte) (d : Drive) : Option Ports :=
  (probePorts dataLba d).bind (isSystem guid)

/-- `kmain`, up to the UI. -/
def kmain (mem : Mem) (info : Nat) (d : Drive) : Option (Pager Ports) :=
  let info := BootInfo.read mem info
  if !info.accepted then none
  else
    ((discoverPorts info.dataLba info.sysGuid d).bind (isSystem info.sysGuid)).bind fun p =>
      match openStore p with
      | (.ok pg, _) => some pg
      | (.error _, _) => none

end TablesOS
