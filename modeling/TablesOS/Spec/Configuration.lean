import TablesOS.Kernel.Descriptors

/-!
# Configuration descriptors as a device sends them

A header and behind it descriptors one after the other, each of which starts
with its own length and type. A descriptor may be longer than the fields it is
known to have: what is behind them belongs to a later revision, and the next
descriptor is where the length says.
-/

namespace TablesOS

namespace Usb

namespace Spec

/-- A descriptor: length, type and the rest. -/
def record (type : Byte) (rest : List Byte) : List Byte :=
  UInt8.ofNat (rest.length + 2) :: type :: rest

structure InterfaceDescriptor where
  number : Byte
  altSetting : Byte
  numEndpoints : Byte
  cls : Byte
  subclass : Byte
  protocol : Byte
  iInterface : Byte
  extra : List Byte
  short : 9 + extra.length < 256

def InterfaceDescriptor.bytes (d : InterfaceDescriptor) : List Byte :=
  record 4 ([d.number, d.altSetting, d.numEndpoints, d.cls, d.subclass, d.protocol,
    d.iInterface] ++ d.extra)

structure EndpointDescriptor where
  address : Byte
  attributes : Byte
  maxPacketSize : UInt16
  interval : Byte
  extra : List Byte
  short : 7 + extra.length < 256

def EndpointDescriptor.bytes (d : EndpointDescriptor) : List Byte :=
  record 5 ([d.address, d.attributes] ++ leBytes 2 d.maxPacketSize.toNat ++ [d.interval] ++
    d.extra)

/-- What an endpoint descriptor says: bit 7 of the address is the direction,
the low four bits are the number, the low two bits of the attributes the
transfer type, and the low eleven bits of the packet size the size. -/
def EndpointDescriptor.denoted (d : EndpointDescriptor) : Endpoint where
  address := d.address
  directionIn := d.address.toNat.testBit 7
  number := UInt8.ofNat (d.address.toNat % 2 ^ 4)
  transferType := UInt8.ofNat (d.attributes.toNat % 2 ^ 2)
  maxPacketSize := d.maxPacketSize.toNat % 2 ^ 11
  interval := d.interval

/-- A descriptor of any other type: of a class, a vendor, a companion. -/
structure OtherDescriptor where
  type : Byte
  rest : List Byte
  noInterface : type ≠ 4
  noEndpoint : type ≠ 5
  short : 2 + rest.length < 256

def OtherDescriptor.bytes (d : OtherDescriptor) : List Byte := record d.type d.rest

/-- What may stand behind an interface descriptor. -/
inductive Item where
  | endpoint (d : EndpointDescriptor)
  | other (d : OtherDescriptor)

def Item.bytes : Item → List Byte
  | endpoint d => d.bytes
  | other d => d.bytes

def Item.endpoint? : Item → Option Endpoint
  | endpoint d => some d.denoted
  | other _ => none

/-- An interface with everything up to the next one. -/
structure Group where
  head : InterfaceDescriptor
  items : List Item

def Group.bytes (g : Group) : List Byte := g.head.bytes ++ g.items.flatMap Item.bytes

def Group.denoted (g : Group) : Interface where
  number := g.head.number
  altSetting := g.head.altSetting
  cls := g.head.cls
  subclass := g.head.subclass
  protocol := g.head.protocol
  endpoints := g.items.filterMap Item.endpoint?

structure Header where
  numInterfaces : Byte
  configValue : Byte
  iConfiguration : Byte
  attributes : Byte
  maxPower : Byte
  extra : List Byte
  short : 9 + extra.length < 256

/-- What follows the header. -/
def bodyBytes (preamble : List OtherDescriptor) (groups : List Group) : List Byte :=
  preamble.flatMap OtherDescriptor.bytes ++ groups.flatMap Group.bytes

/-- A configuration whose length its header can state. -/
structure ConfigurationDescriptor where
  header : Header
  preamble : List OtherDescriptor
  groups : List Group
  fits : 9 + header.extra.length + (bodyBytes preamble groups).length < 2 ^ 16

namespace ConfigurationDescriptor

def body (c : ConfigurationDescriptor) : List Byte := bodyBytes c.preamble c.groups

def totalLength (c : ConfigurationDescriptor) : Nat :=
  9 + c.header.extra.length + c.body.length

def bytes (c : ConfigurationDescriptor) : List Byte :=
  record 2 (leBytes 2 c.totalLength ++ [c.header.numInterfaces, c.header.configValue,
    c.header.iConfiguration, c.header.attributes, c.header.maxPower] ++ c.header.extra) ++ c.body

def denoted (c : ConfigurationDescriptor) : Configuration where
  totalLength := c.totalLength
  numInterfaces := c.header.numInterfaces
  configValue := c.header.configValue
  attributes := c.header.attributes
  maxPowerMa := 2 * c.header.maxPower.toNat
  interfaces := c.groups.map Group.denoted

end ConfigurationDescriptor

end Spec

end Usb

end TablesOS
