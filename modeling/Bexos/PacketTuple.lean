/-
Packets as a network extension sees them.

`network_extension_abi` and `network_extension_guest`: a packet comes with a descriptor of where
its headers are.  `tuple` reads the addresses and ports that tell flows apart, `fragment` the
fragment header.

Design notes: addresses of both IP versions are 16 bytes, those of IPv4 followed by zeros.  The
ports of an ICMP message are its identifier and 0.
-/
import Bexos.Layout

namespace Bexos

/-- The big-endian half word at an offset. -/
def beHalf (off : ℕ) (bs : Bytes) : UInt16 :=
  UInt16.ofNat ((bs.getD off 0).toNat * 256 + (bs.getD (off + 1) 0).toNat)

/-- The little-endian half word at an offset. -/
def leHalf (off : ℕ) (bs : Bytes) : UInt16 := UInt16.ofNat (leValue (slice off 2 bs))

def beHalfBytes (w : UInt16) : Bytes := [(w >>> 8).toUInt8, w.toUInt8]

namespace NetworkExtension

inductive ActionCode where
  | drop
  | pass
  | rewrite
  | redirect
  deriving DecidableEq

def PHYSICAL_INGRESS : UInt8 := 1

def VIRTUAL_INGRESS : UInt8 := 2

/-- The fields of a descriptor that the extensions read. -/
structure PacketDescriptor where
  l3Offset : UInt16
  l4Offset : UInt16
  sourceZone : UInt16
  destinationZone : UInt16
  direction : UInt8
  ipVersion : UInt8
  protocol : UInt8
  fragmentFlags : UInt8
  deriving DecidableEq

abbrev Address := Buffer 16

/-- The endpoints of a flow. -/
structure FlowKey where
  version : UInt8
  protocol : UInt8
  source : Address
  destination : Address
  sourcePort : UInt16
  destinationPort : UInt16
  deriving DecidableEq

/-- The endpoints from the other side. -/
def FlowKey.reverse (k : FlowKey) : FlowKey :=
  { k with
    source := k.destination, destination := k.source
    sourcePort := k.destinationPort, destinationPort := k.sourcePort }

@[simp] theorem FlowKey.reverse_reverse (k : FlowKey) : k.reverse.reverse = k := rfl

structure Tuple extends FlowKey where
  fragment : Bool
  deriving DecidableEq

structure Fragment where
  id : UInt32
  offset : UInt16
  more : Bool
  deriving DecidableEq

/-- The addresses of an IP header at an offset. -/
def addresses (version : UInt8) (l3 : ℕ) (packet : Bytes) : Option (Address × Address) :=
  if version = 4 then
    if packet.length ≥ l3 + 20 then
      some (.ofBytes (slice (l3 + 12) 4 packet), .ofBytes (slice (l3 + 16) 4 packet))
    else none
  else if version = 6 then
    if packet.length ≥ l3 + 40 then
      some (.ofBytes (slice (l3 + 8) 16 packet), .ofBytes (slice (l3 + 24) 16 packet))
    else none
  else none

def ports (protocol : UInt8) (l4 : ℕ) (packet : Bytes) : UInt16 × UInt16 :=
  if (protocol = 6 ∨ protocol = 17) ∧ packet.length ≥ l4 + 4 then
    (beHalf l4 packet, beHalf (l4 + 2) packet)
  else if (protocol = 1 ∨ protocol = 58) ∧ packet.length ≥ l4 + 6 then (beHalf (l4 + 4) packet, 0)
  else (0, 0)

def tuple (packet : Bytes) (d : PacketDescriptor) : Option Tuple :=
  (addresses d.ipVersion d.l3Offset.toNat packet).map fun (source, destination) =>
    let (sourcePort, destinationPort) := ports d.protocol d.l4Offset.toNat packet
    ⟨⟨d.ipVersion, d.protocol, source, destination, sourcePort, destinationPort⟩,
      d.fragmentFlags ≠ 0⟩

/-- Look for the fragment header among the first extension headers. -/
def fragment6 (packet : Bytes) : ℕ → UInt8 → ℕ → Option Fragment
  | 0, _, _ => none
  | rounds + 1, next, offset =>
    if next = 44 ∧ packet.length ≥ offset + 8 then
      let word := beHalf (offset + 2) packet
      some ⟨UInt32.ofNat ((beHalf (offset + 4) packet).toNat * 65536 +
        (beHalf (offset + 6) packet).toNat), (word &&& 0xfff8) >>> 3, word &&& 1 ≠ 0⟩
    else if (next = 0 ∨ next = 43 ∨ next = 60) ∧ packet.length ≥ offset + 2 then
      fragment6 packet rounds (packet.getD offset 0)
        (offset + ((packet.getD (offset + 1) 0).toNat + 1) * 8)
    else if next = 51 ∧ packet.length ≥ offset + 2 then
      fragment6 packet rounds (packet.getD offset 0)
        (offset + ((packet.getD (offset + 1) 0).toNat + 2) * 4)
    else none

def fragment (packet : Bytes) (d : PacketDescriptor) : Option Fragment :=
  let l3 := d.l3Offset.toNat
  if d.fragmentFlags = 0 then none
  else if d.ipVersion = 4 ∧ packet.length ≥ l3 + 20 then
    let word := beHalf (l3 + 6) packet
    some ⟨(beHalf (l3 + 4) packet).toUInt32, word &&& 0x1fff, word &&& 0x2000 ≠ 0⟩
  else if d.ipVersion = 6 ∧ packet.length ≥ l3 + 48 then
    fragment6 packet 8 (packet.getD (l3 + 6) 0) (l3 + 40)
  else none

/-- Two addresses have the same prefix. -/
def prefixMatches (value expected : Address) (length : UInt8) : Bool :=
  let bytes := (length / 8).toNat
  let bits := length % 8
  let mask : UInt8 := 0xff <<< (8 - bits)
  value.toList.take bytes = expected.toList.take bytes ∧
    (bits = 0 ∨ value.toList.getD bytes 0 &&& mask = expected.toList.getD bytes 0 &&& mask)

/-! ### Packets -/

/-- An IPv4 packet. -/
def ipv4 (protocol : UInt8) (source destination payload : Bytes) : Bytes :=
  [0x45, 0, 0, 0, 0, 0, 0, 0, 64, protocol, 0, 0] ++ source ++ destination ++ payload

/-- A packet at the start of its buffer. -/
def descriptorOf (protocol direction : UInt8) : PacketDescriptor :=
  ⟨0, 20, 0, 0, direction, 4, protocol, 0⟩

end NetworkExtension

end Bexos
