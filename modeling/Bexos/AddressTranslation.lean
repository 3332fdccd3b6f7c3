/-
The bundled network address translation.

`extensions/network/nat`: packets that leave are given the external address and a port of a
mapping; packets that arrive at that port, or at a forwarded one, are given the internal endpoint
of theirs.

Design notes: the table of mappings is the list of the slots below its high-water mark.  The
sum of a checksum has three terms of 16 bits, so that its carry is added at most twice.
-/
import Bexos.PacketTuple

namespace Bexos

namespace NetworkExtension

def PRE_ROUTING : UInt8 := 2

def POST_ROUTING : UInt8 := 4

def MAX_NAT_MAPPINGS : ℕ := 4096

def MAPPING_TIMEOUT_NS : UInt64 := 120000000000

def CONFIG_HEADER_BYTES : ℕ := 48

def FORWARD_BYTES : ℕ := 16

def MAX_FORWARDS : ℕ := 128

def MAX_FRAGMENT_ASSOCIATIONS : ℕ := 256

/-- An IPv4 address. -/
abbrev Address4 := Buffer 4

structure NatConfig where
  externalV4 : Address4
  portStart : UInt16
  portEnd : UInt16
  internalV6 : Address
  externalV6 : Address
  prefixLen : UInt8

structure Forward where
  externalAddress : Address4
  externalPort : UInt16
  internalAddress : Address4
  internalPort : UInt16
  protocol : UInt8
  deriving DecidableEq

structure Mapping where
  used : Bool
  protocol : UInt8
  internalAddress : Address4
  remoteAddress : Address4
  internalPort : UInt16
  externalPort : UInt16
  remotePort : UInt16
  expiresNs : UInt64
  deriving DecidableEq

structure FragmentAssociation where
  used : Bool
  protocol : UInt8
  hook : UInt8
  sourceRewrite : Bool
  source : Address4
  destination : Address4
  translated : Address4
  id : UInt32
  expiresNs : UInt64
  deriving DecidableEq

structure Translator where
  config : NatConfig
  forwards : List Forward
  forwardCount : ℕ
  nextPort : UInt16
  mappings : List Mapping
  fragments : List FragmentAssociation

/-- The first four bytes of an address. -/
def v4 (a : Address) : Address4 := .ofBytes (a.toList.take 4)

def extend (a : Address4) : Address := .ofBytes a.toList

/-! ### Rewriting -/

/-- A turn of the loop that adds the carry of a sum to it. -/
def addCarry (sum : ℕ) : ℕ := if sum > 0xffff then sum % 0x10000 + sum / 0x10000 else sum

/-- The loop, for the sum of three words. -/
def fold (sum : ℕ) : ℕ := addCarry (addCarry sum)

/-- The loop is over after two turns. -/
theorem fold_le {sum : ℕ} (h : sum ≤ 3 * 0xffff) : fold sum ≤ 0xffff := by
  unfold fold addCarry
  grind

def replaceChecksumWord (checksum : UInt16) (old new : UInt16) : UInt16 :=
  ~~~ UInt16.ofNat (fold ((~~~ checksum).toNat + (~~~ old).toNat + new.toNat))

/-- Replace the words of an address. -/
def replaceAddress (checksum : UInt16) (old new : Bytes) : UInt16 :=
  (List.range (old.length / 2)).foldl
    (fun checksum i => replaceChecksumWord checksum (beHalf (2 * i) old) (beHalf (2 * i) new))
    checksum

/-- Where the checksum of the transport is, unless the packet has none. -/
def transportChecksum (packet : Bytes) (d : PacketDescriptor) : Option ℕ :=
  let l4 := d.l4Offset.toNat
  let offset :=
    if d.protocol = 6 then some (l4 + 16)
    else if d.protocol = 17 then some (l4 + 6)
    else if d.protocol = 1 ∨ d.protocol = 58 then some (l4 + 2)
    else none
  offset.filter fun offset =>
    offset + 2 ≤ packet.length ∧
      ¬ (d.ipVersion = 4 ∧ d.protocol = 17 ∧ slice offset 2 packet = [0, 0])

/-- Change the checksum of the transport. -/
def patchTransport (d : PacketDescriptor) (f : UInt16 → UInt16) (packet : Bytes) : Bytes :=
  match transportChecksum packet d with
  | some offset => splice offset (beHalfBytes (f (beHalf offset packet))) packet
  | none => packet

def updateTransportAddressChecksum (d : PacketDescriptor) (old new : Address) (packet : Bytes) :
    Bytes :=
  if d.protocol = 1 then packet
  else
    let bytes := if d.ipVersion = 4 then 4 else 16
    patchTransport d (replaceAddress · (old.toList.take bytes) (new.toList.take bytes)) packet

def rewriteV4HeaderAddress (d : PacketDescriptor) (source : Bool) (old new : Address4)
    (packet : Bytes) : Bytes :=
  let l3 := d.l3Offset.toNat
  let packet := splice (l3 + 10)
    (beHalfBytes (replaceAddress (beHalf (l3 + 10) packet) old.toList new.toList)) packet
  splice (if source then l3 + 12 else l3 + 16) new.toList packet

def rewriteV4Address (d : PacketDescriptor) (source : Bool) (old new : Address4) (packet : Bytes) :
    Bytes :=
  rewriteV4HeaderAddress d source old new
    (updateTransportAddressChecksum d (extend old) (extend new) packet)

/-- Where a port is, or the identifier of an ICMP message. -/
def portOffset (d : PacketDescriptor) (protocol : UInt8) (source : Bool) : ℕ :=
  let l4 := d.l4Offset.toNat
  if protocol = 1 ∨ protocol = 58 then l4 + 4 else if source then l4 else l4 + 2

def rewritePort (d : PacketDescriptor) (protocol : UInt8) (source : Bool) (old new : UInt16)
    (packet : Bytes) : Bytes :=
  splice (portOffset d protocol source) (beHalfBytes new)
    (patchTransport d (replaceChecksumWord · old new) packet)

/-! ### Configuration -/

namespace Translator

/-- What the extension is loaded with. -/
def initial : Translator where
  config := ⟨.zero, 49152, 65535, .zero, .zero, 0⟩
  forwards := List.replicate MAX_FORWARDS ⟨.zero, 0, .zero, 0, 0⟩
  forwardCount := 0
  nextPort := 49152
  mappings := []
  fragments := []

def parseForward (bytes : Bytes) : Forward where
  externalAddress := .ofBytes (slice 0 4 bytes)
  externalPort := leHalf 4 bytes
  internalAddress := .ofBytes (slice 6 4 bytes)
  internalPort := leHalf 10 bytes
  protocol := bytes.getD 12 0

/-- A forward that is accepted. -/
def Usable (f : Forward) : Prop :=
  ¬ (f.externalAddress = .zero ∨ f.internalAddress = .zero ∨ f.externalPort = 0 ∨
    f.internalPort = 0 ∨ ¬ (f.protocol = 6 ∨ f.protocol = 17))
  deriving Decidable

/-- Write the forwards to the table, from the first on, until one is refused. -/
def writeForwards (bytes : Bytes) : List ℕ → List Forward → Bool × List Forward
  | [], forwards => (true, forwards)
  | index :: rest, forwards =>
    let f := parseForward (slice (CONFIG_HEADER_BYTES + index * FORWARD_BYTES) FORWARD_BYTES bytes)
    if Usable f then writeForwards bytes rest (forwards.set index f) else (false, forwards)

def parseConfig (bytes : Bytes) : NatConfig where
  externalV4 := .ofBytes (slice 4 4 bytes)
  portStart := leHalf 8 bytes
  portEnd := leHalf 10 bytes
  prefixLen := bytes.getD 12 0
  internalV6 := .ofBytes (slice 16 16 bytes)
  externalV6 := .ofBytes (slice 32 16 bytes)

/-- A forward that is refused leaves the new configuration in place. -/
def configure (bytes : Bytes) (nat : Translator) : Bool × Translator :=
  let config := parseConfig bytes
  let count := (leHalf 14 bytes).toNat
  if bytes.length < CONFIG_HEADER_BYTES ∨
      bytes.length > CONFIG_HEADER_BYTES + MAX_FORWARDS * FORWARD_BYTES ∨
      bytes.take 4 ≠ [0x4e, 0x41, 0x54, 0x31] ∨
      bytes.length ≠ CONFIG_HEADER_BYTES + count * FORWARD_BYTES ∨
      config.externalV4 = .zero ∨ config.portStart = 0 ∨ config.portStart > config.portEnd ∨
      config.prefixLen > 112 then
    (false, nat)
  else
    let (accepted, forwards) := writeForwards bytes (List.range count) nat.forwards
    (accepted,
      { config := config, forwards := forwards, forwardCount := count,
        nextPort := config.portStart, mappings := [], fragments := [] })

/-! ### The table of mappings -/

/-- A mapping is in use. -/
def Live (m : Mapping) (now : UInt64) : Prop := m.used = true ∧ m.expiresNs ≥ now
  deriving Decidable

/-- A mapping is for packets from an internal endpoint to a remote one. -/
def Carries (m : Mapping) (t : FlowKey) : Prop :=
  m.protocol = t.protocol ∧ m.internalAddress = v4 t.source ∧
    m.remoteAddress = v4 t.destination ∧ m.internalPort = t.sourcePort ∧
    m.remotePort = t.destinationPort
  deriving Decidable

/-- Renew the first mapping for a packet. -/
def findOutbound (t : FlowKey) (now : UInt64) : List Mapping → Option (Mapping × List Mapping)
  | [] => none
  | m :: mappings =>
    if Live m now ∧ Carries m t then
      let m := { m with expiresNs := now.satAdd MAPPING_TIMEOUT_NS }
      some (m, m :: mappings)
    else (findOutbound t now mappings).map fun (found, rest) => (found, m :: rest)

/-- Write to the first slot that is free or has expired. -/
def reuse (new : Mapping) (now : UInt64) : List Mapping → Option (List Mapping)
  | [] => none
  | m :: mappings =>
    if ¬ m.used ∨ m.expiresNs < now then some (new :: mappings)
    else (reuse new now mappings).map (m :: ·)

/-- Write to the slot that `mapping_slot` finds. -/
def place (new : Mapping) (now : UInt64) (mappings : List Mapping) : Option (List Mapping) :=
  match reuse new now mappings with
  | some mappings => some mappings
  | none => if mappings.length = MAX_NAT_MAPPINGS then none else some (mappings ++ [new])

/-- The mapping for packets of a flow from a port. -/
def mappingOf (t : FlowKey) (port : UInt16) (now : UInt64) : Mapping :=
  ⟨true, t.protocol, v4 t.source, v4 t.destination, t.sourcePort, port, t.destinationPort,
    now.satAdd MAPPING_TIMEOUT_NS⟩

/-- A live mapping of the protocol has the port. -/
def PortTaken (nat : Translator) (protocol : UInt8) (port : UInt16) (now : UInt64) : Prop :=
  ∃ m ∈ nat.mappings, Live m now ∧ m.protocol = protocol ∧ m.externalPort = port

instance (nat : Translator) (protocol : UInt8) (port : UInt16) (now : UInt64) :
    Decidable (nat.PortTaken protocol port now) :=
  inferInstanceAs (Decidable (∃ m ∈ nat.mappings, _))

/-- Try the ports of the range in turn. -/
def allocate (t : FlowKey) (now : UInt64) : ℕ → Translator → Option Mapping × Translator
  | 0, nat => (none, nat)
  | rounds + 1, nat =>
    let port := nat.nextPort
    let nat :=
      { nat with
        nextPort := if port = nat.config.portEnd then nat.config.portStart else port + 1 }
    if nat.PortTaken t.protocol port now then allocate t now rounds nat
    else
      let m := mappingOf t port now
      match place m now nat.mappings with
      | some mappings => (some m, { nat with mappings := mappings })
      | none => (none, nat)

def findForward (nat : Translator) (t : FlowKey) : Option Forward :=
  (nat.forwards.take nat.forwardCount).find? fun f =>
    f.externalAddress = v4 t.destination ∧ f.externalPort = t.destinationPort ∧
      f.protocol = t.protocol

/-- A mapping is for the packets that come back to it. -/
def Returns (m : Mapping) (t : FlowKey) : Prop :=
  m.protocol = t.protocol ∧
    m.externalPort = (if t.protocol = 1 then t.sourcePort else t.destinationPort) ∧
    m.remoteAddress = v4 t.source ∧ (t.protocol = 1 ∨ m.remotePort = t.sourcePort)
  deriving Decidable

/-- The first mapping for a packet that arrives. -/
def findInbound (nat : Translator) (t : FlowKey) (now : UInt64) : Option Mapping :=
  nat.mappings.find? fun m => Live m now ∧ Returns m t

/-- The mapping of a forwarded connection. -/
def forwardMapping (t : FlowKey) (f : Forward) (now : UInt64) : Mapping :=
  ⟨true, t.protocol, f.internalAddress, v4 t.source, f.internalPort, f.externalPort, t.sourcePort,
    now.satAdd MAPPING_TIMEOUT_NS⟩

def recordForward (t : FlowKey) (f : Forward) (now : UInt64) (nat : Translator) :
    Option Mapping × Translator :=
  match place (forwardMapping t f now) now nat.mappings with
  | some mappings => (some (forwardMapping t f now), { nat with mappings := mappings })
  | none => (none, nat)

/-! ### Packets -/

/-- Rewrite an endpoint; a packet that ends before its port faults. -/
def rewriteEndpoint (d : PacketDescriptor) (protocol : UInt8) (source : Bool)
    (oldAddress newAddress : Address4) (oldPort newPort : UInt16) (packet : Bytes) : Option Bytes :=
  if portOffset d protocol source + 2 ≤ packet.length then
    some (rewritePort d protocol source oldPort newPort
      (rewriteV4Address d source oldAddress newAddress packet))
  else none

def translateOutbound (packet : Bytes) (d : PacketDescriptor) (t : FlowKey) (now : UInt64)
    (nat : Translator) : Option (ActionCode × Bytes × Translator) :=
  let (mapping, nat) :=
    match findOutbound t now nat.mappings with
    | some (m, mappings) => (some m, { nat with mappings := mappings })
    | none => allocate t now (nat.config.portEnd.toNat - nat.config.portStart.toNat + 1) nat
  match mapping with
  | none => some (.drop, packet, nat)
  | some m =>
    (rewriteEndpoint d t.protocol true (v4 t.source) nat.config.externalV4 t.sourcePort
      m.externalPort packet).map (.rewrite, ·, nat)

def translateInbound (packet : Bytes) (d : PacketDescriptor) (t : FlowKey) (now : UInt64)
    (nat : Translator) : Option (ActionCode × Bytes × Translator) :=
  if v4 t.destination ≠ nat.config.externalV4 ∧ (nat.findForward t).isNone then
    some (.pass, packet, nat)
  else
    let (mapping, nat) :=
      match nat.findInbound t now with
      | some m => (some m, nat)
      | none =>
        match nat.findForward t with
        | some f => recordForward t f now nat
        | none => (none, nat)
    match mapping with
    | none => some (.drop, packet, nat)
    | some m =>
      (rewriteEndpoint d t.protocol false (v4 t.destination) m.internalAddress m.externalPort
        m.internalPort packet).map (.rewrite, ·, nat)

def translateFragment (packet : Bytes) (d : PacketDescriptor) (t : FlowKey) (hook : UInt8)
    (id : UInt32) (now : UInt64) (nat : Translator) : ActionCode × Bytes :=
  match nat.fragments.find? fun entry =>
      entry.used ∧ entry.expiresNs ≥ now ∧ entry.protocol = t.protocol ∧ entry.hook = hook ∧
        entry.source = v4 t.source ∧ entry.destination = v4 t.destination ∧ entry.id = id with
  | none => (.drop, packet)
  | some entry =>
    (.rewrite, rewriteV4HeaderAddress d entry.sourceRewrite
      (if entry.sourceRewrite then v4 t.source else v4 t.destination) entry.translated packet)

def recordFragment (t : FlowKey) (hook : UInt8) (sourceRewrite : Bool) (translated : Address4)
    (id : UInt32) (now : UInt64) (nat : Translator) : Bool × Translator :=
  let entry : FragmentAssociation :=
    ⟨true, t.protocol, hook, sourceRewrite, v4 t.source, v4 t.destination, translated, id,
      now.satAdd MAPPING_TIMEOUT_NS⟩
  let free := nat.fragments.findIdx fun entry => ¬ entry.used ∨ entry.expiresNs < now
  if free < nat.fragments.length then
    (true, { nat with fragments := nat.fragments.set free entry })
  else if nat.fragments.length < MAX_FRAGMENT_ASSOCIATIONS then
    (true, { nat with fragments := nat.fragments ++ [entry] })
  else (false, nat)

/-! ### Prefixes of IPv6 -/

def onesAdd (left right : UInt16) : UInt16 :=
  let sum := left.toNat + right.toNat
  UInt16.ofNat sum + UInt16.ofNat (sum / 0x10000)

def addressSum (value : Bytes) : UInt16 :=
  (List.range (value.length / 2)).foldl (fun sum i => onesAdd sum (beHalf (2 * i) value)) 0

def copyPrefix (value : Bytes) (source : Address) (length : UInt8) : Bytes :=
  let bytes := (length / 8).toNat
  let bits := length % 8
  let mask : UInt8 := 0xff <<< (8 - bits)
  let value := source.toList.take bytes ++ value.drop bytes
  if bits = 0 then value
  else value.set bytes ((value.getD bytes 0 &&& ~~~ mask) ||| (source.toList.getD bytes 0 &&& mask))

def checksumNeutralPrefix (value source : Address) (length : UInt8) : Bytes :=
  let translated := splice 14 [0, 0] (copyPrefix value.toList source length)
  let adjustment := onesAdd (addressSum value.toList) (~~~ addressSum translated)
  splice 14 (beHalfBytes adjustment) translated

def translateNptv6 (packet : Bytes) (d : PacketDescriptor) (t : FlowKey) (hook : UInt8)
    (nat : Translator) : ActionCode × Bytes :=
  let l3 := d.l3Offset.toNat
  let length := nat.config.prefixLen
  if length = 0 then (.pass, packet)
  else if hook = POST_ROUTING ∧ d.direction = VIRTUAL_INGRESS then
    if prefixMatches t.source nat.config.internalV6 length then
      (.rewrite, splice (l3 + 8) (checksumNeutralPrefix t.source nat.config.externalV6 length) packet)
    else (.pass, packet)
  else if hook = PRE_ROUTING ∧ d.direction = PHYSICAL_INGRESS then
    if prefixMatches t.destination nat.config.externalV6 length then
      (.rewrite,
        splice (l3 + 24) (checksumNeutralPrefix t.destination nat.config.internalV6 length) packet)
    else (.pass, packet)
  else (.pass, packet)

/-- What becomes of an IPv4 packet that is no later fragment. -/
def translate4 (packet : Bytes) (d : PacketDescriptor) (t : FlowKey) (hook : UInt8) (now : UInt64)
    (nat : Translator) : Option (ActionCode × Bytes × Translator) :=
  if hook = POST_ROUTING ∧ d.direction = VIRTUAL_INGRESS then translateOutbound packet d t now nat
  else if hook = PRE_ROUTING then translateInbound packet d t now nat
  else some (.pass, packet, nat)

/-- The action, the packet and the tables, unless the extension faults. -/
def translate (packet : Bytes) (d : PacketDescriptor) (hook : UInt8) (now : UInt64)
    (nat : Translator) : Option (ActionCode × Bytes × Translator) :=
  match tuple packet d with
  | none => some (.drop, packet, nat)
  | some t =>
    if t.version = 6 then
      let (action, packet) := translateNptv6 packet d t.toFlowKey hook nat
      some (action, packet, nat)
    else if t.version ≠ 4 then some (.drop, packet, nat)
    else
      match fragment packet d with
      | none => translate4 packet d t.toFlowKey hook now nat
      | some part =>
        if part.offset ≠ 0 then
          let (action, packet) := translateFragment packet d t.toFlowKey hook part.id now nat
          some (action, packet, nat)
        else do
          let (action, packet, nat) ← translate4 packet d t.toFlowKey hook now nat
          if action = .rewrite ∧ part.more then
            let l3 := d.l3Offset.toNat
            let sourceRewrite : Bool := hook = POST_ROUTING
            let translated : Address4 :=
              .ofBytes (slice (if sourceRewrite then l3 + 12 else l3 + 16) 4 packet)
            let (recorded, nat) :=
              recordFragment t.toFlowKey hook sourceRewrite translated part.id now nat
            return (if recorded then .rewrite else .drop, packet, nat)
          else return (action, packet, nat)

end Translator

end NetworkExtension

end Bexos
