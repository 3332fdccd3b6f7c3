/-
The bundled stateful firewall.

`extensions/network/firewall`: a packet passes if the first rule that matches it allows it, or,
if no rule matches, if it comes from inside or answers a tracked flow.  A flow is tracked when a
packet from inside passes that answers none.

Design notes: the flow table is the list of the slots below its high-water mark, and so is the
table of fragment decisions.
-/
import Bexos.PacketTuple

namespace Bexos

namespace NetworkExtension

def MAX_FIREWALL_RULES : ℕ := 128

def MAX_TRACKED_FLOWS : ℕ := 4096

def MAX_FRAGMENT_DECISIONS : ℕ := 256

def RULE_BYTES : ℕ := 56

def TCP_TIMEOUT_NS : UInt64 := 300000000000

def UDP_TIMEOUT_NS : UInt64 := 60000000000

def ICMP_TIMEOUT_NS : UInt64 := 30000000000

def timeout (protocol : UInt8) : UInt64 :=
  if protocol = 6 then TCP_TIMEOUT_NS
  else if protocol = 17 then UDP_TIMEOUT_NS
  else ICMP_TIMEOUT_NS

structure Rule where
  action : UInt8
  direction : UInt8
  protocol : UInt8
  state : UInt8
  sourceZone : UInt16
  destinationZone : UInt16
  sourcePrefix : UInt8
  destinationPrefix : UInt8
  source : Address
  destination : Address
  sourcePortStart : UInt16
  sourcePortEnd : UInt16
  destinationPortStart : UInt16
  destinationPortEnd : UInt16
  icmpType : UInt8
  icmpCode : UInt8
  deriving DecidableEq

def EMPTY_RULE : Rule :=
  ⟨0, 0, 0, 0, 0, 0, 0, 0, .zero, .zero, 0, 0xffff, 0, 0xffff, 0xff, 0xff⟩

/-- A rule that is accepted. -/
def Rule.Valid (rule : Rule) : Prop :=
  ¬ (rule.action > 1 ∨ rule.direction > VIRTUAL_INGRESS ∨ rule.sourcePrefix > 128 ∨
    rule.destinationPrefix > 128 ∨ rule.sourcePortStart > rule.sourcePortEnd ∨
    rule.destinationPortStart > rule.destinationPortEnd)
  deriving Decidable

structure Flow extends FlowKey where
  used : Bool
  expiresNs : UInt64
  deriving DecidableEq

structure FragmentDecision where
  used : Bool
  version : UInt8
  protocol : UInt8
  direction : UInt8
  allowed : Bool
  source : Address
  destination : Address
  id : UInt32
  expiresNs : UInt64
  deriving DecidableEq

structure Firewall where
  rules : List Rule
  ruleCount : ℕ
  ruleCounters : List UInt64
  flows : List Flow
  fragments : List FragmentDecision

namespace Firewall

def new : Firewall :=
  ⟨List.replicate MAX_FIREWALL_RULES EMPTY_RULE, 0, List.replicate (MAX_FIREWALL_RULES + 1) 0,
    [], []⟩

/-! ### Configuration -/

def parseRule (rule : Bytes) : Rule where
  action := rule.getD 0 0
  direction := rule.getD 1 0
  protocol := rule.getD 2 0
  state := rule.getD 3 0
  sourceZone := leHalf 4 rule
  destinationZone := leHalf 6 rule
  sourcePrefix := rule.getD 8 0
  destinationPrefix := rule.getD 9 0
  source := .ofBytes (slice 12 16 rule)
  destination := .ofBytes (slice 28 16 rule)
  sourcePortStart := leHalf 44 rule
  sourcePortEnd := leHalf 46 rule
  destinationPortStart := leHalf 48 rule
  destinationPortEnd := leHalf 50 rule
  icmpType := rule.getD 52 0
  icmpCode := rule.getD 53 0

/-- Write the rules to the table, from the first on, until one is refused. -/
def writeRules (bytes : Bytes) : List ℕ → List Rule → Bool × List Rule
  | [], rules => (true, rules)
  | index :: rest, rules =>
    let rule := parseRule (slice (8 + index * RULE_BYTES) RULE_BYTES bytes)
    if rule.Valid then writeRules bytes rest (rules.set index rule) else (false, rules)

/-- Refused rules leave the number of rules as it was, but not the table. -/
def configure (bytes : Bytes) (fw : Firewall) : Bool × Firewall :=
  let count := (leHalf 4 bytes).toNat
  if bytes.length < 8 ∨ bytes.length > 8 + MAX_FIREWALL_RULES * RULE_BYTES ∨
      bytes.take 4 ≠ [0x4e, 0x46, 0x57, 0x31] ∨ count > MAX_FIREWALL_RULES ∨
      bytes.length ≠ 8 + count * RULE_BYTES then
    (false, fw)
  else
    match writeRules bytes (List.range count) fw.rules with
    | (true, rules) => (true, { fw with rules := rules, ruleCount := count })
    | (false, rules) => (false, { fw with rules := rules })

/-! ### The flow table -/

/-- The slot holds the flow and has not expired. -/
def Live (flow : Flow) (k : FlowKey) (now : UInt64) : Prop :=
  flow.used = true ∧ flow.expiresNs ≥ now ∧ flow.toFlowKey = k
  deriving Decidable

def findReverse (fw : Firewall) (tuple : Tuple) (now : UInt64) : Bool :=
  fw.flows.any fun flow => Live flow tuple.reverse now

/-- The ports that an ICMP error quotes. -/
def quotedPorts (protocol : UInt8) (transport : ℕ) (packet : Bytes) : UInt16 × UInt16 :=
  if protocol = 6 ∨ protocol = 17 then (beHalf transport packet, beHalf (transport + 2) packet)
  else if (protocol = 1 ∨ protocol = 58) ∧ packet.length ≥ transport + 6 then
    (beHalf (transport + 4) packet, 0)
  else (0, 0)

/-- The packet that an ICMP error quotes. -/
def quoted (packet : Bytes) (d : PacketDescriptor) : Option FlowKey :=
  let l4 := d.l4Offset.toNat
  let kind := packet.getD l4 0
  let start := l4 + 8
  let version := packet.getD start 0 >>> 4
  let key (protocol : UInt8) (source destination : Address) (transport : ℕ) : FlowKey :=
    let (sourcePort, destinationPort) := quotedPorts protocol transport packet
    ⟨version, protocol, source, destination, sourcePort, destinationPort⟩
  if ¬ (d.protocol = 1 ∨ d.protocol = 58) ∨ packet.length ≤ l4 then none
  else if ¬ (d.protocol = 1 ∧ (kind = 3 ∨ kind = 11 ∨ kind = 12) ∨
      d.protocol = 58 ∧ 1 ≤ kind ∧ kind ≤ 4) then none
  else if packet.length ≤ start then none
  else if version = 4 ∧ packet.length ≥ start + 20 then
    let header := (packet.getD start 0 &&& 0x0f).toNat * 4
    if header < 20 ∨ packet.length < start + header + 4 then none
    else
      some (key (packet.getD (start + 9) 0) (.ofBytes (slice (start + 12) 4 packet))
        (.ofBytes (slice (start + 16) 4 packet)) (start + header))
  else if version = 6 ∧ packet.length ≥ start + 44 then
    some (key (packet.getD (start + 6) 0) (.ofBytes (slice (start + 8) 16 packet))
      (.ofBytes (slice (start + 24) 16 packet)) (start + 40))
  else none

def findRelated (fw : Firewall) (packet : Bytes) (d : PacketDescriptor) (now : UInt64) : Bool :=
  (quoted packet d).any fun k => fw.flows.any fun flow => Live flow k now

/-- Renew the first slot that holds a flow, whether it has expired or not. -/
def refresh (k : FlowKey) (now : UInt64) : List Flow → List Flow
  | [] => []
  | flow :: flows =>
    if flow.used ∧ flow.toFlowKey = k then
      { flow with expiresNs := now.satAdd (timeout k.protocol) } :: flows
    else flow :: refresh k now flows

def refreshReverse (tuple : Tuple) (now : UInt64) (fw : Firewall) : Firewall :=
  { fw with flows := refresh tuple.reverse now fw.flows }

/-- The slot of a flow that is tracked from now on. -/
def tracked (k : FlowKey) (now : UInt64) : Flow := ⟨k, true, now.satAdd (timeout k.protocol)⟩

/-- Write to the first slot that is free or has expired. -/
def reuse (k : FlowKey) (now : UInt64) : List Flow → Option (List Flow)
  | [] => none
  | flow :: flows =>
    if ¬ flow.used ∨ flow.expiresNs < now then some (tracked k now :: flows)
    else (reuse k now flows).map (flow :: ·)

/-- Track a flow in the first free slot or in a new one, if there is one. -/
def track (k : FlowKey) (now : UInt64) (flows : List Flow) : Option (List Flow) :=
  match reuse k now flows with
  | some flows => some flows
  | none => if flows.length = MAX_TRACKED_FLOWS then none else some (flows ++ [tracked k now])

/-! ### Rules -/

/-- The type and the code of an ICMP message. -/
def icmpHeader (tuple : Tuple) (packet : Bytes) (d : PacketDescriptor) : UInt8 × UInt8 :=
  let l4 := d.l4Offset.toNat
  if (tuple.protocol = 1 ∨ tuple.protocol = 58) ∧ packet.length ≥ l4 + 2 then
    (packet.getD l4 0, packet.getD (l4 + 1) 0)
  else (0xff, 0xff)

def matchesRule (rule : Rule) (tuple : Tuple) (packet : Bytes) (d : PacketDescriptor)
    (established : Bool) : Bool :=
  let (icmpType, icmpCode) := icmpHeader tuple packet d
  (rule.direction = 0 ∨ rule.direction = d.direction) ∧
    (rule.protocol = 0 ∨ rule.protocol = tuple.protocol) ∧
    (rule.state = 0 ∨ rule.state = 1 ∧ ¬ established ∨ rule.state = 2 ∧ established) ∧
    (rule.sourceZone = 0 ∨ rule.sourceZone = d.sourceZone) ∧
    (rule.destinationZone = 0 ∨ rule.destinationZone = d.destinationZone) ∧
    prefixMatches tuple.source rule.source rule.sourcePrefix ∧
    prefixMatches tuple.destination rule.destination rule.destinationPrefix ∧
    (rule.sourcePortStart ≤ tuple.sourcePort ∧ tuple.sourcePort ≤ rule.sourcePortEnd) ∧
    (rule.destinationPortStart ≤ tuple.destinationPort ∧
      tuple.destinationPort ≤ rule.destinationPortEnd) ∧
    (rule.icmpType = 0xff ∨ rule.icmpType = icmpType) ∧
    (rule.icmpCode = 0xff ∨ rule.icmpCode = icmpCode)

/-- A packet answers a tracked flow, or is an ICMP error about one. -/
def established (fw : Firewall) (packet : Bytes) (d : PacketDescriptor) (tuple : Tuple)
    (now : UInt64) : Bool :=
  fw.findReverse tuple now || fw.findRelated packet d now

/-- The first rule that matches, with its place in the table. -/
def firstRule (fw : Firewall) (packet : Bytes) (d : PacketDescriptor) (tuple : Tuple)
    (now : UInt64) : Option (Rule × ℕ) :=
  (fw.rules.take fw.ruleCount).zipIdx.find? fun entry =>
    matchesRule entry.1 tuple packet d (fw.established packet d tuple now)

/-- A SYN that is neither an ACK nor an RST. -/
def validNewTcp (packet : Bytes) (d : PacketDescriptor) : Bool :=
  packet[d.l4Offset.toNat + 13]?.any fun flags => flags &&& 0x02 ≠ 0 ∧ flags &&& (0x04 ||| 0x10) = 0

def count (index : ℕ) (fw : Firewall) : Firewall :=
  { fw with ruleCounters := fw.ruleCounters.modify index (·.satAdd 1) }

/-- Pass a packet from inside by tracking its flow. -/
def passTracked (tuple : Tuple) (now : UInt64) (fw : Firewall) : ActionCode × Firewall :=
  match track tuple.toFlowKey now fw.flows with
  | some flows => (.pass, { fw with flows := flows })
  | none => (.drop, fw)

def decideTuple (packet : Bytes) (d : PacketDescriptor) (tuple : Tuple) (now : UInt64)
    (fw : Firewall) : ActionCode × Firewall :=
  let isEstablished := fw.established packet d tuple now
  if tuple.protocol = 6 ∧ ¬ isEstablished ∧ d.direction = VIRTUAL_INGRESS ∧
      ¬ validNewTcp packet d then (.drop, fw)
  else
    match fw.firstRule packet d tuple now with
    | some (rule, index) =>
      let fw := fw.count index
      if rule.action = 0 then (.drop, fw)
      else if ¬ isEstablished ∧ d.direction = VIRTUAL_INGRESS then passTracked tuple now fw
      else (.pass, fw)
    | none =>
      let fw := fw.count MAX_FIREWALL_RULES
      if isEstablished then (.pass, refreshReverse tuple now fw)
      else if d.direction = VIRTUAL_INGRESS then passTracked tuple now fw
      else (.drop, fw)

/-! ### Fragments -/

def fragmentDecision (fw : Firewall) (tuple : Tuple) (direction : UInt8) (id : UInt32)
    (now : UInt64) : Option ActionCode :=
  (fw.fragments.find? fun entry =>
    entry.used ∧ entry.expiresNs ≥ now ∧ entry.version = tuple.version ∧
      entry.protocol = tuple.protocol ∧ entry.direction = direction ∧
      entry.source = tuple.source ∧ entry.destination = tuple.destination ∧ entry.id = id).map
    fun entry => if entry.allowed then .pass else .drop

def recordFragment (tuple : Tuple) (direction : UInt8) (id : UInt32) (allowed : Bool) (now : UInt64)
    (fw : Firewall) : Bool × Firewall :=
  let entry : FragmentDecision :=
    ⟨true, tuple.version, tuple.protocol, direction, allowed, tuple.source, tuple.destination, id,
      now.satAdd ICMP_TIMEOUT_NS⟩
  let free := fw.fragments.findIdx fun entry => ¬ entry.used ∨ entry.expiresNs < now
  if free < fw.fragments.length then
    (true, { fw with fragments := fw.fragments.set free entry })
  else if fw.fragments.length < MAX_FRAGMENT_DECISIONS then
    (true, { fw with fragments := fw.fragments ++ [entry] })
  else (false, fw)

def decide (packet : Bytes) (d : PacketDescriptor) (now : UInt64) (fw : Firewall) :
    ActionCode × Firewall :=
  match tuple packet d with
  | none => (.drop, fw)
  | some tuple =>
    match fragment packet d with
    | none => decideTuple packet d tuple now fw
    | some part =>
      if part.offset ≠ 0 then
        ((fw.fragmentDecision tuple d.direction part.id now).getD .drop, fw)
      else
        let (decision, fw) := decideTuple packet d tuple now fw
        if part.more then
          let (recorded, fw) :=
            recordFragment tuple d.direction part.id (decision = .pass) now fw
          (if ¬ recorded ∧ decision = .pass then .drop else decision, fw)
        else (decision, fw)

end Firewall

end NetworkExtension

end Bexos
