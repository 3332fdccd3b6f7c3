/-
Ports of the virtual switch.

`vswitchd/switch.rs`: a port queues the frames that arrive for a network stack, keeps those the
stack has received until the stack's journal commits, and stages the frames that the stack sends
until then.

Design notes: counters saturate as in the source.  A frame is stamped, when it arrives or is
staged, with the generation after the one committed last.
-/
import Bexos.OrdMap
import Bexos.PacketTuple

namespace Bexos

open Prog

def MAX_FRAME_SIZE : ℕ := 9216

def MIN_FRAME_SIZE : ℕ := 14

/-- The bytes of a hardware address. -/
abbrev Mac := Buffer 6

structure PortPolicy where
  portId : UInt64
  physicalInterface : UInt64
  sourceMac : Mac
  vlanId : Option UInt16
  tagged : Bool
  rxCapacity : ℕ
  txCapacity : ℕ

structure QueuedFrame where
  generation : UInt64
  bytes : Bytes
  deriving DecidableEq

structure Port where
  policy : PortPolicy
  rx : List QueuedFrame
  deliveredRx : List QueuedFrame
  stagedTx : List QueuedFrame
  committedGeneration : UInt64
  droppedRx : UInt64
  droppedTx : UInt64
  spoofRejections : UInt64

inductive SwitchError where
  | invalidPort
  | invalidFrame
  | invalidVlan
  | alreadyExists
  | notFound
  | queueFull
  | spoofed
  | staleGeneration
  | invalidRoute
  | invalidNeighbor
  | invalidExtension
  | inUse
  | ttlExpired
  | mtuExceeded
  deriving DecidableEq, Repr

/-! ### Frames -/

structure FrameHeader where
  destination : Mac
  source : Mac
  vlanId : Option UInt16

def FrameHeader.parse (bytes : Bytes) : Except SwitchError FrameHeader :=
  if ¬ (MIN_FRAME_SIZE ≤ bytes.length ∧ bytes.length ≤ MAX_FRAME_SIZE) then .error .invalidFrame
  else
    let header vlanId : FrameHeader := ⟨.ofBytes (slice 0 6 bytes), .ofBytes (slice 6 6 bytes), vlanId⟩
    if beHalf 12 bytes = 0x8100 ∨ beHalf 12 bytes = 0x88a8 then
      if bytes.length < 18 then .error .invalidFrame
      else
        let vlan := beHalf 14 bytes &&& 0x0fff
        if vlan = 0 ∨ vlan > 4094 then .error .invalidVlan else .ok (header (some vlan))
    else .ok (header none)

def ingressVlanMatches (policy : PortPolicy) (frameVlan : Option UInt16) : Bool :=
  match policy.vlanId, policy.tagged, frameVlan with
  | none, false, none => true
  | some expected, true, some actual => expected = actual
  | some expected, false, some actual => expected = actual
  | _, _, _ => false

def egressVlanMatches (policy : PortPolicy) (frameVlan : Option UInt16) : Bool :=
  match policy.vlanId, policy.tagged, frameVlan with
  | none, false, none => true
  | some _, false, none => true
  | some expected, true, some actual => expected = actual
  | _, _, _ => false

def stripVlan (bytes : Bytes) : Option Bytes :=
  if bytes.length < 18 then none else some (bytes.take 12 ++ bytes.drop 16)

def addVlan (bytes : Bytes) (vlan : UInt16) : Except SwitchError Bytes :=
  if bytes.length + 4 > MAX_FRAME_SIZE then .error .invalidFrame
  else .ok (bytes.take 12 ++ beHalfBytes 0x8100 ++ beHalfBytes vlan ++ bytes.drop 12)

/-! ### One port -/

abbrev PortM := Prog Port SwitchError

namespace Port

/-- The stamp of a frame that arrives or is staged. -/
def nextGeneration (p : Port) : UInt64 := p.committedGeneration.satAdd 1

/-- The receive queue has room. -/
def HasRoom (p : Port) : Prop := p.rx.length + p.deliveredRx.length < p.policy.rxCapacity
  deriving Decidable

/-- Queue a frame, or count it as dropped. -/
def enqueue (bytes : Bytes) (p : Port) : Port :=
  if p.HasRoom then { p with rx := p.rx ++ [⟨p.nextGeneration, bytes⟩] }
  else { p with droppedRx := p.droppedRx.satAdd 1 }

/-- A physical frame is for the port. -/
def Takes (p : Port) (physicalInterface : UInt64) (header : FrameHeader) : Prop :=
  p.policy.physicalInterface = physicalInterface ∧
    ingressVlanMatches p.policy header.vlanId = true ∧
    (header.destination.head &&& 1 ≠ 0 ∨ header.destination = List.Vector.replicate 6 0xff ∨
      p.policy.sourceMac = header.destination)

instance (p : Port) (physicalInterface : UInt64) (header : FrameHeader) :
    Decidable (p.Takes physicalInterface header) := inferInstanceAs (Decidable (_ ∧ _))

/-- The bytes that an access port sees of a frame. -/
def view (p : Port) (bytes : Bytes) : Bytes :=
  if p.policy.vlanId.isSome ∧ ¬ p.policy.tagged then (stripVlan bytes).getD bytes else bytes

def ingressToPort (bytes : Bytes) : PortM Unit := do
  let p ← get
  modify (enqueue bytes)
  check p.HasRoom .queueFull

def receive : PortM (Option QueuedFrame) := do
  let p ← get
  check (p.deliveredRx.length < p.policy.rxCapacity) .queueFull
  match p.rx with
  | [] => return none
  | frame :: rest => do
    modify fun p => { p with rx := rest, deliveredRx := p.deliveredRx ++ [frame] }
    return some frame

/-- The bytes that leave the port for a frame of the stack. -/
def wire (p : Port) (bytes : Bytes) : Except SwitchError Bytes :=
  match p.policy.vlanId with
  | some vlan => if p.policy.tagged then .ok bytes else addVlan bytes vlan
  | none => .ok bytes

/-- The source address and the tag are the port's own. -/
def Genuine (p : Port) (header : FrameHeader) : Prop :=
  header.source = p.policy.sourceMac ∧ egressVlanMatches p.policy header.vlanId = true
  deriving Decidable

def stageEgress (header : FrameHeader) (bytes : Bytes) : PortM Unit := do
  let p ← get
  when (¬ p.Genuine header) do
    modify fun p => { p with spoofRejections := p.spoofRejections.satAdd 1 }
    fail .spoofed
  when (p.stagedTx.length ≥ p.policy.txCapacity) do
    modify fun p => { p with droppedTx := p.droppedTx.satAdd 1 }
    fail .queueFull
  let bytes ← lift (p.wire bytes)
  modify fun p => { p with stagedTx := p.stagedTx ++ [⟨p.nextGeneration, bytes⟩] }

def commitGeneration (generation : UInt64) : PortM (List QueuedFrame) := do
  let p ← get
  check (generation ≥ p.committedGeneration) .staleGeneration
  modify fun p =>
    { p with
      committedGeneration := generation
      deliveredRx := p.deliveredRx.filter (·.generation > generation)
      stagedTx := p.stagedTx.dropWhile (·.generation ≤ generation) }
  return p.stagedTx.takeWhile (·.generation ≤ generation)

/-- Recovery replays ingress after the last committed transaction and discards outbound frames
that were never journal-committed. -/
def recoverPort (committed : UInt64) : PortM Unit := do
  let p ← get
  check (committed ≤ p.committedGeneration) .staleGeneration
  modify fun p =>
    { p with
      committedGeneration := committed
      rx := p.deliveredRx.filter (·.generation > committed) ++ p.rx
      deliveredRx := []
      stagedTx := p.stagedTx.filter (·.generation ≤ committed) }

end Port

/-! ### The switch -/

structure VirtualSwitch where
  ports : OrdMap UInt64 Port

abbrev SwitchM := Prog VirtualSwitch SwitchError

namespace VirtualSwitch

def createPort (policy : PortPolicy) : SwitchM Unit := do
  check (¬ (policy.portId = 0 ∨ policy.sourceMac.head &&& 1 ≠ 0 ∨
    policy.sourceMac = List.Vector.replicate 6 0 ∨
    policy.vlanId.any (fun vlan => vlan = 0 ∨ vlan > 4094) = true ∨ policy.rxCapacity = 0 ∨
    policy.txCapacity = 0 ∨ policy.rxCapacity > 4096 ∨ policy.txCapacity > 4096)) .invalidPort
  let s ← get
  check (¬ policy.portId ∈ s.ports) .alreadyExists
  modify fun s => { s with ports := s.ports.insert policy.portId ⟨policy, [], [], [], 0, 0, 0, 0⟩ }

/-- Run a program on a port. -/
def onPort {α : Type} (portId : UInt64) (x : PortM α) : SwitchM α := fun s =>
  match s.ports[portId]? with
  | none => .err .notFound s
  | some port =>
    match x port with
    | .ok a port => .ok a { s with ports := s.ports.insert portId port }
    | .err e port => .err e { s with ports := s.ports.insert portId port }
    | .halt => .halt

/-- Copies a physical frame into the queue of each port that it is for, and counts the copies. -/
def ingress (physicalInterface : UInt64) (bytes : Bytes) : SwitchM ℕ := do
  let s ← get
  match FrameHeader.parse bytes with
  | .error _ => return 0
  | .ok header => do
    modify fun s =>
      { s with
        ports := s.ports.map fun _ p =>
          if p.Takes physicalInterface header then p.enqueue (p.view bytes) else p }
    return s.ports.toList.countP fun (_, p) => p.Takes physicalInterface header ∧ p.HasRoom

def ingressToPort (portId : UInt64) (bytes : Bytes) : SwitchM Unit := do
  let _ ← lift (FrameHeader.parse bytes)
  onPort portId (Port.ingressToPort bytes)

def receive (portId : UInt64) : SwitchM (Option QueuedFrame) := onPort portId Port.receive

def stageEgress (portId : UInt64) (bytes : Bytes) : SwitchM Unit := do
  let header ← lift (FrameHeader.parse bytes)
  onPort portId (Port.stageEgress header bytes)

def commitGeneration (portId generation : UInt64) : SwitchM (List QueuedFrame) :=
  onPort portId (Port.commitGeneration generation)

def recoverPort (portId committed : UInt64) : SwitchM Unit :=
  onPort portId (Port.recoverPort committed)

end VirtualSwitch

/-- Calls of the switch. -/
inductive SwitchOp where
  | ingress (physicalInterface : UInt64) (bytes : Bytes)
  | ingressToPort (portId : UInt64) (bytes : Bytes)
  | receive (portId : UInt64)
  | stageEgress (portId : UInt64) (bytes : Bytes)
  | commitGeneration (portId generation : UInt64)
  | recoverPort (portId committed : UInt64)

namespace VirtualSwitch

def exec : SwitchOp → SwitchM Unit
  | .ingress physicalInterface bytes => do let _ ← ingress physicalInterface bytes
  | .ingressToPort portId bytes => ingressToPort portId bytes
  | .receive portId => do let _ ← receive portId
  | .stageEgress portId bytes => stageEgress portId bytes
  | .commitGeneration portId generation => do let _ ← commitGeneration portId generation
  | .recoverPort portId committed => recoverPort portId committed

/-- The switch after a call, whether it succeeded or returned an error. -/
def step (op : SwitchOp) (s : VirtualSwitch) : Option VirtualSwitch := (exec op s).state?

end VirtualSwitch

end Bexos
