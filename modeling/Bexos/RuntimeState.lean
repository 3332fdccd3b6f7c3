/-
The state of the executable runtime (`runtime/mod.rs`, `runtime/memory.rs`,
`runtime/handover.rs`, `lib/migration`).

`Runtime B` holds every table of the source's `Runtime<B>`: processes, jobs, threads,
memory objects, address regions, capabilities, channels, sockets, profiles, the scheduler,
pins, DMA mappings and interrupts, the handover in progress, and the set of records changed
since the last copy.

Design notes: a table is a list, a vacant entry is `none`.  The two ends of a channel or a
socket are a type of two elements (`End`), so that no other index can be written.  The
source is compiled for one of two architectures; `Backend.arch` says which.  A saved
context always carries the tag of the architecture it was saved on, so the tag is not
stored.
-/
import Bexos.Scheduler
import Bexos.Codec
import Bexos.Migration
import Bexos.Clock

namespace Bexos

open Prog

inductive Status where
  | errInvalidHandle | errAccessDenied | errInvalidArgs | errBufferTooSmall | errPeerClosed
  | errNoMemory | errTimedOut | errResourceExhausted | errAlreadyExists
  deriving DecidableEq

/-! ### Rights, signals and limits -/

def TRANSFER : UInt32 := 0x1
def READ : UInt32 := 0x2
def WRITE : UInt32 := 0x4
def EXECUTE : UInt32 := 0x8
def MAP : UInt32 := 0x10
def DUPLICATE : UInt32 := 0x20
def SIGNAL : UInt32 := 0x40
def MANAGE_TASK : UInt32 := 0x80
def ADMIN : UInt32 := 0x80000000

def ALL_MEMORY : UInt32 := READ ||| WRITE ||| EXECUTE ||| MAP ||| TRANSFER ||| DUPLICATE
def CHANNEL_RIGHTS : UInt32 := READ ||| WRITE ||| TRANSFER ||| DUPLICATE

def SIGNAL_READABLE : UInt32 := 0x1
def SIGNAL_WRITABLE : UInt32 := 0x2
def SIGNAL_PEER_CLOSED : UInt32 := 0x4
def SIGNAL_TERMINATED : UInt32 := 0x20

/-- The owner of a capability that travels in a message. -/
def IN_TRANSIT : ℕ := 2 ^ 64 - 1
def MAX_PROCESSES : ℕ := 256
def MAX_JOBS : ℕ := 256
def MAX_THREADS : ℕ := 256
def DEFAULT_INTERRUPT_FLOOD_LIMIT_PER_SECOND : UInt32 := 100000

def PAGE : UInt64 := 4096
def USER_END : UInt64 := 0x8000000000
def USER_HEAP_VMAR_BASE : UInt64 := 0x300000000
def USER_HEAP_VMAR_SIZE : UInt64 := 64 * 1024 * 1024 * 1024
/-- Size of the memory object behind restricted mode. -/
def STATE_VMO_SIZE : UInt64 := 4096

def AUTH_APP_MANAGER : UInt32 := 1
def AUTH_PLATFORM_UPDATE : UInt32 := 2
def AUTH_SECURE_MONITOR : UInt32 := 4
def AUTH_VALID_MASK : UInt32 := AUTH_APP_MANAGER ||| AUTH_PLATFORM_UPDATE ||| AUTH_SECURE_MONITOR

/-- Round up to a page. -/
def pageRound (value : UInt64) : Option UInt64 :=
  (value.checkedAdd (PAGE - 1)).map (· &&& ~~~(PAGE - 1))

inductive Arch where
  | aarch64 | x86_64
  deriving DecidableEq

def Arch.userStart : Arch → UInt64
  | .aarch64 => 0x80000000
  | .x86_64 => 0x40000000

/-- `Context::ARCHITECTURE`. -/
def Arch.tag : Arch → UInt64
  | .aarch64 => 1
  | .x86_64 => 2

/-! ### The machine -/

/-- The machine under the runtime: page frames, address spaces, clocks. -/
class Backend (B : Type) where
  arch : Arch
  revokeSharedPin (token : UInt64) (b : B) : B
  monotonicMs (b : B) : Option UInt64
  monotonicNs (b : B) : Option UInt64
  allocate (pages : UInt64) (b : B) : Except Status UInt64 × B
  release (base pages : UInt64) (b : B) : B
  newSpace (b : B) : Except Status UInt64 × B
  destroySpace (root : UInt64) (b : B) : B
  mapPage (root va pa : UInt64) (rights : UInt32) (device : Bool) (b : B) :
    Except Status Unit × B
  unmapPage (root va : UInt64) (b : B) : B
  flushMappings (b : B) : B
  flushPage (asid : UInt16) (va : UInt64) (b : B) : B
  read (b : B) (pa : UInt64) (len : ℕ) : Bytes
  write (pa : UInt64) (bytes : Bytes) (b : B) : B
  zero (pa bytes : UInt64) (b : B) : B
  /-- The hash and the stream cipher the kernel links to. -/
  sha256 (bytes : Bytes) : List.Vector UInt8 32
  chacha20 (seed : List.Vector UInt8 32) (stream : UInt64) (len : ℕ) : Bytes

/-! ### Objects -/

/-- One end of a channel or a socket. -/
inductive End where
  | zero | one
  deriving DecidableEq

def End.peer : End → End
  | .zero => .one
  | .one => .zero

/-- A value for each end. -/
structure Ends (α : Type) where
  zero : α
  one : α
  deriving DecidableEq

def Ends.get {α : Type} (p : Ends α) : End → α
  | .zero => p.zero
  | .one => p.one

def Ends.modify {α : Type} (e : End) (f : α → α) (p : Ends α) : Ends α :=
  match e with
  | .zero => { p with zero := f p.zero }
  | .one => { p with one := f p.one }

inductive Object where
  | vmo (id : ℕ)
  | vmar (id : ℕ)
  | channel (id : ℕ) (e : End)
  | socket (id : ℕ) (e : End)
  | process (id : ℕ)
  | job (id : ℕ)
  | space (id : ℕ)
  | thread (id : ℕ)
  | profile (id : ℕ)
  | replyToken (id : ℕ) (e : End) (callId : UInt64)
  | iommuDomain (id : ℕ)
  | interrupt (id : ℕ)
  | resourceGroup (id : UInt32)
  deriving DecidableEq

structure Capability where
  object : Object
  rights : UInt32
  owner : ℕ
  deriving DecidableEq

structure Message where
  bytes : Bytes
  handles : List ℕ
  deriving DecidableEq

structure ChannelPolicy where
  enablePriorityInheritance : Bool
  enableTimesliceDonation : Bool
  deriving DecidableEq

def ChannelPolicy.disabled : ChannelPolicy := ⟨false, false⟩

structure RuntimeCall where
  id : UInt64
  callerEnd : End
  callerThread : ℕ
  request : Message
  reply : Option Message
  serving : Bool
  serverThread : Option ℕ
  deriving DecidableEq

structure Channel where
  identity : UInt64
  queues : Ends (List Message)
  calls : Ends (List RuntimeCall)
  refs : Ends ℕ
  nextCallId : UInt64
  policy : ChannelPolicy
  deriving DecidableEq

structure Socket where
  queues : Ends (List Bytes)
  refs : Ends ℕ
  readClosed : Ends Bool
  writeClosed : Ends Bool
  deriving DecidableEq

/-- A context has general registers. -/
instance registersNonempty : NeZero 31 := ⟨by decide⟩

/-- Saved registers. -/
structure Context where
  regs : List.Vector UInt64 31
  stackPointer : UInt64
  instructionPointer : UInt64
  processorState : UInt64
  simd : List.Vector UInt64 64
  fpControl : UInt64
  fpStatus : UInt64
  threadPointer : UInt64
  deriving DecidableEq

structure Mapping where
  vmo : ℕ
  vmar : ℕ
  offset : UInt64
  va : UInt64
  size : UInt64
  rights : UInt32
  deriving DecidableEq

structure PacKeyMaterial where
  lo : UInt64
  hi : UInt64
  deriving DecidableEq

structure Process where
  authority : UInt32
  quarantined : Bool
  name : Text
  package : Text
  hardware : UInt32
  resourceGroupId : UInt32
  job : Option ℕ
  realtimeScheduling : Bool
  root : UInt64
  asid : UInt16
  userspacePacKey : PacKeyMaterial
  context : Context
  running : Bool
  exited : Bool
  rootVmar : ℕ
  heapVmar : ℕ
  mappings : List Mapping
  nextVa : UInt64
  deriving DecidableEq

structure Job where
  name : Text
  package : Text
  hardware : UInt32
  resourceGroupId : UInt32
  realtimeScheduling : Bool
  maxProcesses : UInt16
  deriving DecidableEq

structure RestrictedBinding where
  stateVmo : ℕ
  hostContext : Context
  guestContext : Context
  hostReadonlyThreadPointer : UInt64
  guestReadonlyThreadPointer : UInt64
  vectorEntry : UInt64
  vectorContext : UInt64
  active : Bool
  pendingKick : Bool
  transitionPending : Bool
  deriving DecidableEq

structure Thread where
  process : ℕ
  context : Context
  running : Bool
  exited : Bool
  blockedFutex : Option UInt64
  blockedWaitMany : Bool
  exitCode : Int32
  restricted : Option RestrictedBinding
  deriving DecidableEq

structure Interrupt where
  irqNumber : UInt32
  flags : UInt32
  masked : Bool
  awaitingAck : Bool
  windowStartedNs : UInt64
  eventsInWindow : UInt32
  floodLimitPerSecond : UInt32
  deriving DecidableEq

inductive VmoBacking where
  | contiguous (base : UInt64)
  | lazyAnonymous (pages : List (Option UInt64))
  /-- Host-owned shared memory, never released to the page allocator. -/
  | sharedDevice (base : UInt64)
  deriving DecidableEq

structure Vmo where
  size : UInt64
  refs : ℕ
  device : Bool
  bootfs : Bool
  backing : VmoBacking
  deriving DecidableEq

structure Vmar where
  owner : ℕ
  parent : Option ℕ
  base : UInt64
  size : UInt64
  rights : UInt32
  refs : ℕ
  destroyed : Bool
  deriving DecidableEq

structure IommuDomain where
  owner : ℕ
  streamId : UInt64
  addressWidth : UInt8
  refs : ℕ
  closed : Bool
  deriving DecidableEq

structure DmaMapping where
  owner : ℕ
  domain : ℕ
  vmo : ℕ
  offset : UInt64
  length : UInt64
  permissions : UInt32
  deviceAddress : UInt64
  deriving DecidableEq

/-! ### Identifiers of address spaces, entropy, handovers -/

inductive AsidSupport where
  | none | bits8 | bits16
  deriving DecidableEq

structure AsidAllocator where
  next : UInt16
  max : UInt16
  deriving DecidableEq

namespace AsidAllocator

def new : AsidSupport → AsidAllocator
  | .none => ⟨0, 0⟩
  | .bits8 => ⟨1, 0xff⟩
  | .bits16 => ⟨1, 0xffff⟩

/-- The next identifier, round the allowed range; zero when identifiers are not used. -/
def allocate (a : AsidAllocator) : Option (UInt16 × AsidAllocator) :=
  if a.max = 0 then some (0, a)
  else if a.next = 0 then Option.none
  else some (a.next, { a with next := if a.next = a.max then 1 else a.next + 1 })

end AsidAllocator

structure Entropy where
  seed : List.Vector UInt8 32
  stream : UInt64
  deriving DecidableEq

structure Handover where
  coordinator : ℕ
  source : ℕ
  target : ℕ
  session : Session
  handles : List ℕ
  mappings : List Mapping
  pins : List UInt64
  sourceRunning : Bool
  deriving DecidableEq

/-! ### Records

The state is copied to a replacement kernel record by record. -/

inductive RecordKind where
  | metadata | process | vmo | handle | channel | pin | socket | thread | vmar | profile
  | iommuDomain | dmaMapping | interrupt | job
  deriving DecidableEq

/-- The number of a kind, the top byte of a key. -/
def RecordKind.code : RecordKind → ℕ
  | .metadata => 0
  | .process => 1
  | .vmo => 2
  | .handle => 3
  | .channel => 4
  | .pin => 5
  | .socket => 6
  | .thread => 7
  | .vmar => 8
  | .profile => 9
  | .iommuDomain => 10
  | .dmaMapping => 11
  | .interrupt => 12
  | .job => 13

/-- The key of a record: its kind and its slot (below `2 ^ 56`). -/
structure RecordKey where
  kind : RecordKind
  index : ℕ
  deriving DecidableEq

/-- Keys are ordered as the words that carry them: by kind, then by slot. -/
instance : LT RecordKey :=
  ⟨fun a b => a.kind.code < b.kind.code ∨ a.kind = b.kind ∧ a.index < b.index⟩

instance : DecidableLT RecordKey := fun a b =>
  inferInstanceAs (Decidable (a.kind.code < b.kind.code ∨ a.kind = b.kind ∧ a.index < b.index))

/-! ### The runtime -/

structure Runtime (B : Type) where
  handover : Option Handover
  dirty : Option (DirtySet RecordKey)
  deferReclamation : Bool
  reclaimCursor : ℕ
  backend : B
  processes : List Process
  jobs : List Job
  current : ℕ
  threads : List Thread
  currentThread : ℕ
  vmos : List (Option Vmo)
  vmars : List (Option Vmar)
  handles : List (Option Capability)
  channels : List Channel
  sockets : List Socket
  profiles : List SchedulingProfile
  scheduler : Scheduler
  /-- Owner and memory object of each pin. -/
  pins : List (Option (ℕ × ℕ))
  iommuDomains : List (Option IommuDomain)
  dmaMappings : List (Option DmaMapping)
  interrupts : List (Option Interrupt)
  asids : AsidAllocator
  bootfsPages : UInt64
  reclaimedPages : UInt64
  zeroPage : Option UInt64
  pacSeed : List.Vector UInt64 4
  entropy : Option Entropy
  realtimeSlew : SlewState
  timePageVmo : Option ℕ

/-- Programs on the runtime. -/
abbrev RtM (B : Type) := Prog (Runtime B) Status

namespace Runtime

variable {B : Type}

def new (backend : B) (scheduler : Scheduler) (support : AsidSupport) : Runtime B :=
  { handover := none
    dirty := none
    deferReclamation := false
    reclaimCursor := 0
    backend
    processes := []
    jobs := []
    current := 0
    threads := []
    currentThread := 0
    vmos := []
    vmars := []
    handles := []
    channels := []
    sockets := []
    profiles := []
    scheduler
    pins := []
    iommuDomains := []
    dmaMappings := []
    interrupts := []
    asids := AsidAllocator.new support
    bootfsPages := 0
    reclaimedPages := 0
    zeroPage := none
    pacSeed := ⟨[0x1a2b3c4d5e6f7788, 0x88776f5e4d3c2b1a, 0x3243f6a8885a308d,
      0x13198a2e03707344], rfl⟩
    entropy := none
    realtimeSlew := SlewState.new
    timePageVmo := none }

/-- A scheduler for one CPU. -/
def singleCpuScheduler : Scheduler := { Scheduler.empty with currentTaskIds := [none] }

def withCpuCount (backend : B) (cpuCount : ℕ) (support : AsidSupport) : Runtime B :=
  match Scheduler.withCpuCount cpuCount with
  | .ok scheduler => new backend scheduler support
  | .error _ => new backend singleCpuScheduler support

end Runtime

end Bexos
