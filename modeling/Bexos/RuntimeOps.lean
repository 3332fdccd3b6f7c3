/-
The runtime as a transition system.

`Op B` lists the public operations of the runtime that can change its state, with the two
scheduler calls the kernel makes on its own and the changes of the machine under it
(`Op.machine`).  `exec` runs an operation; `step` is the state after it, whether it
succeeded or returned an error.  `Reaches C` are the runs from a new runtime all of whose
operations meet the condition `C` in the state they start from.

`TestBackend` is the machine of the runtime's own tests (`tests/runtime_snapshot_tests.rs`):
frames are handed out one after the other, mappings are accepted, memory reads as zeros.
Concrete runs are evaluated on it.

Design notes: `grant`, which trusts its caller, is an operation only as part of the others.
-/
import Bexos.OperationMoves
import Bexos.LiveSnapshot

namespace Bexos

open Prog

inductive Op (B : Type) where
  -- capabilities
  | close (h : ℕ)
  | duplicate (h : ℕ) (rights : UInt32)
  -- memory
  | createVmo (size : UInt64) (flags : UInt32)
  | importVmo (base size : UInt64) (device bootfs : Bool) (rights : UInt32)
  | physicalVmo (base size : UInt64)
  | sharedDeviceVmo (base size : UInt64)
  | vmoPagePhys (id : ℕ) (offset : UInt64) (forWrite : Bool)
  | insertVmar (owner : ℕ) (parent : Option ℕ) (base size : UInt64) (rights : UInt32)
  | rootVmarConstructionHandle (space : ℕ)
  | createSubVmar (parent : ℕ) (offset size : UInt64) (flags : UInt32)
  | mapVmoInVmar (vmar h : ℕ) (offset vmarOffset size : UInt64) (flags : UInt32)
  | mapInVmar (vmarId h : ℕ) (offset vmarOffset size : UInt64) (rights : UInt32)
  | map (space : Option ℕ) (h : ℕ) (offset size va : UInt64) (rights : UInt32)
  | unmap (space : Option ℕ) (va size : UInt64)
  | unmapInVmar (vmar : ℕ) (va size : UInt64)
  | destroyVmar (vmar : ℕ)
  | pin (h : ℕ)
  | unpin (token : ℕ)
  | materializeVmoForKernelSlice (id : ℕ)
  | createIommuDomain (streamId : UInt64) (addressWidth : UInt8)
  | mapDma (domain h : ℕ) (offset length : UInt64) (permissions : UInt32)
  | unmapDma (token : UInt64)
  | copyToUser (va : UInt64) (bytes : Bytes)
  | commitUserWriteFault (va : UInt64)
  | commitUserRange (va len : UInt64)
  | adjustClock (clock : ClockType) (offsetDelta : Int64) (rate : Int32)
      (ticks frequencyHz : UInt64)
  | getVdsoTimePage (ticks frequencyHz : UInt64)
  | updateTimePage (ticks frequencyHz : UInt64)
  -- channels, sockets, interrupts
  | waitMany (items : List (ℕ × UInt32)) (deadlineNanos : Int64)
  | createSchedulingProfile (profile : SchedulingProfile)
  | openResourceGroup (id : UInt32)
  | createResourceGroupV2 (parent : Option ℕ) (shares : UInt32) (permille : UInt16)
      (realtime : Bool)
  | createChannel
  | writeMessage (h : ℕ) (bytes : Bytes) (handles : List ℕ)
  | readMessage (h maxBytes maxHandles : ℕ)
  | setChannelPolicy (h : ℕ) (inheritance donation : Bool)
  | call (h : ℕ) (bytes : Bytes) (handles : List ℕ) (deadlineNanos : Int64)
      (maxReplyBytes maxReplyHandles : ℕ)
  | readCall (h : ℕ) (deadlineNanos : Int64) (maxBytes maxHandles : ℕ)
  | replyCall (token : ℕ) (bytes : Bytes) (handles : List ℕ)
  | createSocketPair
  | writeSocket (h : ℕ) (bytes : Bytes)
  | readSocket (h maxBytes : ℕ)
  | shutdownSocket (h : ℕ) (read write : Bool)
  | bindInterrupt (irqNumber flags : UInt32)
  | acknowledgeInterrupt (h : ℕ)
  | maskInterrupt (h : ℕ) (masked : Bool)
  | deliverInterrupt (irqNumber : UInt32) (nowNs : UInt64)
  -- processes and threads
  | setBootEntropySeed (seed : Option (List.Vector UInt64 4))
  | randomBytes (length : ℕ)
  | createProcessWithPolicy (name package : Text) (hardware group : UInt32) (realtime : Bool)
  | createComponentJob (name package : Text) (hardware group : UInt32) (realtime : Bool)
      (maxProcesses : UInt16)
  | createProcessInJob (job : ℕ) (name : Text)
  | startWithThreadPointer (process space : ℕ) (entry stack threadPointer arg : UInt64)
  | createThreadCurrentWithThreadPointer (entry stack threadPointer arg : UInt64)
  | setThreadProfile (thread profile : ℕ)
  | setThreadCpuAffinity (thread : ℕ) (affinityMask : UInt64)
  | yieldCurrentOnCpu (cpu thread : ℕ)
  | terminateProcess (process : ℕ) (exitCode : Int32)
  | terminateJob (job : ℕ) (exitCode : Int32)
  | exitCurrentWithCode (exitCode : Int32)
  | setProcessSuspended (h : ℕ) (suspended : Bool)
  | saveContext (context : Context)
  | scheduleYieldAtOnCpu (cpu : ℕ) (now : UInt64) (frame : Context)
  | scheduleAtOnCpu (cpu : ℕ) (now : UInt64) (frame : Context)
  | bindCurrentCpu (cpu : ℕ)
  | futexWaitCurrentTimeout (uaddr : UInt64) (expected : UInt32) (timeoutNs : Int64)
  | futexWake (uaddr : UInt64) (wakeCount : UInt32)
  | reclaimRetiredPages (pageBudget : ℕ)
  -- handovers
  | setProcessAuthority (process : ℕ) (authority : UInt32)
  | discardCandidate (process : ℕ)
  | beginHandover (source target : ℕ) (generation now : UInt64) (timeouts : Timeouts)
  | preserveHandle (handle : ℕ)
  | preserveMapping (handle : ℕ) (offset va size : UInt64) (rights : UInt32)
  | preservePin (token : UInt64)
  | handoverBulk (now : UInt64)
  | handoverCatchUp (now : UInt64)
  | beginCutoverHandover (sequence now : UInt64)
  | quiesceHandover (sequence now : UInt64)
  | readyHandover (sequence now : UInt64)
  | commitHandover (now : UInt64)
  | abortHandover
  | pollHandover (now : UInt64)
  -- restricted mode
  | restrictedBindState (options : UInt32) (stateHandle : ℕ)
  | restrictedUnbindState (options : UInt32)
  | restrictedEnter (options : UInt32) (vectorEntry vectorContext : UInt64) (host : Context)
      (hostReadonlyThreadPointer : UInt64)
  | restrictedExitCurrent (reason : Reason) (exceptionCode faultAddress : UInt64)
      (guest : Context)
  | restrictedKick (options : UInt32) (thread : ℕ)
  | restrictedDeliverPendingKick (frame : Context)
  | restrictedTakeTransition
  | restrictedCaptureReadonlyThreadPointer (value : UInt64)
  -- live snapshots
  | beginLiveSnapshot (dirtyCapacity : ℕ)
  | endLiveSnapshot
  | recordCopied (key : RecordKey)
  -- what the kernel does to the scheduler, and what the machine does
  | accountRuntime (nowNs : UInt64)
  | accountExecuting (cpu thread : ℕ) (nowNs : UInt64)
  | machine (b : B)

/-- Is the operation a commit? -/
def Op.commits {B : Type} : Op B → Bool
  | .commitHandover _ => true
  | _ => false

namespace Runtime

variable {B : Type} [Backend B]

/-- Run a program for its effect. -/
def discard {α : Type} (x : RtM B α) : RtM B Unit := do
  let _ ← x
  return ()

/-- Change the scheduler outside the runtime's own operations. -/
def onScheduler (f : Scheduler → Scheduler) : RtM B Unit :=
  modify fun s => { s with scheduler := f s.scheduler }

/-- Run an operation. -/
def exec : Op B → RtM B Unit
  | .close h => close h
  | .duplicate h rights => discard (duplicate h rights)
  | .createVmo size flags => discard (createVmo size flags)
  | .importVmo base size device bootfs rights =>
    discard (importVmo base size device bootfs rights)
  | .physicalVmo base size => discard (physicalVmo base size)
  | .sharedDeviceVmo base size => discard (sharedDeviceVmo base size)
  | .vmoPagePhys id offset forWrite => discard (vmoPagePhys id offset forWrite)
  | .insertVmar owner parent base size rights =>
    discard (insertVmar owner parent base size rights)
  | .rootVmarConstructionHandle space => discard (rootVmarConstructionHandle space)
  | .createSubVmar parent offset size flags => discard (createSubVmar parent offset size flags)
  | .mapVmoInVmar vmar h offset vmarOffset size flags =>
    discard (mapVmoInVmar vmar h offset vmarOffset size flags)
  | .mapInVmar vmarId h offset vmarOffset size rights =>
    discard (mapInVmar vmarId h offset vmarOffset size rights)
  | .map space h offset size va rights => discard (map space h offset size va rights)
  | .unmap space va size => unmap space va size
  | .unmapInVmar vmar va size => unmapInVmar vmar va size
  | .destroyVmar vmar => destroyVmar vmar
  | .pin h => discard (pin h)
  | .unpin token => unpin token
  | .materializeVmoForKernelSlice id => discard (materializeVmoForKernelSlice id)
  | .createIommuDomain streamId addressWidth =>
    discard (createIommuDomain streamId addressWidth)
  | .mapDma domain h offset length permissions =>
    discard (mapDma domain h offset length permissions)
  | .unmapDma token => unmapDma token
  | .copyToUser va bytes => copyToUser va bytes
  | .commitUserWriteFault va => commitUserWriteFault va
  | .commitUserRange va len => commitUserRange va len
  | .adjustClock clock offsetDelta rate ticks frequencyHz =>
    adjustClock clock offsetDelta rate ticks frequencyHz
  | .getVdsoTimePage ticks frequencyHz => discard (getVdsoTimePage ticks frequencyHz)
  | .updateTimePage ticks frequencyHz => updateTimePage ticks frequencyHz
  | .waitMany items deadlineNanos => discard (waitMany items deadlineNanos)
  | .createSchedulingProfile profile => discard (createSchedulingProfile profile)
  | .openResourceGroup id => discard (openResourceGroup id)
  | .createResourceGroupV2 parent shares permille realtime =>
    discard (createResourceGroupV2 parent shares permille realtime)
  | .createChannel => discard createChannel
  | .writeMessage h bytes handles => writeMessage h bytes handles
  | .readMessage h maxBytes maxHandles => discard (readMessage h maxBytes maxHandles)
  | .setChannelPolicy h inheritance donation => setChannelPolicy h inheritance donation
  | .call h bytes handles deadlineNanos maxReplyBytes maxReplyHandles =>
    discard (call h bytes handles deadlineNanos maxReplyBytes maxReplyHandles)
  | .readCall h deadlineNanos maxBytes maxHandles =>
    discard (readCall h deadlineNanos maxBytes maxHandles)
  | .replyCall token bytes handles => replyCall token bytes handles
  | .createSocketPair => discard createSocketPair
  | .writeSocket h bytes => discard (writeSocket h bytes)
  | .readSocket h maxBytes => discard (readSocket h maxBytes)
  | .shutdownSocket h read write => shutdownSocket h read write
  | .bindInterrupt irqNumber flags => discard (bindInterrupt irqNumber flags)
  | .acknowledgeInterrupt h => discard (acknowledgeInterrupt h)
  | .maskInterrupt h masked => discard (maskInterrupt h masked)
  | .deliverInterrupt irqNumber nowNs => discard (deliverInterrupt irqNumber nowNs)
  | .setBootEntropySeed seed => setBootEntropySeed seed
  | .randomBytes length => discard (randomBytes length)
  | .createProcessWithPolicy name package hardware group realtime =>
    discard (createProcessWithPolicy name package hardware group realtime)
  | .createComponentJob name package hardware group realtime maxProcesses =>
    discard (createComponentJob name package hardware group realtime maxProcesses)
  | .createProcessInJob job name => discard (createProcessInJob job name)
  | .startWithThreadPointer process space entry stack threadPointer arg =>
    discard (startWithThreadPointer process space entry stack threadPointer arg)
  | .createThreadCurrentWithThreadPointer entry stack threadPointer arg =>
    discard (createThreadCurrentWithThreadPointer entry stack threadPointer arg)
  | .setThreadProfile thread profile => setThreadProfile thread profile
  | .setThreadCpuAffinity thread affinityMask => setThreadCpuAffinity thread affinityMask
  | .yieldCurrentOnCpu cpu thread => yieldCurrentOnCpu cpu thread
  | .terminateProcess process exitCode => terminateProcess process exitCode
  | .terminateJob job exitCode => terminateJob job exitCode
  | .exitCurrentWithCode exitCode => exitCurrentWithCode exitCode
  | .setProcessSuspended h suspended => setProcessSuspended h suspended
  | .saveContext context => saveContext context
  | .scheduleYieldAtOnCpu cpu now frame => discard (scheduleYieldAtOnCpu cpu now frame)
  | .scheduleAtOnCpu cpu now frame => discard (scheduleAtOnCpu cpu now frame)
  | .bindCurrentCpu cpu => discard (bindCurrentCpu cpu)
  | .futexWaitCurrentTimeout uaddr expected timeoutNs =>
    futexWaitCurrentTimeout uaddr expected timeoutNs
  | .futexWake uaddr wakeCount => discard (futexWake uaddr wakeCount)
  | .reclaimRetiredPages pageBudget => discard (reclaimRetiredPages pageBudget)
  | .setProcessAuthority process authority => setProcessAuthority process authority
  | .discardCandidate process => discardCandidate process
  | .beginHandover source target generation now timeouts =>
    beginHandover source target generation now timeouts
  | .preserveHandle handle => preserveHandle handle
  | .preserveMapping handle offset va size rights =>
    preserveMapping handle offset va size rights
  | .preservePin token => preservePin token
  | .handoverBulk now => handoverBulk now
  | .handoverCatchUp now => handoverCatchUp now
  | .beginCutoverHandover sequence now => beginCutoverHandover sequence now
  | .quiesceHandover sequence now => quiesceHandover sequence now
  | .readyHandover sequence now => readyHandover sequence now
  | .commitHandover now => commitHandover now
  | .abortHandover => abortHandover
  | .pollHandover now => pollHandover now
  | .restrictedBindState options stateHandle => restrictedBindState options stateHandle
  | .restrictedUnbindState options => restrictedUnbindState options
  | .restrictedEnter options vectorEntry vectorContext host hostReadonlyThreadPointer =>
    discard (restrictedEnter options vectorEntry vectorContext host hostReadonlyThreadPointer)
  | .restrictedExitCurrent reason exceptionCode faultAddress guest =>
    discard (restrictedExitCurrent reason exceptionCode faultAddress guest)
  | .restrictedKick options thread => discard (restrictedKick options thread)
  | .restrictedDeliverPendingKick frame => discard (restrictedDeliverPendingKick frame)
  | .restrictedTakeTransition => discard restrictedTakeTransition
  | .restrictedCaptureReadonlyThreadPointer value =>
    restrictedCaptureReadonlyThreadPointer value
  | .beginLiveSnapshot dirtyCapacity => discard (beginLiveSnapshot dirtyCapacity)
  | .endLiveSnapshot => endLiveSnapshot
  | .recordCopied key => recordCopied key
  | .accountRuntime nowNs => onScheduler (Scheduler.accountRuntime nowNs)
  | .accountExecuting cpu thread nowNs =>
    onScheduler (Scheduler.accountExecuting cpu thread nowNs)
  | .machine b => onBackend fun _ => b

instance {R : Runtime B → Runtime B → Prop} [IsTrans (Runtime B) R] [Std.Refl R] {α : Type}
    (x : RtM B α) [Moves R x] : Moves R (discard x) := by
  unfold discard
  infer_instance

section Frames

variable {F : List Part}

instance {R : Runtime B → Runtime B → Prop} [Calls R] (f : Scheduler → Scheduler)
    [SchedCall (modify f : SchedM Unit)] : Moves R (onScheduler f : RtM B Unit) :=
  Calls.account f

instance [Has .dirty F] (capacity) :
    Moves (Touches F) (beginLiveSnapshot capacity : RtM B BulkCursor) := by
  unfold beginLiveSnapshot
  infer_instance

instance [Has .dirty F] : Moves (Touches F) (endLiveSnapshot : RtM B Unit) := by
  unfold endLiveSnapshot
  infer_instance

instance [Has .dirty F] (key) : Moves (Touches F) (recordCopied key : RtM B Unit) := by
  unfold recordCopied
  infer_instance

end Frames

/-- The state after an operation, unless the kernel stopped. -/
def step (op : Op B) (s : Runtime B) : Option (Runtime B) := (exec op s).state?

/-- The states that runs from a new runtime reach, if each operation of the run meets the
condition `C`. -/
def Reaches (C : Runtime B → Op B → Prop) (t : Runtime B) : Prop :=
  ∃ backend cpuCount support, Steps step C (withCpuCount backend cpuCount support) t

variable {C : Runtime B → Op B → Prop} {t : Runtime B}

theorem Reaches.invariant {I : Runtime B → Prop}
    (hnew : ∀ backend cpuCount support, I (withCpuCount backend cpuCount support))
    (hstep : ∀ s op, I s → C s op → ends (exec op) I s) (ht : Reaches C t) :
    I t := by
  obtain ⟨backend, cpuCount, support, hrun⟩ := ht
  exact hrun.invariant (fun s op u hs hc hu => of_state (hstep s op hs hc) hu)
    (hnew backend cpuCount support)

/-- The states that watched runs from a new runtime reach, with what the observer has written
down. -/
def Watches {ω : Type} (note : ω → Op B → Runtime B → Runtime B → ω) (start : ω)
    (C : Runtime B → Op B → Prop) (t : Runtime B) (w : ω) : Prop :=
  ∃ backend cpuCount support, Steps (watch step note) (fun x op => C x.1 op)
    (withCpuCount backend cpuCount support, start) (t, w)

theorem Watches.invariant {ω : Type} {note : ω → Op B → Runtime B → Runtime B → ω} {start}
    {I : Runtime B → ω → Prop}
    (hnew : ∀ backend cpuCount support, I (withCpuCount backend cpuCount support) start)
    (hstep : ∀ s w op, I s w → C s op → ends (exec op) (fun t => I t (note w op s t)) s) {w}
    (ht : Watches note start C t w) : I t w := by
  obtain ⟨backend, cpuCount, support, hrun⟩ := ht
  refine hrun.invariant (I := fun x => I x.1 x.2) (fun x op y hx hc hy => ?_)
    (hnew backend cpuCount support)
  obtain ⟨u, hu, rfl⟩ := Option.map_eq_some_iff.mp hy
  exact of_state (P := fun u => I u (note x.2 op x.1 u)) (hstep x.1 x.2 op hx hc) hu

end Runtime

/-! ### The machine of the tests -/

/-- The next free frame. -/
structure TestBackend where
  next : UInt64
  deriving DecidableEq

instance : Backend TestBackend where
  arch := .aarch64
  revokeSharedPin _ b := b
  monotonicMs _ := none
  monotonicNs _ := none
  allocate pages b := (.ok b.next, ⟨b.next + pages * PAGE⟩)
  release _ _ b := b
  newSpace b := (.ok b.next, ⟨b.next + PAGE⟩)
  destroySpace _ b := b
  mapPage _ _ _ _ _ b := (.ok (), b)
  unmapPage _ _ b := b
  flushMappings b := b
  flushPage _ _ b := b
  read _ _ len := List.replicate len 0
  write _ _ b := b
  zero _ _ b := b
  sha256 _ := List.Vector.replicate 32 0
  chacha20 _ _ len := List.replicate len 0

/-- A run on some machine leads to a reachable state, and what it shows of that state holds. -/
theorem Runtime.exists_reaches_of_runAll {B : Type} [Backend B] (backend : B)
    (C : Runtime B → Op B → Prop) [∀ s op, Decidable (C s op)] (P : Runtime B → Prop)
    [DecidablePred P] (ops : List (Op B))
    (h : (runAll Runtime.step (fun s op => decide (C s op)) ops
      (Runtime.withCpuCount backend 1 .none)).any (fun t => decide (P t)) = true) :
    ∃ t, Runtime.Reaches C t ∧ P t := by
  obtain ⟨t, ht, hP⟩ := exists_steps C ops h
  exact ⟨t, ⟨backend, 1, .none, ht⟩, hP⟩

namespace TestBackend

/-- A new runtime on the test machine, with one CPU. -/
def runtime : Runtime TestBackend := Runtime.withCpuCount ⟨0x45000000⟩ 1 .none

/-- The state after a run whose operations meet a condition. -/
def run (C : Runtime TestBackend → Op TestBackend → Prop) [∀ s op, Decidable (C s op)]
    (ops : List (Op TestBackend)) : Option (Runtime TestBackend) :=
  runAll Runtime.step (fun s op => decide (C s op)) ops runtime

/-- A run leads to a reachable state, and what it shows of that state holds. -/
theorem exists_reaches_of_run (C : Runtime TestBackend → Op TestBackend → Prop)
    [∀ s op, Decidable (C s op)] (P : Runtime TestBackend → Prop) [DecidablePred P]
    (ops : List (Op TestBackend)) (h : (run C ops).any (fun t => decide (P t)) = true) :
    ∃ t, Runtime.Reaches C t ∧ P t :=
  Runtime.exists_reaches_of_runAll (⟨0x45000000⟩ : TestBackend) C P ops h

/-- The same for a run with an observer. -/
theorem exists_watches_of_run {ω : Type}
    (note : ω → Op TestBackend → Runtime TestBackend → Runtime TestBackend → ω) (start : ω)
    (C : Runtime TestBackend → Op TestBackend → Prop) [∀ s op, Decidable (C s op)]
    (P : Runtime TestBackend → ω → Prop) [∀ s w, Decidable (P s w)]
    (ops : List (Op TestBackend))
    (h : (runAll (watch Runtime.step note) (fun x op => decide (C x.1 op)) ops
      (runtime, start)).any (fun x => decide (P x.1 x.2)) = true) :
    ∃ t w, Runtime.Watches note start C t w ∧ P t w := by
  obtain ⟨⟨t, w⟩, ht, hP⟩ := exists_steps _ ops h
  exact ⟨t, w, ⟨⟨0x45000000⟩, 1, .none, ht⟩, hP⟩

/-! ### A service and its successor -/

def service : Text := ⟨ascii "svc", by decide⟩

def idle : Context := ⟨List.Vector.replicate 31 0, 0, 0, 0, List.Vector.replicate 64 0, 0, 0, 0⟩

/-- Two processes of one package. The first runs; handle 4 is a memory object of two pages,
which both processes map. Handles 2 and 7 name the processes, 3 and 8 their address spaces. -/
def twoProcesses : List (Op TestBackend) :=
  [.createProcessWithPolicy service service 0 1 false,
    .createVmo 0x2000 0,
    .map none 4 0 0x1000 0x80000000 (READ ||| EXECUTE),
    .map none 4 0x1000 0x1000 0x80001000 (READ ||| WRITE),
    .startWithThreadPointer 2 3 0x80000000 0x80002000 0 0,
    .scheduleAtOnCpu 0 0 idle,
    .createProcessWithPolicy service service 0 1 false,
    .map (some 8) 4 0 0x1000 0x80000000 (READ ||| EXECUTE),
    .map (some 8) 4 0x1000 0x1000 0x80001000 (READ ||| WRITE)]

/-- The first process hands over to the second, which is started. -/
def handoverBegun : List (Op TestBackend) :=
  twoProcesses ++
    [.beginHandover 0 7 1 0 ⟨1000, 1000⟩, .startWithThreadPointer 7 8 0x80000000 0x80002000 0 0]

end TestBackend

end Bexos
