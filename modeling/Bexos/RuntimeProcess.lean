/-
Processes, jobs and threads (`runtime/mod.rs`, `context.rs`, `process_control.rs`,
`reclamation.rs`, `random.rs`, and `retire_process` of `handover.rs`).

* `Runtime.createProcessWithFixedPolicy` — a process with its root and heap regions;
* `Runtime.addThreadToProcess`, `Runtime.startWithThreadPointer` — threads and their tasks;
* `Runtime.terminateProcess`, `Runtime.retireProcess` — the two ways a process ends;
* `Runtime.scheduleYieldAtOnCpu`, `Runtime.scheduleAtOnCpu` — the scheduler's decisions;
* `Runtime.reclaimRetiredPages` — scrubbing what a retired process left behind.
-/
import Bexos.RuntimeMemory

namespace Bexos

open Prog

/-! ### Saved state -/

namespace Context

def zero (arch : Arch) : Context :=
  let x86 := arch == .x86_64
  { regs := ⟨List.replicate 30 0 ++ [if x86 then 0x23 else 0], by simp⟩
    stackPointer := 0
    instructionPointer := 0
    processorState := if x86 then 0x202 else 0
    simd := ⟨[if x86 then 0x37f else 0, 0, 0, if x86 then 0x1f80 else 0] ++ List.replicate 60 0,
      by simp⟩
    fpControl := 0
    fpStatus := 0
    threadPointer := 0 }

def setInitialArgument (c : Context) (argument : UInt64) : Context :=
  { c with regs := c.regs.set 0 argument }

/-- The state of a new thread. The x86 entry convention has a return address on the stack. -/
def user (arch : Arch) (entry stackTop argument threadPointer : UInt64) : Option Context :=
  if threadPointer ≥ USER_END then none
  else
    (match arch with
      | .x86_64 => stackTop.checkedSub 8
      | .aarch64 => some stackTop).map fun sp =>
        { (zero arch).setInitialArgument argument with
          instructionPointer := entry
          stackPointer := sp
          threadPointer := threadPointer }

end Context

/-- Does a profile need the right to real-time scheduling? -/
def SchedulingProfile.realtime : SchedulingProfile → Bool
  | .fair f => f.priority > 127
  | .deadline _ => true

structure AddressSpaceSwitch where
  rootTablePhys : UInt64
  asid : UInt16
  userspacePacKey : PacKeyMaterial
  deriving DecidableEq

def AddressSpaceSwitch.none : AddressSpaceSwitch := ⟨0, 0, ⟨0, 0⟩⟩

def rotateLeft (w : UInt64) (n : UInt64) : UInt64 := w <<< n ||| w >>> (64 - n)

/-- One step of the generator: the output and the next state. -/
def splitmix64 (state : UInt64) : UInt64 × UInt64 :=
  let next := state + 0x9e3779b97f4a7c15
  let z := (next ^^^ next >>> 30) * 0xbf58476d1ce4e5b9
  let z := (z ^^^ z >>> 27) * 0x94d049bb133111eb
  (z ^^^ z >>> 31, next)

namespace Runtime

variable {B : Type} [Backend B]

/-! ### Entropy -/

/-- `Entropy::from_boot`: a hash of the words under a label. -/
def entropyFromBoot (B : Type) [Backend B] (seed : List.Vector UInt64 4) : Entropy :=
  { seed := Backend.sha256 B (ascii "BexOS kernel random v1" ++ seed.toList.flatMap wordBytes)
    stream := 0 }

def setBootEntropySeed (seed : Option (List.Vector UInt64 4)) : RtM B Unit :=
  match seed with
  | none => return ()
  | some seed =>
    when (seed.toList.any (· != 0)) do
      modify fun s => { s with pacSeed := seed, entropy := some (entropyFromBoot B seed) }
      changed .metadata 0

def processPacKey (s : Runtime B) (id : ℕ) (asid : UInt16) : PacKeyMaterial :=
  let state := s.pacSeed.get 0 ^^^ rotateLeft (s.pacSeed.get 1) 17 ^^^
    rotateLeft (s.pacSeed.get 2) 31 ^^^ rotateLeft (s.pacSeed.get 3) 47 ^^^
    UInt64.ofNat id <<< 32 ^^^ asid.toUInt64 ^^^ 0xbe0500000000001
  let (lo, state) := splitmix64 state
  ⟨lo, (splitmix64 state).1⟩

abbrev randomBytes (length : ℕ) : RtM B Bytes := do
  check (length ≤ 32768) .errInvalidArgs
  let s ← get
  let e ← some? s.entropy .errAccessDenied
  let next ← some? (e.stream.checkedAdd 1) .errResourceExhausted
  modify fun s => { s with entropy := some { e with stream := next } }
  changed .metadata 0
  return Backend.chacha20 B e.seed e.stream length

/-! ### Creating processes -/

/-- `asids.allocate()`. -/
def allocateAsid : RtM B UInt16 := do
  let s ← get
  let (asid, asids) ← some? s.asids.allocate .errNoMemory
  modify fun s => { s with asids := asids }
  return asid

/-- A new process: its root region is its heap region until that exists. -/
def newProcess (s : Runtime B) (name package : Text) (hardware resourceGroupId : UInt32)
    (realtimeScheduling : Bool) (job : Option ℕ) (root : UInt64) (asid : UInt16)
    (rootVmar : ℕ) : Process :=
  { authority := if s.processes.length = 0 then AUTH_APP_MANAGER else 0
    quarantined := false
    name, package, hardware, resourceGroupId, job, realtimeScheduling, root, asid
    userspacePacKey := s.processPacKey s.processes.length asid
    context := Context.zero (Backend.arch B)
    running := false
    exited := false
    rootVmar
    heapVmar := rootVmar
    mappings := []
    nextVa := (Backend.arch B).userStart + 0x30000000 }

def createProcessWithFixedPolicy (name package : Text) (hardware resourceGroupId : UInt32)
    (realtimeScheduling : Bool) (job : Option ℕ) : RtM B (ℕ × ℕ) := do
  let s ← get
  let id := s.processes.length
  check (¬ (name.len = 0 ∨ name.len > 64 ∨ package.len > 96 ∨ hardware > 2 ∨
    resourceGroupId = 0 ∨ id ≥ MAX_PROCESSES)) .errInvalidArgs
  let root ← tryBackend Backend.newSpace
  let asid ← allocateAsid
  let rootVmar ← insertVmar id none (Backend.arch B).userStart
    (USER_END - (Backend.arch B).userStart) (READ ||| WRITE ||| EXECUTE ||| MAP ||| ADMIN)
  modify fun s =>
    { s with
      processes := s.processes ++ [s.newProcess name package hardware resourceGroupId
        realtimeScheduling job root asid rootVmar] }
  let heapVmar ← insertVmar id (some rootVmar) USER_HEAP_VMAR_BASE USER_HEAP_VMAR_SIZE
    (READ ||| WRITE ||| MAP ||| ADMIN)
  modify (modifyProcess id fun p => { p with heapVmar := heapVmar })
  let _ ← grant id (.vmar heapVmar) (READ ||| WRITE ||| MAP ||| ADMIN)
  changed .process id
  let process ← grantCurrent (.process id)
    (ADMIN ||| MANAGE_TASK ||| READ ||| SIGNAL ||| TRANSFER ||| DUPLICATE)
  let space ← grantCurrent (.space id) (ADMIN ||| READ ||| MAP ||| TRANSFER ||| DUPLICATE)
  return (process, space)

/-- Before the first process exists, nobody can hold authority. -/
abbrev checkFactory : RtM B Unit := do
  let s ← get
  check (s.processes = [] ∨ s.hasAuthority AUTH_APP_MANAGER) .errAccessDenied

def createProcessWithPolicy (name package : Text) (hardware resourceGroupId : UInt32)
    (realtimeScheduling : Bool) : RtM B (ℕ × ℕ) := do
  checkFactory
  createProcessWithFixedPolicy name package hardware resourceGroupId realtimeScheduling none

abbrev createComponentJob (name package : Text) (hardware resourceGroupId : UInt32)
    (realtimeScheduling : Bool) (maxProcesses : UInt16) : RtM B ℕ := do
  checkFactory
  let s ← get
  check (¬ (name.len = 0 ∨ name.len > 64 ∨ package.len = 0 ∨ package.len > 96 ∨ hardware > 2 ∨
    resourceGroupId = 0 ∨ maxProcesses = 0 ∨ s.jobs.length ≥ MAX_JOBS)) .errInvalidArgs
  let id := s.jobs.length
  modify fun s =>
    { s with
      jobs := s.jobs ++
        [⟨name, package, hardware, resourceGroupId, realtimeScheduling, maxProcesses⟩] }
  changed .job id
  grantCurrent (.job id) (ADMIN ||| MANAGE_TASK ||| READ ||| TRANSFER ||| DUPLICATE)

abbrev createProcessInJob (job : ℕ) (name : Text) : RtM B (ℕ × ℕ) := do
  let s ← get
  check (s.hasAuthority AUTH_APP_MANAGER) .errAccessDenied
  let c ← cap job ADMIN
  let id ← some? c.object.job? .errInvalidHandle
  let policy ← some? s.jobs[id]? .errInvalidHandle
  check (s.processes.countP (·.job == some id) < policy.maxProcesses.toNat) .errResourceExhausted
  createProcessWithFixedPolicy name policy.package policy.hardware policy.resourceGroupId
    policy.realtimeScheduling (some id)

/-! ### Threads -/

/-- The task of a new thread. Runtime threads stay on CPU 0. -/
def newTask (id process : ℕ) (resourceGroupId : UInt32) : Except SchedulerError SchedulerTask :=
  (SchedulerTask.new (id + 1) (process + 1) resourceGroupId 1 (ascii "runtime")).map fun t =>
    { t with cpuAffinityMask := 1 }

/-- The first thread is the one that runs. -/
def adoptFirstThread (id process : ℕ) : RtM B Unit := do
  let s ← get
  match Backend.monotonicNs s.backend with
  | some now => do
    let _ ← sched (Scheduler.tickAtOnCpu 0 now)
    modify fun s => { s with currentThread := id, current := process }
  | none => modify fun s => { s with currentThread := id, current := process }

def addThreadToProcess (process : ℕ) (context : Context) : RtM B ℕ := do
  let s ← get
  let id := s.threads.length
  check (id < MAX_THREADS) .errResourceExhausted
  modify fun s =>
    { s with
      threads := s.threads ++
        [{ process, context
           running := true
           exited := false
           blockedFutex := none
           blockedWaitMany := false
           exitCode := 0
           restricted := none }] }
  let p ← unwrap s.processes[process]?
  let task ← some? (newTask id process p.resourceGroupId).toOption .errNoMemory
  mapErr (fun _ => .errNoMemory)
    (zoom scheduler (fun t s => { s with scheduler := t }) (Scheduler.addTask task))
  when (id = 0) (adoptFirstThread id process)
  changed .process process
  changed .thread id
  return id

/-- The checks on the entry point and the stack of a new thread. -/
def entryOk (s : Runtime B) (id : ℕ) (entry stack : UInt64) : Bool :=
  s.validRange id entry 4 EXECUTE && stack % 16 == 0 && stack ≥ 16 &&
    s.validRange id (stack - 16) 16 WRITE

/-- The argument of the first thread is a channel, given to the new process. -/
abbrev passArgument (id : ℕ) (arg : ℕ) : RtM B Unit :=
  when (arg ≠ 0) do
    let c ← cap arg TRANSFER
    check c.object.channel?.isSome .errInvalidHandle
    modify (setOwner (arg - 1) id)
    changed .handle (arg - 1)

abbrev startWithThreadPointer (process space : ℕ) (entry stack threadPointer arg : UInt64) :
    RtM B ℕ := do
  let c ← cap process MANAGE_TASK
  let id ← some? c.object.process? .errInvalidHandle
  let spaceCap ← cap space MAP
  check (spaceCap.object = .space id) .errInvalidArgs
  let s ← get
  let p ← unwrap s.processes[id]?
  check (¬ (p.running ∨ p.exited ∨ ¬ s.entryOk id entry stack)) .errInvalidArgs
  let context ← some? (Context.user (Backend.arch B) entry stack arg threadPointer)
    .errInvalidArgs
  passArgument id arg.toNat
  let thread ← addThreadToProcess id context
  modify (modifyProcess id fun p => { p with context := context, running := true })
  changed .process id
  grantCurrent (.thread thread) (ADMIN ||| MANAGE_TASK ||| TRANSFER ||| DUPLICATE)

abbrev createThreadCurrentWithThreadPointer (entry stack threadPointer arg : UInt64) : RtM B ℕ := do
  let s ← get
  let p ← currentProcess
  check (¬ (¬ p.running ∨ p.exited ∨ ¬ s.entryOk s.current entry stack)) .errInvalidArgs
  let context ← some? (Context.user (Backend.arch B) entry stack arg threadPointer)
    .errInvalidArgs
  let thread ← addThreadToProcess s.current context
  grantCurrent (.thread thread) (ADMIN ||| MANAGE_TASK ||| TRANSFER ||| DUPLICATE)

abbrev setThreadProfile (thread profile : ℕ) : RtM B Unit := do
  let t ← cap thread ADMIN
  let threadId ← some? t.object.thread? .errInvalidHandle
  let c ← cap profile ADMIN
  let profileId ← some? c.object.profile? .errInvalidHandle
  let s ← get
  let profile ← some? s.profiles[profileId]? .errInvalidHandle
  let thread ← some? s.threads[threadId]? .errInvalidHandle
  let p ← some? s.processes[thread.process]? .errInvalidHandle
  check (¬ (profile.realtime ∧ ¬ p.realtimeScheduling)) .errAccessDenied
  schedOrStatus (Scheduler.setProfile (threadId + 1) profile)
  changed .metadata 0

abbrev setThreadCpuAffinity (thread : ℕ) (affinityMask : UInt64) : RtM B Unit := do
  let t ← cap thread ADMIN
  let threadId ← some? t.object.thread? .errInvalidHandle
  schedOrStatus (Scheduler.setCpuAffinity (threadId + 1) affinityMask)
  changed .metadata 0

abbrev yieldTarget (thread : ℕ) : RtM B (Option ℕ) :=
  if thread = 0 then return none
  else do
    let t ← cap thread ADMIN
    let threadId ← some? t.object.thread? .errInvalidHandle
    return some (threadId + 1)

abbrev yieldCurrentOnCpu (cpu thread : ℕ) : RtM B Unit := do
  let target ← yieldTarget thread
  let _ ← schedOrStatus (Scheduler.yieldCurrentToOnCpu cpu target)
  changed .metadata 0

/-! ### Ending threads and processes -/

/-- Give back the memory object of restricted mode. -/
def releaseRestricted : Option RestrictedBinding → RtM B Unit
  | none => return ()
  | some binding => releaseVmo binding.stateVmo

/-- End a thread of a process that ends; `exitCode` is empty if the thread keeps the one it
has. -/
def endThread (i : ℕ) (t : Thread) (exitCode : Option Int32) : RtM B Unit := do
  modify (modifyThread i fun t =>
    { t with
      running := false
      exited := true
      blockedFutex := none
      blockedWaitMany := false
      exitCode := exitCode.getD t.exitCode
      restricted := none })
  releaseRestricted t.restricted
  let _ ← sched (Scheduler.exitTask (i + 1) (exitCode.getD 0))
  changed .thread i

/-- End the threads of a process that satisfy `p`. -/
def endThreads (id : ℕ) (p : Thread → Bool) (exitCode : Option Int32) : RtM B Unit := do
  let s ← get
  forEach (List.range s.threads.length) fun i => do
    let s ← get
    let t ← unwrap s.threads[i]?
    when (t.process = id ∧ p t) (endThread i t exitCode)

/-- The slots of the capabilities a process owns. -/
def ownedSlots (s : Runtime B) (id : ℕ) : List ℕ :=
  (List.range s.handles.length).filter fun i => ((s.handles[i]?).join).any (·.owner == id)

/-- Empty a slot and give back the reference. -/
def dropSlot (i : ℕ) : RtM B Unit := do
  let s ← get
  match (s.handles[i]?).join with
  | none => return ()
  | some c => do
    modify (clearSlot i)
    changed .handle i
    releaseObject c.object

def terminateProcess (process : ℕ) (exitCode : Int32) : RtM B Unit := do
  let c ← cap process MANAGE_TASK
  let id ← some? c.object.process? .errInvalidHandle
  let s ← get
  let p ← unwrap s.processes[id]?
  if p.exited then return ()
  else do
    modify (modifyProcess id fun p => { p with running := false, exited := true })
    changed .process id
    endThreads id (!·.exited) (some exitCode)
    let s ← get
    forEach (s.ownedSlots id) dropSlot
    wakeWaitersForObject (.process id) SIGNAL_TERMINATED

/-- The processes of a job. -/
def jobMembers (s : Runtime B) (id : ℕ) : List ℕ :=
  (List.range s.processes.length).filter fun i =>
    (s.processes[i]?).any (·.job == some id)

abbrev terminateJob (job : ℕ) (exitCode : Int32) : RtM B Unit := do
  let c ← cap job MANAGE_TASK
  let id ← some? c.object.job? .errInvalidHandle
  let s ← get
  let _ ← some? s.jobs[id]? .errInvalidHandle
  forEach (s.jobMembers id) fun process => do
    let h ← grantCurrent (.process process) (ADMIN ||| MANAGE_TASK)
    terminateProcess h exitCode
    close h
  wakeWaitersForObject (.job id) SIGNAL_TERMINATED

/-- Drop the pin in a slot if a process owns it. -/
def dropPin (id i : ℕ) : RtM B Unit := do
  let s ← get
  match (s.pins[i]?).join with
  | none => return ()
  | some (owner, vmo) =>
    when (owner = id) do
      onBackend (Backend.revokeSharedPin (UInt64.ofNat (i + 1)))
      modify fun s => { s with pins := s.pins.set i none }
      changed .pin i
      releaseVmo vmo

/-- Give back everything a process owns, while `current` names it. -/
def retireResources (id : ℕ) : RtM B Unit := do
  let s ← get
  forEach (s.ownedSlots id) fun i => do
    let _ ← attempt (close (i + 1))
    return ()
  let s ← get
  let p ← unwrap s.processes[id]?
  modify (modifyProcess id fun p => { p with mappings := [] })
  forEach p.mappings fun m => releaseVmo m.vmo
  let s ← get
  forEach (List.range s.dmaMappings.length) (dropDmaMapping (·.owner == id))
  forEach (List.range s.pins.length) (dropPin id)
  let s ← get
  let p ← unwrap s.processes[id]?
  modify (modifyProcess id fun p => { p with root := 0 })
  when (p.root ≠ 0) (onBackend (Backend.destroySpace p.root))

def retireProcess (id : ℕ) : RtM B Unit := do
  let s ← get
  modify fun s => { s with current := id, deferReclamation := true }
  let _ ← unwrap s.processes[id]?
  modify (modifyProcess id fun p =>
    { p with exited := true, running := false, authority := 0, quarantined := false })
  changed .process id
  endThreads id (fun _ => true) none
  retireResources id
  modify fun t => { t with current := s.current, deferReclamation := s.deferReclamation }
  wakeWaitersForObject (.process id) SIGNAL_TERMINATED

/-! ### Process control -/

abbrev setProcessSuspended (h : ℕ) (suspended : Bool) : RtM B Unit := do
  let c ← cap h MANAGE_TASK
  let id ← some? c.object.process? .errInvalidHandle
  let s ← get
  let p ← unwrap s.processes[id]?
  check (¬ (id = s.current ∨ p.exited ∨ p.quarantined ∨
    s.handover.any fun h => h.source == id || h.target == id)) .errInvalidArgs
  let _ ← sched (if suspended then Scheduler.stopProcess (id + 1)
    else Scheduler.resumeStoppedProcess (id + 1))
  changed .metadata 0

/-! ### Scheduling -/

def saveContext (context : Context) : RtM B Unit := do
  let s ← get
  when (s.currentThread < s.threads.length) do
    modify (modifyThread s.currentThread fun t => { t with context := context })
    changed .thread s.currentThread
  let _ ← unwrap s.processes[s.current]?
  modify (modifyProcess s.current fun p => { p with context := context })
  changed .process s.current

def currentAddressSpace (s : Runtime B) : AddressSpaceSwitch :=
  match s.processes[s.current]? with
  | none => .none
  | some p => ⟨p.root, p.asid, p.userspacePacKey⟩

/-- Continue with the task the scheduler chose, if it is a thread. -/
def switchTo (next : Option ℕ) (frame : Context) : RtM B (AddressSpaceSwitch × Context) := do
  let s ← get
  match next with
  | none => return (s.currentAddressSpace, frame)
  | some id =>
    if id = 0 then halt
    else
      match s.threads[id - 1]? with
      | none => return (s.currentAddressSpace, frame)
      | some t => do
        modify fun s => { s with currentThread := id - 1, current := t.process }
        let s ← get
        return (s.currentAddressSpace, t.context)

/-- The decision of a yield, or of a tick if the yield is refused. -/
def yieldOrTick (cpu : ℕ) (now : UInt64) : RtM B (Option ℕ) := do
  match ← sched (Scheduler.yieldCurrentToAtOnCpu cpu none now) with
  | .ok decision => return decision.nextTaskId
  | .error _ => do
    let decision ← sched Scheduler.tick
    return decision.toOption.bind (·.nextTaskId)

abbrev scheduleYieldAtOnCpu (cpu : ℕ) (now : UInt64) (frame : Context) :
    RtM B (AddressSpaceSwitch × Context) := do
  let s ← get
  if s.processes = [] ∨ s.threads = [] then return (.none, frame)
  else do
    saveContext frame
    let next ← yieldOrTick cpu now
    clearUnblockedWaitManyThreads
    switchTo next frame

/-- The frame is saved only if the CPU runs the thread `current_thread` names. -/
def scheduleAtOnCpu (cpu : ℕ) (now : UInt64) (frame : Context) :
    RtM B (AddressSpaceSwitch × Context) := do
  let s ← get
  if s.processes = [] ∨ s.threads = [] then return (.none, frame)
  else do
    when ((s.scheduler.currentOnCpu cpu).any (·.id == s.currentThread + 1)) (saveContext frame)
    match ← sched (Scheduler.tickAtOnCpu cpu now) with
    | .error _ => do
      let s ← get
      return (s.currentAddressSpace, frame)
    | .ok decision => do
      clearUnblockedWaitManyThreads
      switchTo decision.nextTaskId frame

def bindCurrentCpu (cpu : ℕ) : RtM B Bool := do
  let s ← get
  match s.scheduler.currentOnCpu cpu with
  | none => return false
  | some task =>
    match s.threads[task.id - 1]? with
    | none => return false
    | some t => do
      modify fun s => { s with currentThread := task.id - 1, current := t.process }
      return true

/-! ### Futexes -/

def futexReason (s : Runtime B) (uaddr : UInt64) (timeoutNs : Int64) : BlockReason :=
  if timeoutNs < 0 then .futex uaddr
  else .futexUntil uaddr
    (((Backend.monotonicNs s.backend).getD s.scheduler.nowNs).satAdd timeoutNs.toUInt64)

abbrev futexWaitCurrentTimeout (uaddr : UInt64) (expected : UInt32) (timeoutNs : Int64) :
    RtM B Unit := do
  check (¬ (uaddr = 0 ∨ uaddr &&& 3 ≠ 0 ∨ timeoutNs < -1)) .errInvalidArgs
  let s ← get
  let bytes ← lift (s.copyFromUser uaddr 4)
  check (leValue bytes = expected.toNat) .errResourceExhausted
  check (timeoutNs ≠ 0) .errTimedOut
  check (s.currentThread < s.threads.length) .errInvalidHandle
  modify (modifyThread s.currentThread fun t => { t with blockedFutex := some uaddr })
  let _ ← sched (Scheduler.blockCurrent (s.futexReason uaddr timeoutNs))
  changed .thread s.currentThread

/-- Wake the waiters among some threads until `wakeCount` have been woken. -/
def futexWakeAmong (uaddr : UInt64) (wakeCount : UInt32) : List ℕ → UInt32 → RtM B UInt32
  | [], woken => return woken
  | i :: is, woken =>
    if woken = wakeCount then return woken
    else do
      let s ← get
      let t ← unwrap s.threads[i]?
      if t.process = s.current ∧ t.blockedFutex = some uaddr then do
        modify (modifyThread i fun t => { t with blockedFutex := none, running := true })
        let _ ← sched (Scheduler.wakeTask (i + 1))
        changed .thread i
        futexWakeAmong uaddr wakeCount is (woken + 1)
      else futexWakeAmong uaddr wakeCount is woken

abbrev futexWake (uaddr : UInt64) (wakeCount : UInt32) : RtM B UInt32 := do
  check (¬ (uaddr = 0 ∨ uaddr &&& 3 ≠ 0)) .errInvalidArgs
  clearUnblockedWaitManyThreads
  let s ← get
  futexWakeAmong uaddr wakeCount (List.range s.threads.length) 0

/-! ### Reclamation -/

/-- The last committed page: its index and its frame. -/
def lastCommitted : List (Option UInt64) → Option (ℕ × UInt64)
  | [] => none
  | page :: pages =>
    match lastCommitted pages with
    | some (index, base) => some (index + 1, base)
    | none => page.map fun base => (0, base)

abbrev advanceReclaimCursor : RtM B Unit :=
  modify fun s => { s with reclaimCursor := s.reclaimCursor + 1 }

/-- Scrub and release the last frame of a retired memory object; the object goes with its
last frame. -/
abbrev reclaimPage (id : ℕ) (v : Vmo) (pages : List (Option UInt64)) (index : ℕ) (base : UInt64) :
    RtM B Unit := do
  modify fun s =>
    { s with
      vmos := s.vmos.set id (if index = 0 then none
        else some { v with
          size := UInt64.ofNat index * PAGE, backing := .lazyAnonymous (pages.take index) }) }
  reclaimBootfs v 1
  onBackend (Backend.zero base PAGE)
  onBackend (Backend.release base 1)
  when (index = 0) advanceReclaimCursor
  changed .vmo id

/-- Each round releases a page or moves the cursor. -/
def reclaimFrom (pageBudget : ℕ) : ℕ → ℕ → RtM B ℕ
  | 0, released => return released
  | rounds + 1, released => do
    let s ← get
    let id := s.reclaimCursor
    if released < pageBudget ∧ id < s.vmos.length then
      match (s.vmo id).filter (·.refs == 0) with
      | none => do
        advanceReclaimCursor
        reclaimFrom pageBudget rounds released
      | some v =>
        match v.backing with
        | .lazyAnonymous pages =>
          match lastCommitted pages with
          | none => do
            modify fun s => { s with vmos := s.vmos.set id none }
            changed .vmo id
            advanceReclaimCursor
            reclaimFrom pageBudget rounds released
          | some (index, base) => do
            reclaimPage id v pages index base
            reclaimFrom pageBudget rounds (released + 1)
        | _ => halt
    else return released

abbrev reclaimRetiredPages (pageBudget : ℕ) : RtM B ℕ := do
  let s ← get
  if s.handover.any fun h => h.session.phase == .quiesced || h.session.phase == .ready then
    return 0
  else reclaimFrom pageBudget (pageBudget + s.vmos.length + 1) 0

end Runtime

end Bexos
