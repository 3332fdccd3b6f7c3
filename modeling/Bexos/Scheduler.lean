/-
The kernel scheduler (`sched.rs`, `sched/quiescence.rs`, `sched/runtime.rs`).

`Scheduler` is the state the kernel keeps: tasks, resource groups, one round-robin cursor
per group and CPU, the task each CPU runs, and the run-time ledger.  Operations that
choose a successor are programs (`SchedM`), because walking up a chain of groups that
closes on itself never ends (`Prog.halt`).

Design notes: task, process and CPU numbers are natural numbers (they count entries of
kernel tables), times, ticks and masks are machine words with the source's saturating
arithmetic.  A name is the list of its bytes, without the zero padding.  Growing a table
always succeeds.
-/
import Mathlib.Data.Vector.Basic
import Bexos.Outcome
import Bexos.Words

namespace Bexos

open Prog

def DEFAULT_QUANTUM_TICKS : UInt8 := 3
def DEFAULT_FAIR_QUANTUM_NS : UInt64 := 4000000
/-- How many quanta a runnable group may be charged ahead of its peers. -/
def MAX_FAIR_GROUP_LAG_QUANTA : UInt64 := 8
def CPU_QUOTA_WINDOW_NS : UInt64 := 100000000
def MAX_TASK_NAME : ℕ := 32
def MAX_CPUS : ℕ := 64
def MAX_WAIT_MANY_ITEMS : ℕ := 8
def FAIR_PRIORITY_WORDS : ℕ := 4

inductive SchedulerError where
  | full | invalidTask | alreadyExists | accessDenied | resourceExhausted
  deriving DecidableEq

inductive TaskState where
  | ready | running | blocked | suspended
  /-- Held for ownership transfer: a wakeup clears the wait but does not make it run. -/
  | quiesced
  /-- Stopped by process control. -/
  | stopped
  | exited
  deriving DecidableEq

inductive BlockReason where
  | futex (uaddr : UInt64)
  | futexUntil (uaddr deadlineNanos : UInt64)
  | handleSignals (handle : ℕ) (signals : UInt32)
  | waitMany (items : List.Vector (ℕ × UInt32) MAX_WAIT_MANY_ITEMS) (itemCount : ℕ)
      (deadlineNanos : UInt64)
  | sleepUntil (deadlineNanos : UInt64)
  deriving DecidableEq

def waitManyMatches (items : List.Vector (ℕ × UInt32) MAX_WAIT_MANY_ITEMS) (itemCount : ℕ)
    (handle : ℕ) (signals : UInt32) : Bool :=
  (items.toList.take itemCount).any fun (waited, wanted) =>
    waited == handle && wanted &&& signals != 0

/-- Does a wait end when `signals` are raised on `handle`? -/
def BlockReason.matches (handle : ℕ) (signals : UInt32) : BlockReason → Bool
  | .handleSignals waited wanted => waited == handle && wanted &&& signals != 0
  | .waitMany items itemCount _ => waitManyMatches items itemCount handle signals
  | _ => false

/-- Has the deadline of a wait passed? -/
def BlockReason.expired (nowNs : UInt64) : BlockReason → Bool
  | .sleepUntil deadline | .waitMany _ _ deadline | .futexUntil _ deadline => deadline ≤ nowNs
  | _ => false

structure FairProfile where
  priority : UInt8
  weight : UInt32
  deriving DecidableEq

structure DeadlineProfile where
  capacityNs : UInt64
  deadlineNs : UInt64
  periodNs : UInt64
  deriving DecidableEq

inductive SchedulingProfile where
  | fair (profile : FairProfile)
  | deadline (profile : DeadlineProfile)
  deriving DecidableEq

structure EffectiveDeadline where
  profile : DeadlineProfile
  absoluteDeadlineNs : UInt64
  remainingBudgetNs : UInt64
  deriving DecidableEq

def DeadlineProfile.valid (p : DeadlineProfile) : Bool :=
  p.capacityNs > 0 && p.capacityNs ≤ p.deadlineNs && p.deadlineNs ≤ p.periodNs

structure SchedulerTask where
  id : ℕ
  processId : ℕ
  resourceGroupId : UInt32
  priority : UInt8
  basePriority : UInt8
  effectivePriority : UInt8
  fairWeight : UInt32
  deadline : Option EffectiveDeadline
  state : TaskState
  quantumLeft : UInt8
  quantumDeadlineNs : UInt64
  assignedCpu : Option ℕ
  cpuTicks : UInt64
  cpuAffinityMask : UInt64
  blockReason : Option BlockReason
  exitCode : Int32
  name : List UInt8
  deriving DecidableEq

def SchedulerTask.new (id processId : ℕ) (resourceGroupId : UInt32) (priority : UInt8)
    (name : List UInt8) : Except SchedulerError SchedulerTask :=
  if id = 0 ∨ processId = 0 ∨ name = [] ∨ name.length > MAX_TASK_NAME then
    .error .invalidTask
  else
    .ok
      { id, processId, resourceGroupId, priority
        basePriority := priority
        effectivePriority := priority
        fairWeight := 1
        deadline := none
        state := .ready
        quantumLeft := DEFAULT_QUANTUM_TICKS
        quantumDeadlineNs := 0
        assignedCpu := none
        cpuTicks := 0
        cpuAffinityMask := UInt64.maxValue
        blockReason := none
        exitCode := 0
        name }

/-- `ResourceGroupAccounting` of the source. -/
structure ResourceGroup where
  id : UInt32
  parentId : Option UInt32
  cpuShares : UInt32
  /-- Zero adds no cap beyond the parent's. -/
  maxUtilizationPermille : UInt16
  allowRealtime : Bool
  fairVruntime : UInt64
  cpuTicks : UInt64
  cpuTimeNs : UInt64
  quotaWindowStartNs : UInt64
  quotaUsedNs : UInt64
  runnableTasks : UInt16
  deriving DecidableEq

structure ScheduleDecision where
  previousTaskId : Option ℕ
  nextTaskId : Option ℕ
  cpuId : ℕ
  switched : Bool
  deriving DecidableEq

/-- Run time of one thread, kept after the thread exits. -/
structure ThreadRuntime where
  id : ℕ
  process : ℕ
  cpuNs : UInt64
  deriving DecidableEq

structure Accounting where
  lastNs : Option UInt64
  legacy : Bool
  threads : List ThreadRuntime
  deriving DecidableEq

/-- The task of a group at which the search on a CPU last stopped. -/
structure FairCursor where
  group : UInt32
  cpu : ℕ
  task : Option ℕ
  deriving DecidableEq

structure Scheduler where
  tasks : List SchedulerTask
  runtime : Accounting
  groups : List ResourceGroup
  fairTaskCursors : List FairCursor
  currentTaskIds : List (Option ℕ)
  totalTicks : UInt64
  nowNs : UInt64
  fairReadyBitmap : List.Vector UInt64 FAIR_PRIORITY_WORDS
  deriving DecidableEq

/-- Programs on the scheduler. -/
abbrev SchedM := Prog Scheduler SchedulerError

def Accounting.new : Accounting := { lastNs := none, legacy := false, threads := [] }

def Accounting.register (a : Accounting) (id process : ℕ) : Except SchedulerError Accounting :=
  if a.threads.any (·.id == id) then .error .alreadyExists
  else .ok { a with threads := a.threads ++ [⟨id, process, 0⟩] }

namespace Scheduler

def withCpuCount (maxCpus : ℕ) : Except SchedulerError Scheduler :=
  if maxCpus = 0 ∨ maxCpus > MAX_CPUS then .error .invalidTask
  else .ok
    { tasks := []
      runtime := Accounting.new
      groups := []
      fairTaskCursors := []
      currentTaskIds := List.replicate maxCpus none
      totalTicks := 0
      nowNs := 0
      fairReadyBitmap := List.Vector.replicate _ 0 }

def empty : Scheduler :=
  { tasks := []
    runtime := Accounting.new
    groups := []
    fairTaskCursors := []
    currentTaskIds := []
    totalTicks := 0
    nowNs := 0
    fairReadyBitmap := List.Vector.replicate _ 0 }

/-! ### Reading the tables -/

def cpuBit (cpu : ℕ) : UInt64 := 1 <<< UInt64.ofNat cpu

def cpuMask (cpuCount : ℕ) : UInt64 :=
  if cpuCount ≥ 64 then UInt64.maxValue else 1 <<< UInt64.ofNat cpuCount - 1

variable (s : Scheduler)

def cpuCount : ℕ := max s.currentTaskIds.length 1

def activeCpuMask : UInt64 := cpuMask s.cpuCount

def task (id : ℕ) : Option SchedulerTask := s.tasks.find? (·.id == id)

def currentOnCpu (cpu : ℕ) : Option SchedulerTask :=
  (s.currentTaskIds[cpu]?).join.bind s.task

def blockStates : List (ℕ × Bool) := s.tasks.map fun t => (t.id, t.blockReason.isSome)

def resourceGroup (id : UInt32) : Option ResourceGroup := s.groups.find? (·.id == id)

def taskCanRunOnCpu (t : SchedulerTask) (cpu : ℕ) : Bool :=
  t.cpuAffinityMask &&& cpuBit cpu != 0

def isRunningElsewhere (id cpu : ℕ) : Bool :=
  s.currentTaskIds.zipIdx.any fun (current, index) => index != cpu && current == some id

/-- The fair tasks a CPU may pick. -/
def fairCandidate (group : UInt32) (cpu : ℕ) (t : SchedulerTask) : Bool :=
  t.resourceGroupId == group && t.state == .ready && t.deadline.isNone &&
    taskCanRunOnCpu t cpu && !s.isRunningElsewhere t.id cpu

/-- The least virtual run time of a group with runnable tasks. -/
def minRunnableVruntime : Option UInt64 :=
  minByKey id ((s.groups.filter (·.runnableTasks != 0)).map (·.fairVruntime))

/-! ### Updating the tables -/

def modifyTask (id : ℕ) (f : SchedulerTask → SchedulerTask) (s : Scheduler) : Scheduler :=
  { s with tasks := updateFirst (·.id == id) f s.tasks }

def setCurrent (cpu : ℕ) (id : Option ℕ) (s : Scheduler) : Scheduler :=
  { s with currentTaskIds := s.currentTaskIds.set cpu id }

def setReadyPriority (bitmap : List.Vector UInt64 FAIR_PRIORITY_WORDS) (priority : UInt8) :
    List.Vector UInt64 FAIR_PRIORITY_WORDS :=
  ⟨bitmap.toList.modify (priority.toNat / 64) (· ||| 1 <<< UInt64.ofNat (priority.toNat % 64)),
    by simp⟩

/-- The highest priority with a bit set, searching from the last word down. -/
def highestReadyPriority (bitmap : List.Vector UInt64 FAIR_PRIORITY_WORDS) : Option UInt8 :=
  (bitmap.toList.zipIdx.reverse.find? fun (word, _) => word != 0).map fun (word, index) =>
    UInt8.ofNat (index * 64 + word.toNat.log2)

/-- One pass of the loop of `rebuild_runnable_indexes`. -/
def indexTask (s : Scheduler) (t : SchedulerTask) : Scheduler :=
  let groups :=
    if t.state = .ready ∨ t.state = .running then
      updateFirst (·.id == t.resourceGroupId)
        (fun g => { g with runnableTasks :=
          if g.runnableTasks = 0xffff then 0xffff else g.runnableTasks + 1 }) s.groups
    else s.groups
  let bitmap :=
    if t.state = .ready ∧ t.deadline.isNone then
      setReadyPriority s.fairReadyBitmap t.effectivePriority
    else s.fairReadyBitmap
  { s with groups := groups, fairReadyBitmap := bitmap }

def rebuildRunnableIndexes (s : Scheduler) : Scheduler :=
  s.tasks.foldl indexTask
    { s with
      groups := s.groups.map fun g => { g with runnableTasks := 0 }
      fairReadyBitmap := List.Vector.replicate _ 0 }

/-- Give a deadline server its budget back once its period has passed. A profile is
`valid`, so its period is not zero. -/
def replenish (nowNs : UInt64) (t : SchedulerTask) : SchedulerTask :=
  if t.state = .running then t
  else
    match t.deadline with
    | none => t
    | some d =>
      let start := d.absoluteDeadlineNs.satSub d.profile.deadlineNs
      let periods := nowNs.satSub start / d.profile.periodNs
      if periods > 0 then
        { t with deadline := some { d with
            absoluteDeadlineNs := d.absoluteDeadlineNs.satAdd (periods.satMul d.profile.periodNs)
            remainingBudgetNs := d.profile.capacityNs } }
      else t

/-! ### Walking up the groups

The source follows `parent_id` until it is empty. Every group is visited at most once on a
walk that ends, so one round more than there are groups tells an endless walk. -/

def hasQuotaFrom (groups : List ResourceGroup) : ℕ → Option UInt32 → Option Bool
  | _, none => some true
  | 0, some _ => none
  | n + 1, some id =>
    match groups.find? (·.id == id) with
    | none => some false
    | some g =>
      let budget := CPU_QUOTA_WINDOW_NS.satMul g.maxUtilizationPermille.toUInt64 / 1000
      if g.maxUtilizationPermille ≠ 0 ∧ g.quotaUsedNs ≥ budget then some false
      else hasQuotaFrom groups n g.parentId

def allowsRealtimeFrom (groups : List ResourceGroup) : ℕ → Option UInt32 → Option Bool
  | _, none => some true
  | 0, some _ => none
  | n + 1, some id =>
    match groups.find? (·.id == id) with
    | none => some false
    | some g => if g.allowRealtime then allowsRealtimeFrom groups n g.parentId else some false

/-- Charge one tick to a group. -/
def chargeGroup (nowNs : UInt64) (chargeFairRuntime : Bool) (elapsedNs : UInt64)
    (g : ResourceGroup) : ResourceGroup :=
  let newWindow := nowNs.satSub g.quotaWindowStartNs ≥ CPU_QUOTA_WINDOW_NS
  { g with
    quotaWindowStartNs := if newWindow then nowNs else g.quotaWindowStartNs
    quotaUsedNs := (if newWindow then 0 else g.quotaUsedNs).satAdd elapsedNs
    cpuTicks := g.cpuTicks.satAdd 1
    cpuTimeNs := g.cpuTimeNs.satAdd elapsedNs
    fairVruntime :=
      if chargeFairRuntime then
        g.fairVruntime.satAdd ((elapsedNs.satMul 1024).satMul 1024 / g.cpuShares.toUInt64)
      else g.fairVruntime }

def tickFrom (nowNs : UInt64) (chargeFairRuntime : Bool) (elapsedNs : UInt64) :
    ℕ → Option UInt32 → List ResourceGroup → Option (List ResourceGroup)
  | _, none, groups => some groups
  | 0, some _, _ => none
  | n + 1, some id, groups =>
    match groups.find? (·.id == id) with
    | none => some groups
    | some g =>
      tickFrom nowNs chargeFairRuntime elapsedNs n g.parentId
        (updateFirst (·.id == id) (chargeGroup nowNs chargeFairRuntime elapsedNs) groups)

def groupHasQuota (id : UInt32) : Option Bool :=
  hasQuotaFrom s.groups (s.groups.length + 1) (some id)

def groupAllowsRealtime (id : UInt32) : Option Bool :=
  allowsRealtimeFrom s.groups (s.groups.length + 1) (some id)

def clampRunnableGroupLag (s : Scheduler) : Scheduler :=
  match s.minRunnableVruntime with
  | none => s
  | some minVruntime =>
    let maxVruntime := minVruntime.satAdd
      ((DEFAULT_FAIR_QUANTUM_NS.satMul 1024).satMul MAX_FAIR_GROUP_LAG_QUANTA)
    { s with groups := s.groups.map fun g =>
        if g.runnableTasks != 0 then { g with fairVruntime := min g.fairVruntime maxVruntime }
        else g }

def addGroupTickIfPresent (tickGroup : Option (UInt32 × Bool)) (elapsedNs : UInt64) : SchedM Unit :=
  match tickGroup with
  | none => pure ()
  | some (id, chargeFairRuntime) => do
    let s ← get
    let groups ← unwrap
      (tickFrom s.nowNs chargeFairRuntime elapsedNs (s.groups.length + 1) (some id) s.groups)
    modify fun s => { s with groups := groups }
    if chargeFairRuntime then modify clampRunnableGroupLag else pure ()

/-! ### Choosing a successor -/

def nextDeadlineReady (cpu : ℕ) : Option ℕ :=
  let eligible := s.tasks.filterMap fun t =>
    if t.state == .ready && taskCanRunOnCpu t cpu && !s.isRunningElsewhere t.id cpu then
      (t.deadline.filter (·.remainingBudgetNs > 0)).map fun d => (t.id, d.absoluteDeadlineNs)
    else none
  (minByKey Prod.snd eligible).map Prod.fst

/-- The groups of a list that have quota left; `none` if a walk does not end. -/
def groupsWithQuota : List ResourceGroup → Option (List ResourceGroup)
  | [] => some []
  | g :: gs => do
    let quota ← s.groupHasQuota g.id
    let rest ← groupsWithQuota gs
    return if quota then g :: rest else rest

def nextFairGroup (cpu : ℕ) : Option (Option UInt32) :=
  (s.groupsWithQuota s.groups).map fun groups =>
    (minByKey (·.fairVruntime)
      (groups.filter fun g => s.tasks.any (s.fairCandidate g.id cpu))).map (·.id)

def fairReadyBitmapForGroup (group : UInt32) (cpu : ℕ) : List.Vector UInt64 FAIR_PRIORITY_WORDS :=
  (s.tasks.filter (s.fairCandidate group cpu)).foldl
    (fun bitmap t => setReadyPriority bitmap t.effectivePriority) (List.Vector.replicate _ 0)

def isCursorOf (group : UInt32) (cpu : ℕ) (c : FairCursor) : Bool :=
  c.group == group && c.cpu == cpu

/-- The task a group runs next on a CPU: the first candidate of the highest ready
priority, going round from the task after the group's cursor. -/
def nextFairTask (group : UInt32) (cpu : ℕ) : Option ℕ := do
  let priority ← highestReadyPriority (s.fairReadyBitmapForGroup group cpu)
  let previous := (s.fairTaskCursors.find? (isCursorOf group cpu)).bind (·.task)
  let start :=
    match previous.bind fun id => s.tasks.findIdx? (·.id == id) with
    | none => 0
    | some index => (index + 1) % s.tasks.length
  let rotated := s.tasks.drop start ++ s.tasks.take start
  let t ← rotated.find? fun t => s.fairCandidate group cpu t && t.effectivePriority == priority
  return t.id

def nextFairReady (cpu : ℕ) : SchedM (Option ℕ) := do
  let s ← get
  let group ← unwrap (s.nextFairGroup cpu)
  match group with
  | none => return none
  | some group =>
    match s.nextFairTask group cpu with
    | none => return none
    | some id => do
      modify fun s =>
        { s with
          fairTaskCursors := updateFirst (isCursorOf group cpu)
            (fun c => { c with task := some id }) s.fairTaskCursors }
      return some id

/-- A fair task if no deadline server is eligible. -/
def nextReady (cpu : ℕ) : SchedM (Option ℕ) := do
  let s ← get
  match s.nextDeadlineReady cpu with
  | some id => return some id
  | none => nextFairReady cpu

/-- Make `next` the running task of a CPU. -/
def dispatch (cpu : ℕ) (next : Option ℕ) (s : Scheduler) : Scheduler :=
  match next with
  | none => s.setCurrent cpu none
  | some id =>
    (s.setCurrent cpu (some id)).modifyTask id fun t =>
      { t with
        state := .running
        quantumLeft := DEFAULT_QUANTUM_TICKS
        quantumDeadlineNs := s.nowNs.satAdd DEFAULT_FAIR_QUANTUM_NS
        assignedCpu := some cpu }

def scheduleNextOnCpu (cpu : ℕ) : SchedM (Option ℕ) := do
  modify fun s => { s with tasks := s.tasks.map (replenish s.nowNs) }
  let s ← get
  let _ ← unwrap s.currentTaskIds[cpu]?
  let next ← nextReady cpu
  modify (dispatch cpu next)
  return next

/-- Choose a successor on a CPU that runs nothing. -/
abbrev fillIdleCpu (cpu : ℕ) : SchedM Unit := do
  let s ← get
  let current ← unwrap s.currentTaskIds[cpu]?
  if current.isNone then do
    let _ ← scheduleNextOnCpu cpu
    return ()
  else return ()

def fillIdleCpus : SchedM Unit := do
  let s ← get
  forEach (List.range s.cpuCount) fillIdleCpu

abbrev ensureCpuId (cpu : ℕ) : SchedM Unit := do
  let s ← get
  check (cpu < s.currentTaskIds.length) .invalidTask

/-! ### Resource groups -/

def ensureResourceGroupWithLimits (id : UInt32) (parentId : Option UInt32)
    (cpuShares : UInt32) (maxUtilizationPermille : UInt16) (allowRealtime : Bool) :
    SchedM Unit := do
  let s ← get
  check (¬ (id = 0 ∨ cpuShares = 0 ∨ maxUtilizationPermille > 1000)) .invalidTask
  check (¬ (parentId = some id ∨ ∃ parent ∈ parentId, (s.resourceGroup parent).isNone))
    .invalidTask
  match s.resourceGroup id with
  | some group => do
    check (¬ (group.parentId ≠ parentId ∧ group.parentId.isSome)) .accessDenied
    modify fun s =>
      { s with
        groups := updateFirst (·.id == id)
          (fun g => { g with parentId, cpuShares, maxUtilizationPermille, allowRealtime })
          s.groups }
  | none =>
    modify fun s =>
      { s with
        groups := s.groups ++
          [{ id, parentId, cpuShares, maxUtilizationPermille, allowRealtime
             fairVruntime := s.minRunnableVruntime.getD 0
             cpuTicks := 0
             cpuTimeNs := 0
             quotaWindowStartNs := s.nowNs
             quotaUsedNs := 0
             runnableTasks := 0 }]
        fairTaskCursors := s.fairTaskCursors ++
          (List.range s.cpuCount).map fun cpu => ⟨id, cpu, none⟩ }

def ensureResourceGroup (id : UInt32) : SchedM Unit := do
  let s ← get
  if (s.resourceGroup id).isSome then return ()
  else ensureResourceGroupWithLimits id none 1024 0 true

def ensureResourceGroupWithShares (id cpuShares : UInt32) : SchedM Unit :=
  ensureResourceGroupWithLimits id none cpuShares 0 true

def setResourceGroupShares (id cpuShares : UInt32) : SchedM Unit := do
  check (cpuShares ≠ 0) .invalidTask
  let s ← get
  check (s.resourceGroup id).isSome .invalidTask
  modify fun s =>
    { s with groups := updateFirst (·.id == id) (fun g => { g with cpuShares }) s.groups }

def setResourceGroupLimits (id cpuShares : UInt32) (maxUtilizationPermille : UInt16)
    (allowRealtime : Bool) : SchedM Unit := do
  check (¬ (cpuShares = 0 ∨ maxUtilizationPermille > 1000)) .invalidTask
  let s ← get
  check (s.resourceGroup id).isSome .invalidTask
  modify fun s =>
    { s with
      groups := updateFirst (·.id == id)
        (fun g => { g with cpuShares, maxUtilizationPermille, allowRealtime }) s.groups }

/-! ### Tasks -/

/-- A group that gets its first runnable task starts level with its peers. -/
def levelGroup (id : UInt32) (s : Scheduler) : Scheduler :=
  match s.minRunnableVruntime with
  | none => s
  | some baseline =>
    { s with
      groups := updateFirst (fun g => g.id == id && g.runnableTasks == 0)
        (fun g => { g with fairVruntime := baseline }) s.groups }

def addTask (task : SchedulerTask) : SchedM Unit := do
  let s ← get
  check (¬ s.tasks.any (·.id == task.id)) .alreadyExists
  modify fun s => if s.currentTaskIds = [] then { s with currentTaskIds := [none] } else s
  let s ← get
  let task := { task with cpuAffinityMask := task.cpuAffinityMask &&& s.activeCpuMask }
  check (task.cpuAffinityMask ≠ 0) .invalidTask
  ensureResourceGroup task.resourceGroupId
  modify (levelGroup task.resourceGroupId)
  let s ← get
  let runtime ← lift (s.runtime.register task.id task.processId)
  modify fun s => { s with runtime := runtime, tasks := s.tasks ++ [task] }
  modify rebuildRunnableIndexes
  fillIdleCpus

/-- What `wake_task` does to the task itself. -/
def wake (t : SchedulerTask) : SchedulerTask :=
  match t.state with
  | .blocked | .suspended =>
    { t with state := .ready, blockReason := none, quantumLeft := DEFAULT_QUANTUM_TICKS }
  | .quiesced | .stopped => { t with blockReason := none }
  | _ => t

def wakeTask (id : ℕ) : SchedM Unit := do
  let s ← get
  check (s.task id).isSome .invalidTask
  modify (modifyTask id wake)
  modify rebuildRunnableIndexes
  fillIdleCpus

/-- Wake tasks one by one; a task that is gone is skipped. -/
abbrev wakeTasks (ids : List ℕ) : SchedM Unit :=
  forEach ids fun id => do
    let _ ← attempt (wakeTask id)
    return ()

abbrev wakeHandleWaiters (handle : ℕ) (signals : UInt32) : SchedM Unit := do
  let s ← get
  wakeTasks ((s.tasks.filter (·.blockReason.any (BlockReason.matches handle signals))).map (·.id))

def wakeExpiredDeadlines : SchedM Unit := do
  let s ← get
  wakeTasks ((s.tasks.filter (·.blockReason.any (BlockReason.expired s.nowNs))).map (·.id))

def blockCurrentOnCpu (cpu : ℕ) (reason : BlockReason) : SchedM ScheduleDecision := do
  ensureCpuId cpu
  let s ← get
  let currentId ← some? (s.currentTaskIds[cpu]?).join .invalidTask
  check (s.task currentId).isSome .invalidTask
  modify (modifyTask currentId fun t =>
    { t with
      state := .blocked
      blockReason := some reason
      quantumLeft := DEFAULT_QUANTUM_TICKS })
  modify rebuildRunnableIndexes
  modify (setCurrent cpu none)
  let next ← scheduleNextOnCpu cpu
  return ⟨some currentId, next, cpu, some currentId != next⟩

def blockCurrent (reason : BlockReason) : SchedM ScheduleDecision := blockCurrentOnCpu 0 reason

/-- Take every CPU away from the tasks that satisfy `p`. -/
def vacate (p : ℕ → Bool) (s : Scheduler) : Scheduler :=
  { s with currentTaskIds := s.currentTaskIds.map (·.filter (!p ·)) }

def exitTask (id : ℕ) (exitCode : Int32) : SchedM Unit := do
  let s ← get
  check (s.task id).isSome .invalidTask
  modify (modifyTask id fun t =>
    { t with state := .exited, exitCode := exitCode, quantumLeft := 0, blockReason := none })
  modify (vacate (· == id))
  modify rebuildRunnableIndexes
  fillIdleCpus

def exitCurrentOnCpu (cpu : ℕ) (exitCode : Int32) : SchedM ScheduleDecision := do
  ensureCpuId cpu
  let s ← get
  let currentId ← some? (s.currentTaskIds[cpu]?).join .invalidTask
  check (s.task currentId).isSome .invalidTask
  -- the wait of the task, if any, is not cleared here
  modify (modifyTask currentId fun t =>
    { t with state := .exited, exitCode := exitCode, quantumLeft := 0 })
  modify rebuildRunnableIndexes
  modify (setCurrent cpu none)
  let next ← scheduleNextOnCpu cpu
  return ⟨some currentId, next, cpu, some currentId != next⟩

/-- What `suspend_task` does to the task itself. -/
def suspend (t : SchedulerTask) : SchedulerTask :=
  if t.state = .exited then t
  else { t with state := .suspended, quantumLeft := DEFAULT_QUANTUM_TICKS }

/-- Take a CPU away from a task and choose a successor. -/
abbrev releaseCpu (id cpu : ℕ) : SchedM Unit := do
  let s ← get
  let current ← unwrap s.currentTaskIds[cpu]?
  if current = some id then do
    modify (setCurrent cpu none)
    let _ ← scheduleNextOnCpu cpu
    return ()
  else return ()

def suspendTask (id : ℕ) : SchedM Unit := do
  let s ← get
  check (s.task id).isSome .invalidTask
  modify (modifyTask id suspend)
  forEach (List.range s.cpuCount) (releaseCpu id)
  modify rebuildRunnableIndexes

/-- Forget the tasks that have exited. -/
def removeExited (s : Scheduler) : Scheduler :=
  let tasks := s.tasks.filter (·.state != .exited)
  { s with
    tasks := tasks
    currentTaskIds := s.currentTaskIds.map (·.filter fun id => tasks.any (·.id == id)) }

def cleanupExited : SchedM ℕ := do
  let s ← get
  modify removeExited
  modify rebuildRunnableIndexes
  return s.tasks.countP (·.state == .exited)

/-! ### Profiles -/

def setFairProfile (id : ℕ) (profile : FairProfile) : SchedM Unit := do
  check (¬ (profile.priority = 0 ∨ profile.weight = 0)) .invalidTask
  let s ← get
  check (s.task id).isSome .invalidTask
  modify (modifyTask id fun t =>
    { t with
      priority := profile.priority
      basePriority := profile.priority
      effectivePriority := profile.priority
      fairWeight := profile.weight
      deadline := none
      quantumLeft := DEFAULT_QUANTUM_TICKS })
  modify rebuildRunnableIndexes

/-- Parts per million of a CPU; 128-bit arithmetic, which does not overflow here. -/
def utilizationPpm (p : DeadlineProfile) : ℕ :=
  p.capacityNs.toNat * 1000000 / p.periodNs.toNat

def setDeadlineProfile (id : ℕ) (profile : DeadlineProfile) : SchedM Unit := do
  check profile.valid .invalidTask
  let s ← get
  let task ← some? (s.task id) .invalidTask
  let allowed ← unwrap (s.groupAllowsRealtime task.resourceGroupId)
  check allowed .accessDenied
  let others := s.tasks.filter fun t => t.id != id && t.state != .exited
  let used := ((others.filterMap (·.deadline)).map fun d => utilizationPpm d.profile).sum
  check (used + utilizationPpm profile ≤ 1000000) .resourceExhausted
  modify (modifyTask id fun t =>
    { t with
      deadline := some ⟨profile, s.nowNs.satAdd profile.deadlineNs, profile.capacityNs⟩
      effectivePriority := 255
      priority := 255
      quantumLeft := DEFAULT_QUANTUM_TICKS })
  modify rebuildRunnableIndexes

def setProfile (id : ℕ) : SchedulingProfile → SchedM Unit
  | .fair profile => setFairProfile id profile
  | .deadline profile => setDeadlineProfile id profile

def donatePriority (ownerId : ℕ) (donatedPriority : UInt8) : SchedM Unit := do
  let s ← get
  check (s.task ownerId).isSome .invalidTask
  modify (modifyTask ownerId fun t =>
    if t.deadline.isNone ∧ donatedPriority > t.effectivePriority then
      { t with effectivePriority := donatedPriority, priority := donatedPriority }
    else t)
  modify rebuildRunnableIndexes

def restoreBasePriority (id : ℕ) : SchedM Unit := do
  let s ← get
  check (s.task id).isSome .invalidTask
  modify (modifyTask id fun t =>
    if t.deadline.isNone then
      { t with effectivePriority := t.basePriority, priority := t.basePriority }
    else t)
  modify rebuildRunnableIndexes

def setCpuAffinity (id : ℕ) (affinityMask : UInt64) : SchedM Unit := do
  let s ← get
  check (¬ (affinityMask = 0 ∨ affinityMask &&& ~~~s.activeCpuMask ≠ 0)) .invalidTask
  check (s.task id).isSome .invalidTask
  modify (modifyTask id fun t => { t with cpuAffinityMask := affinityMask })
  forEach (List.range s.cpuCount) fun cpu => do
    let s ← get
    let current ← unwrap s.currentTaskIds[cpu]?
    if current = some id ∧ affinityMask &&& cpuBit cpu = 0 then do
      modify (modifyTask id fun t => { t with state := .ready })
      modify (setCurrent cpu none)
      let _ ← scheduleNextOnCpu cpu
      return ()
    else return ()
  modify rebuildRunnableIndexes

/-! ### Clock -/

/-- Charge the running task of one CPU. -/
def chargeRunning (elapsed budgetElapsed : UInt64) (s : Scheduler) : Option ℕ → Scheduler
  | none => s
  | some id =>
    { s with
      runtime := { s.runtime with
        threads := updateFirst (·.id == id)
          (fun t => { t with cpuNs := t.cpuNs.satAdd elapsed }) s.runtime.threads }
      tasks := updateFirst (·.id == id)
        (fun t => { t with
          deadline := t.deadline.map fun d =>
            { d with remainingBudgetNs := d.remainingBudgetNs.satSub budgetElapsed } }) s.tasks }

def accountRuntime (nowNs : UInt64) (s : Scheduler) : Scheduler :=
  let charge (elapsed budgetElapsed : UInt64) : Scheduler :=
    s.currentTaskIds.foldl (chargeRunning elapsed budgetElapsed)
      { s with runtime := { s.runtime with lastNs := some nowNs, legacy := false } }
  match s.runtime.lastNs with
  | some last => if nowNs < last then s else charge (nowNs - last) (nowNs - last)
  | none => charge 0 (nowNs.satSub s.nowNs)

/-- Account while `thread` still executes on a CPU that may already have a successor. -/
def accountExecuting (cpu thread : ℕ) (nowNs : UInt64) (s : Scheduler) : Scheduler :=
  match s.currentTaskIds[cpu]? with
  | none => s
  | some saved => ((s.setCurrent cpu (some thread)).accountRuntime nowNs).setCurrent cpu saved

/-- One tick charged to the running task: its tick count and, for a fair task, its quantum. -/
def chargeTick (nowNs : UInt64) (t : SchedulerTask) : SchedulerTask :=
  let t := { t with cpuTicks := t.cpuTicks.satAdd 1 }
  if t.deadline.isSome then t
  else
    { t with
      quantumLeft := if t.quantumLeft = 0 then 0 else t.quantumLeft - 1
      quantumDeadlineNs :=
        if t.quantumDeadlineNs = 0 then nowNs.satAdd DEFAULT_FAIR_QUANTUM_NS
        else t.quantumDeadlineNs }

/-- May a charged task keep its CPU? -/
def keepsCpu (nowNs : UInt64) (t : SchedulerTask) : Bool :=
  t.state == .running &&
    match t.deadline with
    | some d => d.remainingBudgetNs > 0
    | none => t.quantumLeft > 0 && t.quantumDeadlineNs > nowNs

/-- A task that loses its CPU. -/
def preempt (t : SchedulerTask) : SchedulerTask :=
  if t.state = .running then
    { t with state := .ready, quantumLeft := DEFAULT_QUANTUM_TICKS }
  else t

def tickAtOnCpu (cpu : ℕ) (nowNs : UInt64) : SchedM ScheduleDecision := do
  ensureCpuId cpu
  let s ← get
  check (¬ nowNs < s.nowNs) .invalidTask
  modify (accountRuntime nowNs)
  let elapsedNs := nowNs.satSub s.nowNs
  modify fun s => { s with nowNs := nowNs, totalTicks := s.totalTicks.satAdd 1 }
  wakeExpiredDeadlines
  let s ← get
  let previous := (s.currentTaskIds[cpu]?).join
  match previous.bind s.task with
  | some current =>
    let tickGroup := some (current.resourceGroupId, current.deadline.isNone)
    let charged := chargeTick nowNs current
    if keepsCpu nowNs charged then do
      modify (modifyTask current.id fun _ => charged)
      addGroupTickIfPresent tickGroup elapsedNs
      return ⟨previous, previous, cpu, false⟩
    else do
      modify (modifyTask current.id fun _ => preempt charged)
      addGroupTickIfPresent tickGroup elapsedNs
      let next ← scheduleNextOnCpu cpu
      return ⟨previous, next, cpu, previous != next⟩
  | none => do
    let next ← scheduleNextOnCpu cpu
    return ⟨previous, next, cpu, previous != next⟩

def tick : SchedM ScheduleDecision := do
  let s ← get
  match ← attempt (tickAtOnCpu 0 (s.nowNs.satAdd 1)) with
  | .ok decision => return decision
  | .error _ => return ⟨none, none, 0, false⟩

abbrev tickOnCpu (cpu : ℕ) : SchedM ScheduleDecision := do
  let s ← get
  tickAtOnCpu cpu (s.nowNs.satAdd 1)

/-- The task a directed yield names must be ready and free to run on the CPU. -/
def checkYieldTarget (cpu : ℕ) : Option ℕ → SchedM Unit
  | none => return ()
  | some id => do
    let s ← get
    let target ← some? (s.task id) .invalidTask
    check (target.state = .ready ∧ taskCanRunOnCpu target cpu ∧
      ¬ s.isRunningElsewhere id cpu) .invalidTask

/-- Choose a successor while the yielding task stands aside, and fall back on it. -/
def yieldToAny (cpu : ℕ) (yielded : Option ℕ) : SchedM (Option ℕ) := do
  let setYielded (state : TaskState) (s : Scheduler) : Scheduler :=
    match yielded with
    | none => s
    | some id => s.modifyTask id fun t => { t with state := state }
  modify (setYielded .suspended)
  let next ← scheduleNextOnCpu cpu
  modify (setYielded .ready)
  if next.isNone then scheduleNextOnCpu cpu else return next

def yieldTo (cpu id : ℕ) : SchedM (Option ℕ) := do
  modify (setCurrent cpu (some id))
  modify (modifyTask id fun t =>
    { t with state := .running, quantumLeft := DEFAULT_QUANTUM_TICKS })
  return some id

def yieldNext (cpu : ℕ) (yielded : Option ℕ) : Option ℕ → SchedM (Option ℕ)
  | some id => yieldTo cpu id
  | none => yieldToAny cpu yielded

def yieldCurrentToOnCpu (cpu : ℕ) (targetId : Option ℕ) : SchedM ScheduleDecision := do
  ensureCpuId cpu
  checkYieldTarget cpu targetId
  let s ← get
  let previous := (s.currentTaskIds[cpu]?).join
  let running := (previous.bind s.task).filter (·.state == .running)
  let yielded := running.map (·.id)
  modify fun s =>
    match yielded with
    | none => s
    | some id => s.modifyTask id fun t => { t with state := .ready }
  addGroupTickIfPresent (running.map fun t => (t.resourceGroupId, t.deadline.isNone))
    DEFAULT_FAIR_QUANTUM_NS
  let next ← yieldNext cpu yielded targetId
  modify rebuildRunnableIndexes
  return ⟨previous, next, cpu, previous != next⟩

def yieldCurrentToAtOnCpu (cpu : ℕ) (targetId : Option ℕ) (nowNs : UInt64) :
    SchedM ScheduleDecision := do
  ensureCpuId cpu
  let s ← get
  check (¬ nowNs < s.nowNs) .invalidTask
  modify (accountRuntime nowNs)
  modify fun s => { s with nowNs := nowNs }
  wakeExpiredDeadlines
  yieldCurrentToOnCpu cpu targetId

/-! ### The timer -/

/-- The time at which a wait ends by itself. -/
def waitDeadline : BlockReason → Option UInt64
  | .sleepUntil deadline | .waitMany _ _ deadline | .futexUntil _ deadline => some deadline
  | _ => none

/-- The time at which an exhausted server is refilled. -/
def refillTime (d : EffectiveDeadline) : UInt64 :=
  (d.absoluteDeadlineNs.satSub d.profile.deadlineNs).satAdd d.profile.periodNs

/-- The time at which the task on a CPU has used up its budget or its quantum. -/
def runningDeadline (cpu : ℕ) : Option UInt64 :=
  (s.currentOnCpu cpu).bind fun t =>
    match t.deadline with
    | some d => some (s.nowNs.satAdd d.remainingBudgetNs)
    | none => if t.quantumDeadlineNs ≠ 0 then some t.quantumDeadlineNs else none

/-- The refills of the exhausted servers that could run on a CPU. -/
def pendingRefills (cpu : ℕ) : List UInt64 :=
  ((s.tasks.filter fun t => t.state == .ready && taskCanRunOnCpu t cpu).filterMap fun t =>
    t.deadline.filter (·.remainingBudgetNs == 0)).map refillTime

/-- The earliest end of the running task's turn, of a wait and of a server's pause. -/
def nextDeadlineOnCpu (cpu : ℕ) : Except SchedulerError (Option UInt64) :=
  if cpu < s.currentTaskIds.length then
    .ok (minByKey id ((s.runningDeadline cpu).toList ++
      (s.tasks.filterMap fun t => t.blockReason.bind waitDeadline) ++ s.pendingRefills cpu))
  else .error .invalidTask

/-! ### Holding and releasing a process -/

/-- Move the tasks of a process that are in one of the states `from` to `held`, take their
CPUs away and choose successors. -/
def holdProcess (held : TaskState) (fromStates : List TaskState) (processId : ℕ) : SchedM Unit := do
  modify fun s =>
    { s with
      tasks := s.tasks.map fun t =>
        if t.processId = processId ∧ t.state ∈ fromStates then { t with state := held } else t }
  modify fun s => s.vacate fun id => (s.task id).any (·.state == held)
  modify rebuildRunnableIndexes
  fillIdleCpus

/-- Move the held tasks of a process back to waiting or ready. -/
def releaseProcess (held : TaskState) (processId : ℕ) : SchedM Unit := do
  modify fun s =>
    { s with
      tasks := s.tasks.map fun t =>
        if t.processId = processId ∧ t.state = held then
          { t with state := if t.blockReason.isSome then .blocked else .ready }
        else t }
  modify rebuildRunnableIndexes
  fillIdleCpus

def quiesceProcess : ℕ → SchedM Unit := holdProcess .quiesced [.ready, .running, .blocked]

def resumeQuiescedProcess : ℕ → SchedM Unit := releaseProcess .quiesced

def stopProcess : ℕ → SchedM Unit :=
  holdProcess .stopped [.ready, .running, .blocked, .suspended]

def resumeStoppedProcess : ℕ → SchedM Unit := releaseProcess .stopped

end Scheduler

end Bexos
