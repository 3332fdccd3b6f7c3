/-
The scheduler's part of a kernel snapshot (`sched/snapshot.rs`).

A kernel that replaces another takes over the scheduler's tables as words.  Reading them
checks ranges, duplicates and what refers to tasks, groups and CPUs.

* `Scheduler.writeSnapshot`, `Scheduler.readSnapshot`;
* `Scheduler.readGroups` — the table of resource groups, as it stands in the input.

Design notes: what is written is a list of bytes; the writer's buffer is large enough.
-/
import Bexos.Codec
import Bexos.Scheduler

namespace Bexos

open Prog

namespace Scheduler

/-- The bytes `BEXSCH02`. -/
def RUNTIME_MAGIC : UInt64 := UInt64.ofNat (leValue (ascii "BEXSCH02"))
/-- The bytes `BEXSCH01`: a snapshot without run times. -/
def MAGIC : UInt64 := UInt64.ofNat (leValue (ascii "BEXSCH01"))

def SNAPSHOT_LIMIT : ℕ := 262144

/-! ### Writing -/

def countBytes (n : ℕ) : Bytes := wordBytes (UInt64.ofNat n)

def flagBytes (b : Bool) : Bytes := wordBytes (if b then 1 else 0)

def writeOptional : Option UInt64 → Bytes
  | none => flagBytes false
  | some w => flagBytes true ++ wordBytes w

def writeBlockReason : Option BlockReason → Bytes
  | none => wordBytes 0
  | some (.futex uaddr) => [1, uaddr].flatMap wordBytes
  | some (.handleSignals handle signals) =>
    [2, UInt64.ofNat handle, signals.toUInt64].flatMap wordBytes
  | some (.waitMany items itemCount deadlineNanos) =>
    [3, UInt64.ofNat itemCount, deadlineNanos].flatMap wordBytes ++
      items.toList.flatMap fun (handle, signals) =>
        [UInt64.ofNat handle, signals.toUInt64].flatMap wordBytes
  | some (.sleepUntil deadlineNanos) => [4, deadlineNanos].flatMap wordBytes
  | some (.futexUntil uaddr deadlineNanos) => [5, uaddr, deadlineNanos].flatMap wordBytes

def stateWord : TaskState → UInt64
  | .ready => 0
  | .running => 1
  | .blocked => 2
  | .suspended => 3
  | .exited => 4
  | .quiesced => 5
  | .stopped => 6

def writeDeadline : Option EffectiveDeadline → Bytes
  | none => flagBytes false
  | some d =>
    flagBytes true ++
      [d.profile.capacityNs, d.profile.deadlineNs, d.profile.periodNs, d.absoluteDeadlineNs,
        d.remainingBudgetNs].flatMap wordBytes

def writeTask (t : SchedulerTask) : Bytes :=
  [UInt64.ofNat t.id, UInt64.ofNat t.processId, t.resourceGroupId.toUInt64,
      t.priority.toUInt64, t.basePriority.toUInt64, t.effectivePriority.toUInt64,
      t.fairWeight.toUInt64].flatMap wordBytes ++
    writeDeadline t.deadline ++ wordBytes (stateWord t.state) ++
    wordBytes t.quantumLeft.toUInt64 ++ wordBytes t.quantumDeadlineNs ++
    writeOptional (t.assignedCpu.map UInt64.ofNat) ++ wordBytes t.cpuTicks ++
    wordBytes t.cpuAffinityMask ++ writeBlockReason t.blockReason ++
    wordBytes t.exitCode.toInt64.toUInt64 ++ countBytes t.name.length ++ t.name

def writeGroup (g : ResourceGroup) : Bytes :=
  wordBytes g.id.toUInt64 ++ writeOptional (g.parentId.map (·.toUInt64)) ++
    wordBytes g.cpuShares.toUInt64 ++ wordBytes g.maxUtilizationPermille.toUInt64 ++
    flagBytes g.allowRealtime ++
    [g.fairVruntime, g.cpuTicks, g.cpuTimeNs, g.quotaWindowStartNs, g.quotaUsedNs,
      g.runnableTasks.toUInt64].flatMap wordBytes

def writeCursor (c : FairCursor) : Bytes :=
  wordBytes c.group.toUInt64 ++ countBytes c.cpu ++ writeOptional (c.task.map UInt64.ofNat)

def writeRuntime (a : Accounting) : Bytes :=
  if a.legacy then []
  else
    writeOptional a.lastNs ++ countBytes a.threads.length ++
      a.threads.flatMap fun t =>
        [UInt64.ofNat t.id, UInt64.ofNat t.process, t.cpuNs].flatMap wordBytes

def writeSnapshot (s : Scheduler) : Bytes :=
  [if s.runtime.legacy then MAGIC else RUNTIME_MAGIC, s.totalTicks, s.nowNs,
      UInt64.ofNat s.currentTaskIds.length].flatMap wordBytes ++
    s.currentTaskIds.flatMap (fun current => writeOptional (current.map UInt64.ofNat)) ++
    countBytes s.tasks.length ++ s.tasks.flatMap writeTask ++
    countBytes s.groups.length ++ s.groups.flatMap writeGroup ++
    countBytes s.fairTaskCursors.length ++ s.fairTaskCursors.flatMap writeCursor ++
    s.fairReadyBitmap.toList.flatMap wordBytes ++ writeRuntime s.runtime

/-! ### Reading -/

open Reader

def readBlockReason : Reader (Option BlockReason) := do
  let kind ← word
  match kind.toNat with
  | 0 => return none
  | 1 => do
    let uaddr ← word
    return some (.futex uaddr)
  | 2 => do
    let handle ← index
    let signals ← u32
    return some (.handleSignals handle signals)
  | 3 => do
    let itemCount ← count MAX_WAIT_MANY_ITEMS
    let deadlineNanos ← word
    let item : Reader (ℕ × UInt32) := do
      let handle ← index
      let signals ← u32
      return (handle, signals)
    let items ← vector item MAX_WAIT_MANY_ITEMS
    return some (.waitMany items itemCount deadlineNanos)
  | 4 => do
    let deadlineNanos ← word
    return some (.sleepUntil deadlineNanos)
  | 5 => do
    let uaddr ← word
    check (¬ (uaddr = 0 ∨ uaddr &&& 3 ≠ 0)) .invalidRuntimeSnapshot
    let deadlineNanos ← word
    return some (.futexUntil uaddr deadlineNanos)
  | _ => bad

def readState : Reader TaskState := do
  let state ← word
  match state.toNat with
  | 0 => return .ready
  | 1 => return .running
  | 2 => return .blocked
  | 3 => return .suspended
  | 4 => return .exited
  | 5 => return .quiesced
  | 6 => return .stopped
  | _ => bad

def readDeadline : Reader EffectiveDeadline := do
  let capacityNs ← word
  let deadlineNs ← word
  let periodNs ← word
  let absoluteDeadlineNs ← word
  let remainingBudgetNs ← word
  let profile : DeadlineProfile := ⟨capacityNs, deadlineNs, periodNs⟩
  check (¬ (¬ profile.valid ∨ remainingBudgetNs > capacityNs)) .invalidRuntimeSnapshot
  return ⟨profile, absoluteDeadlineNs, remainingBudgetNs⟩

def readExitCode : Reader Int32 := do
  let w ← word
  check (-2 ^ 31 ≤ w.toInt64.toInt ∧ w.toInt64.toInt < 2 ^ 31) .invalidRuntimeSnapshot
  return w.toInt64.toInt32

def readTask : Reader SchedulerTask := do
  let id ← index
  let processId ← index
  let resourceGroupId ← u32
  let priority ← u8
  let basePriority ← u8
  let effectivePriority ← u8
  let fairWeight ← u32
  let deadline ← optional readDeadline
  let state ← readState
  let quantumLeft ← u8
  let quantumDeadlineNs ← word
  let assignedCpu ← optional u8
  let cpuTicks ← word
  let cpuAffinityMask ← word
  let blockReason ← readBlockReason
  let exitCode ← readExitCode
  let nameLen ← count MAX_TASK_NAME
  let name ← bytes nameLen
  check (¬ (id = 0 ∨ processId = 0 ∨ resourceGroupId = 0 ∨ fairWeight = 0 ∨ nameLen = 0))
    .invalidRuntimeSnapshot
  return { id, processId, resourceGroupId, priority, basePriority, effectivePriority, fairWeight,
           deadline, state, quantumLeft, quantumDeadlineNs
           assignedCpu := assignedCpu.map (·.toNat)
           cpuTicks, cpuAffinityMask, blockReason, exitCode, name }

/-- The loop over the tasks. -/
def readTasks : ℕ → List SchedulerTask → Reader (List SchedulerTask)
  | 0, tasks => return tasks
  | n + 1, tasks => do
    let task ← readTask
    check (¬ tasks.any (·.id == task.id)) .invalidRuntimeSnapshot
    readTasks n (tasks ++ [task])

def readGroup : Reader ResourceGroup := do
  let id ← u32
  let parentId ← optional u32
  let cpuShares ← u32
  let maxUtilizationPermille ← u16
  let allowRealtime ← flag
  let fairVruntime ← word
  let cpuTicks ← word
  let cpuTimeNs ← word
  let quotaWindowStartNs ← word
  let quotaUsedNs ← word
  let runnableTasks ← u16
  return { id, parentId, cpuShares, maxUtilizationPermille, allowRealtime, fairVruntime, cpuTicks,
           cpuTimeNs, quotaWindowStartNs, quotaUsedNs, runnableTasks }

/-- The loop over the groups. Nothing is asked of a group's parent. -/
def readGroups : ℕ → List ResourceGroup → Reader (List ResourceGroup)
  | 0, groups => return groups
  | n + 1, groups => do
    let group ← readGroup
    check (¬ (group.id = 0 ∨ group.cpuShares = 0 ∨ group.maxUtilizationPermille > 1000 ∨
      groups.any (·.id == group.id))) .invalidRuntimeSnapshot
    readGroups n (groups ++ [group])

def readCursor : Reader FairCursor := do
  let group ← u32
  let cpu ← u8
  let task ← optional index
  return ⟨group, cpu.toNat, task⟩

/-- The loop over the threads of the ledger. -/
def readThreads : ℕ → Accounting → Reader Accounting
  | 0, runtime => return runtime
  | n + 1, runtime => do
    let id ← index
    let process ← index
    let cpuNs ← word
    check (¬ (id = 0 ∨ process = 0)) .invalidRuntimeSnapshot
    check (¬ runtime.threads.any (·.id == id)) .invalidRuntimeSnapshot
    readThreads n { runtime with threads := runtime.threads ++ [⟨id, process, cpuNs⟩] }

/-- A ledger of the tasks for a snapshot that has none. -/
def registerTasks : List SchedulerTask → Accounting → Except TransplantError Accounting
  | [], runtime => .ok runtime
  | task :: tasks, runtime =>
    match runtime.register task.id task.processId with
    | .error _ => .error .invalidRuntimeSnapshot
    | .ok runtime => registerTasks tasks runtime

def readRuntime (magic : UInt64) (tasks : List SchedulerTask) : Reader Accounting :=
  if magic = RUNTIME_MAGIC then do
    let lastNs ← optional word
    let n ← count SNAPSHOT_LIMIT
    let runtime ← readThreads n { Accounting.new with lastNs }
    check (tasks.all fun task =>
      runtime.threads.any fun t => t.id == task.id && t.process == task.processId)
      .invalidRuntimeSnapshot
    return runtime
  else lift (registerTasks tasks { Accounting.new with legacy := true })

/-- The task on a CPU runs, and may run there. -/
def currentOk (s : Scheduler) (cpu : ℕ) : Option ℕ → Bool
  | none => true
  | some id => (s.task id).any fun t => t.state == .running && taskCanRunOnCpu t cpu

/-- A task has a group and a CPU, and runs only if a CPU runs it. -/
def taskOk (s : Scheduler) (t : SchedulerTask) : Bool :=
  s.groups.any (·.id == t.resourceGroupId) && t.cpuAffinityMask &&& s.activeCpuMask != 0 &&
    t.assignedCpu.all (· < s.currentTaskIds.length) &&
    (t.state != .running || s.currentTaskIds.contains (some t.id))

/-- What stands in front of the groups. -/
structure Front where
  magic : UInt64
  totalTicks : UInt64
  nowNs : UInt64
  currentTaskIds : List (Option ℕ)
  tasks : List SchedulerTask

def readFront : Reader Front := do
  let magic ← word
  check (magic = MAGIC ∨ magic = RUNTIME_MAGIC) .invalidRuntimeSnapshot
  let totalTicks ← word
  let nowNs ← word
  let cpus ← count MAX_CPUS
  check (cpus ≠ 0) .invalidRuntimeSnapshot
  let currentTaskIds ← repeated (optional index) cpus
  let n ← count SNAPSHOT_LIMIT
  let tasks ← readTasks n []
  return ⟨magic, totalTicks, nowNs, currentTaskIds, tasks⟩

def readGroupTable : Reader (List ResourceGroup) := do
  let n ← count SNAPSHOT_LIMIT
  readGroups n []

def readSnapshot : Reader Scheduler := do
  let front ← readFront
  let groups ← readGroupTable
  let fairTaskCursors ← list SNAPSHOT_LIMIT readCursor
  let fairReadyBitmap ← vector word FAIR_PRIORITY_WORDS
  let runtime ← readRuntime front.magic front.tasks
  let s : Scheduler :=
    { tasks := front.tasks
      runtime, groups, fairTaskCursors
      currentTaskIds := front.currentTaskIds
      totalTicks := front.totalTicks
      nowNs := front.nowNs
      fairReadyBitmap }
  check (s.currentTaskIds.zipIdx.all fun (current, cpu) => s.currentOk cpu current)
    .invalidRuntimeSnapshot
  check (s.tasks.all s.taskOk) .invalidRuntimeSnapshot
  return s

/-! ### What is read -/

theorem not_mem_of_not_any {α κ : Type} [DecidableEq κ] {k : α → κ} {as : List α} {a : κ}
    (h : ¬ as.any (k · == a) = true) : a ∉ as.map k := by
  intro hmem
  obtain ⟨b, hb, rfl⟩ := List.mem_map.mp hmem
  exact h (List.any_eq_true.mpr ⟨b, hb, beq_self_eq_true _⟩)

theorem readGroups_nodup : ∀ (n : ℕ) {groups groups' : List ResourceGroup} {input rest : Bytes},
    (groups.map (·.id)).Nodup → readGroups n groups input = .ok groups' rest →
    (groups'.map (·.id)).Nodup
  | 0, _, _, _, _, hnodup, h => (pure_eq_ok.mp h).1 ▸ hnodup
  | n + 1, _, _, _, _, hnodup, h => by
    obtain ⟨group, _, -, h⟩ := bind_eq_ok.mp h
    obtain ⟨_, _, hnew, h⟩ := bind_eq_ok.mp h
    have hnew := (check_eq_ok.mp hnew).1
    exact readGroups_nodup n (nodup_map_concat hnodup
      (not_mem_of_not_any fun hany => hnew (.inr (.inr (.inr hany))))) h

/-- What a scheduler that was read owes to the input. -/
theorem of_readSnapshot {input rest s} (h : readSnapshot input = .ok s rest) :
    ∃ front rest₁ rest₂, readFront input = .ok front rest₁ ∧
      readGroupTable rest₁ = .ok s.groups rest₂ ∧ s.tasks = front.tasks ∧
      s.tasks.all s.taskOk = true := by
  obtain ⟨front, rest₁, hfront, h⟩ := bind_eq_ok.mp h
  obtain ⟨groups, rest₂, hgroups, h⟩ := bind_eq_ok.mp h
  obtain ⟨cursors, _, -, h⟩ := bind_eq_ok.mp h
  obtain ⟨bitmap, _, -, h⟩ := bind_eq_ok.mp h
  obtain ⟨runtime, _, -, h⟩ := bind_eq_ok.mp h
  obtain ⟨_, _, -, h⟩ := bind_eq_ok.mp h
  obtain ⟨_, _, htasks, h⟩ := bind_eq_ok.mp h
  obtain ⟨rfl, -⟩ := pure_eq_ok.mp h
  exact ⟨front, rest₁, rest₂, hfront, hgroups, rfl, (check_eq_ok.mp htasks).1⟩

theorem nodup_of_readGroupTable {input rest groups} (h : readGroupTable input = .ok groups rest) :
    (groups.map (·.id)).Nodup := by
  obtain ⟨n, _, -, h⟩ := bind_eq_ok.mp h
  have hnil : (([] : List ResourceGroup).map (·.id)).Nodup := List.nodup_nil
  exact readGroups_nodup n hnil h

end Scheduler

end Bexos
