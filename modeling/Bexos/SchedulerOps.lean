/-
Runs of the scheduler.

`SchedOp` lists the scheduler's public operations that change its state, with their
arguments; an operation that returns an error is a step like any other.

* `Scheduler.Advance K s t` — what one operation does to the table of tasks: it changes each
  task, adds one, or forgets those that have exited;
* `Scheduler.wp_exec` — every operation advances a sound scheduler, using only the special
  changes it needs (`SchedOp.needs`).
-/
import Bexos.SchedulerSteps

namespace Bexos

open Prog

inductive SchedOp where
  -- resource groups
  | ensureResourceGroup (id : UInt32)
  | ensureResourceGroupWithShares (id cpuShares : UInt32)
  | ensureResourceGroupWithLimits (id : UInt32) (parentId : Option UInt32) (cpuShares : UInt32)
      (maxUtilizationPermille : UInt16) (allowRealtime : Bool)
  | setResourceGroupShares (id cpuShares : UInt32)
  | setResourceGroupLimits (id cpuShares : UInt32) (maxUtilizationPermille : UInt16)
      (allowRealtime : Bool)
  -- tasks
  /-- Add a task made by `SchedulerTask::new`, with any affinity. -/
  | addTask (id processId : ℕ) (resourceGroupId : UInt32) (priority : UInt8) (name : List UInt8)
      (cpuAffinityMask : UInt64)
  | blockCurrentOnCpu (cpu : ℕ) (reason : BlockReason)
  | wakeTask (id : ℕ)
  | wakeHandleWaiters (handle : ℕ) (signals : UInt32)
  | wakeExpiredDeadlines
  | suspendTask (id : ℕ)
  | exitTask (id : ℕ) (exitCode : Int32)
  | exitCurrentOnCpu (cpu : ℕ) (exitCode : Int32)
  | cleanupExited
  -- profiles
  | setProfile (id : ℕ) (profile : SchedulingProfile)
  | donatePriority (ownerId : ℕ) (donatedPriority : UInt8)
  | restoreBasePriority (id : ℕ)
  | setCpuAffinity (id : ℕ) (affinityMask : UInt64)
  -- clock
  | tick
  | tickOnCpu (cpu : ℕ)
  | tickAtOnCpu (cpu : ℕ) (nowNs : UInt64)
  | accountRuntime (nowNs : UInt64)
  | accountExecuting (cpu thread : ℕ) (nowNs : UInt64)
  | yieldCurrentToOnCpu (cpu : ℕ) (targetId : Option ℕ)
  | yieldCurrentToAtOnCpu (cpu : ℕ) (targetId : Option ℕ) (nowNs : UInt64)
  -- process control
  | quiesceProcess (processId : ℕ)
  | resumeQuiescedProcess (processId : ℕ)
  | stopProcess (processId : ℕ)
  | resumeStoppedProcess (processId : ℕ)

/-- The special changes an operation may make, apart from charging time when it sets the
clock. -/
def SchedOp.needs : SchedOp → Special → Prop
  | .blockCurrentOnCpu _ reason, k => k = .block reason
  | .suspendTask _, k => k = .suspend
  | .setProfile _ _, k => k = .profile
  | .setCpuAffinity _ _, k => k = .preempt
  | .tick, k | .tickOnCpu _, k | .tickAtOnCpu _ _, k => k = .preempt
  | .accountRuntime _, k | .accountExecuting _ _ _, k => k = .spend
  | .yieldCurrentToOnCpu _ _, k | .yieldCurrentToAtOnCpu _ _ _, k =>
    k = .preempt ∨ ∃ starved, k = .direct starved
  | .quiesceProcess _, k => k = .hold .quiesced
  | .resumeQuiescedProcess _, k => k = .release .quiesced
  | .stopProcess _, k => k = .hold .stopped
  | .resumeStoppedProcess _, k => k = .release .stopped
  | _, _ => False

/-- Does an operation leave the tasks that there are? -/
def SchedOp.steady : SchedOp → Bool
  | .addTask .. | .cleanupExited => false
  | _ => true

/-- The time to which an operation sets the clock. -/
def SchedOp.clock (s : Scheduler) : SchedOp → Option UInt64
  | .tick | .tickOnCpu _ => some (s.nowNs.satAdd 1)
  | .tickAtOnCpu _ nowNs | .yieldCurrentToAtOnCpu _ _ nowNs => some nowNs
  | _ => none

namespace Scheduler

variable {s : Scheduler} {t : Scheduler} {maxCpus : ℕ}

def discard {α : Type} (x : SchedM α) : SchedM Unit := do
  let _ ← x
  return ()

def exec : SchedOp → SchedM Unit
  | .ensureResourceGroup id => ensureResourceGroup id
  | .ensureResourceGroupWithShares id cpuShares => ensureResourceGroupWithShares id cpuShares
  | .ensureResourceGroupWithLimits id parentId cpuShares maxUtilizationPermille allowRealtime =>
    ensureResourceGroupWithLimits id parentId cpuShares maxUtilizationPermille allowRealtime
  | .setResourceGroupShares id cpuShares => setResourceGroupShares id cpuShares
  | .setResourceGroupLimits id cpuShares maxUtilizationPermille allowRealtime =>
    setResourceGroupLimits id cpuShares maxUtilizationPermille allowRealtime
  | .addTask id processId resourceGroupId priority name cpuAffinityMask => do
    let task ← lift (SchedulerTask.new id processId resourceGroupId priority name)
    addTask { task with cpuAffinityMask }
  | .blockCurrentOnCpu cpu reason => discard (blockCurrentOnCpu cpu reason)
  | .wakeTask id => wakeTask id
  | .wakeHandleWaiters handle signals => wakeHandleWaiters handle signals
  | .wakeExpiredDeadlines => wakeExpiredDeadlines
  | .suspendTask id => suspendTask id
  | .exitTask id exitCode => exitTask id exitCode
  | .exitCurrentOnCpu cpu exitCode => discard (exitCurrentOnCpu cpu exitCode)
  | .cleanupExited => discard cleanupExited
  | .setProfile id profile => setProfile id profile
  | .donatePriority ownerId donatedPriority => donatePriority ownerId donatedPriority
  | .restoreBasePriority id => restoreBasePriority id
  | .setCpuAffinity id affinityMask => setCpuAffinity id affinityMask
  | .tick => discard tick
  | .tickOnCpu cpu => discard (tickOnCpu cpu)
  | .tickAtOnCpu cpu nowNs => discard (tickAtOnCpu cpu nowNs)
  | .accountRuntime nowNs => modify (accountRuntime nowNs)
  | .accountExecuting cpu thread nowNs => modify (accountExecuting cpu thread nowNs)
  | .yieldCurrentToOnCpu cpu targetId => discard (yieldCurrentToOnCpu cpu targetId)
  | .yieldCurrentToAtOnCpu cpu targetId nowNs =>
    discard (yieldCurrentToAtOnCpu cpu targetId nowNs)
  | .quiesceProcess processId => quiesceProcess processId
  | .resumeQuiescedProcess processId => resumeQuiescedProcess processId
  | .stopProcess processId => stopProcess processId
  | .resumeStoppedProcess processId => resumeStoppedProcess processId

instance {R : Scheduler → Scheduler → Prop} [Std.Refl R] [IsTrans Scheduler R] {α : Type}
    (x : SchedM α) [Moves R x] : Moves R (discard x) := by
  unfold discard
  infer_instance

/-! ### What one operation does -/

/-- A task as `SchedulerTask::new` makes it. -/
structure Fresh (u : SchedulerTask) : Prop where
  ready : u.state = .ready
  waits : u.blockReason = none
  deadline : u.deadline = none

/-- What an operation does to the table of tasks. -/
inductive Advance (K : Special → Prop) (op : SchedOp) (s t : Scheduler) : Prop
  | tracks (h : Tracks K s t)
  | clocked (nowNs : UInt64) (c : Scheduler) (hop : nowNs ∈ op.clock s) (hc : Clocked nowNs s c)
      (h : Tracks K c t)
  | added (hop : op.steady = false) (u : SchedulerTask) (hfresh : Fresh u)
      (hnow : t.nowNs = s.nowNs) (h : Added (SchedulerTask.Changes K s.nowNs) u s t)
  | cleaned (hop : op = .cleanupExited) (h : Calm s.removeExited t)

section Exec

variable {K : Special → Prop} {op : SchedOp} {u : SchedulerTask}

theorem fresh_of_new {id processId resourceGroupId priority name}
    (h : SchedulerTask.new id processId resourceGroupId priority name = .ok u) : Fresh u := by
  unfold SchedulerTask.new at h
  split at h
  · cases h
  · cases h
    exact ⟨rfl, rfl, rfl⟩

theorem Fresh.ok (h : Fresh u) : u.Ok := by
  refine ⟨fun hwait => ?_, fun hblocked => ?_⟩
  · rw [h.waits] at hwait
    cases hwait
  · rw [h.ready] at hblocked
    cases hblocked

theorem Fresh.idle (h : Fresh u) : u.state ≠ .running := by
  rw [h.ready]
  decide

variable {α : Type} {x : SchedM α}

theorem wp_discard {P : Scheduler → Prop} (h : ends x P s) :
    ends (discard x) P s := by
  unfold ends discard
  rw [wp_bind]
  exact wp_mono h fun _ _ ht => (wp_pure _).mpr ht

/-- The states a sound scheduler may be in after an operation. -/
def Next (K : Special → Prop) (op : SchedOp) (s t : Scheduler) : Prop :=
  t.Sound ∧ Advance K op s t

theorem Tracks.next (h : Tracks K s t) : Next K op s t :=
  ⟨h.sound, .tracks h⟩

theorem wp_next {x : SchedM Unit} (hx : Moves (Evolves K) x) (hs : s.Sound) :
    ends x (Next K op s) s :=
  wp_mono (hx.run s) (fun _ _ h => (h hs).next) fun _ _ h => (h hs).next

theorem wp_next_discard (hx : Moves (Evolves K) x) (hs : s.Sound) :
    ends (discard x) (Next K op s) s :=
  wp_discard (wp_mono (hx.run s) (fun _ _ h => (h hs).next) fun _ _ h => (h hs).next)

theorem Clocked.next {nowNs c} (hop : nowNs ∈ op.clock s) (hc : Clocked nowNs s c)
    (h : Tracks K c t) : Next K op s t :=
  ⟨h.sound, .clocked nowNs c hop hc h⟩

theorem wp_exec_addTask (hs : s.Sound) (id processId resourceGroupId priority name cpuAffinityMask)
    (hop : op.steady = false) :
    ends (exec (.addTask id processId resourceGroupId priority name cpuAffinityMask))
      (Next K op s) s := by
  simp only [exec, wp_bind, wp_lift]
  refine ⟨fun u hu => ?_, fun _ _ => hs.tracks.next⟩
  have hfresh := fresh_of_new hu
  have hfresh : Fresh { u with cpuAffinityMask } := ⟨hfresh.ready, hfresh.waits, hfresh.deadline⟩
  generalize ({ u with cpuAffinityMask } : SchedulerTask) = u at hfresh ⊢
  refine wp_addTask (K := K) hs hfresh.ok hfresh.idle (fun t mask ht hnow hadded => ⟨ht, ?_⟩)
    fun e t ht => ht.next
  exact .added hop { u with cpuAffinityMask := mask } ⟨hfresh.ready, hfresh.waits, hfresh.deadline⟩
    hnow hadded

theorem wp_exec_cleanupExited (hs : s.Sound) :
    ends (exec .cleanupExited) (Next K .cleanupExited s) s := by
  refine wp_discard ?_
  simp only [cleanupExited, wp_bind, wp_get, wp_modify, wp_pure]
  have hcalm := calm_rebuildRunnableIndexes s.removeExited
  exact ⟨hs.removeExited.calm hcalm, .cleaned rfl hcalm⟩

/-- Every operation advances a sound scheduler. -/
theorem wp_exec (hs : s.Sound) (op) (hK : ∀ k, op.needs k → K k) :
    ends (exec op) (Next K op s) s := by
  have hdirects : (∀ starved, K (.direct starved)) → ∀ targetId (t : Scheduler),
      t.Directs K targetId := fun h _ _ _ _ _ _ _ => h _
  cases op with
  | ensureResourceGroupWithShares id cpuShares =>
    have hgroup : Moves (Evolves K) (ensureResourceGroupWithLimits id none cpuShares 0 true) :=
      inferInstance
    exact wp_next hgroup hs
  | addTask id processId resourceGroupId priority name mask =>
    exact wp_exec_addTask hs id processId resourceGroupId priority name mask rfl
  | blockCurrentOnCpu cpu reason =>
    exact wp_next_discard (evolves_blockCurrentOnCpu cpu (hK _ rfl)) hs
  | suspendTask id => exact wp_next (evolves_suspendTask (hK _ rfl) id) hs
  | exitCurrentOnCpu cpu exitCode => exact wp_next_discard inferInstance hs
  | cleanupExited => exact wp_exec_cleanupExited hs
  | setProfile id profile =>
    have hmild := mild_setProfile (K := K) (hK _ rfl) id profile
    exact wp_next (hmild.mono fun _ _ h => h.evolves) hs
  | setCpuAffinity id affinityMask =>
    exact wp_next (evolves_setCpuAffinity (hK _ rfl) id affinityMask) hs
  | tick =>
    exact wp_discard (wp_tick (hK _ rfl) hs (fun _ _ _ hc ht _ => hc.next rfl ht) hs.tracks.next)
  | tickOnCpu cpu =>
    refine wp_discard ?_
    simp only [tickOnCpu, wp_bind, wp_get]
    exact wp_tickAtOnCpu (hK _ rfl) hs (fun _ _ _ hc ht _ => hc.next rfl ht) fun _ => hs.tracks.next
  | tickAtOnCpu cpu nowNs =>
    exact wp_discard (wp_tickAtOnCpu (hK _ rfl) hs (fun _ _ _ hc ht _ => hc.next rfl ht)
      fun _ => hs.tracks.next)
  | accountRuntime nowNs =>
    exact (wp_modify _).mpr ((mild_accountRuntime (hK _ rfl) nowNs s).evolves hs).next
  | accountExecuting cpu thread nowNs =>
    exact (wp_modify _).mpr ((mild_accountExecuting (hK _ rfl) cpu thread nowNs s).evolves hs).next
  | yieldCurrentToOnCpu cpu targetId =>
    refine wp_discard (wp_yieldCurrentToOnCpu (hK _ (.inl rfl)) hs ?_ (fun _ _ ht _ => ht.next)
      fun _ => hs.tracks.next)
    exact hdirects (fun starved => hK _ (.inr ⟨starved, rfl⟩)) targetId s
  | yieldCurrentToAtOnCpu cpu targetId nowNs =>
    refine wp_discard (wp_yieldCurrentToAtOnCpu (hK _ (.inl rfl)) hs (fun _ t _ _ => ?_)
      (fun _ _ _ hc ht _ => hc.next rfl ht) (fun _ => hs.tracks.next)
      fun _ _ _ hc ht => hc.next rfl ht)
    exact hdirects (fun starved => hK _ (.inr ⟨starved, rfl⟩)) targetId t
  | quiesceProcess processId | stopProcess processId =>
    exact wp_next (evolves_holdProcess rfl (hK _ rfl) (by decide) processId) hs
  | resumeQuiescedProcess processId | resumeStoppedProcess processId =>
    exact wp_next (evolves_releaseProcess rfl (hK _ rfl) processId) hs
  -- the other operations make no special change
  | _ =>
    refine wp_next ?_ hs
    unfold exec
    infer_instance

end Exec

/-! ### Tasks that have exited -/

variable {K : Special → Prop} {u v : SchedulerTask} {C : Scheduler → SchedOp → Prop}

/-- A task that has exited stays so. -/
theorem exited_of_change {nowNs} (h : SchedulerTask.Change K nowNs u v) (hu : u.state = .exited) :
    v.state = .exited := by
  cases h with
  | refill => exact (congrArg Prod.fst (SchedulerTask.origin_replenish nowNs u).2).trans hu
  | charge => exact (congrArg Prod.fst (SchedulerTask.origin_chargeTick nowNs u).2).trans hu
  | dispatch cpu hstate | direct hstate | preempt quantum hstate | block reason hstate =>
    rw [hu] at hstate; cases hstate
  | wake =>
    unfold wake
    rw [hu]
    exact hu
  | exit => rfl
  | hold held fromStates processId _ hlive =>
    unfold SchedulerTask.hold
    rw [hu, if_neg fun h => hlive h.2]
    exact hu
  | release held processId hheld =>
    unfold SchedulerTask.release
    rw [hu, if_neg]
    · exact hu
    · rintro ⟨-, rfl⟩
      cases hheld
  | suspend =>
    unfold suspend
    rw [if_pos hu]
    exact hu
  | priority | affinity | spend | profile => exact hu

theorem exited_of_changes {nowNs} (h : SchedulerTask.Changes K nowNs u v) (hu : u.state = .exited) :
    v.state = .exited := by
  induction h with
  | refl => exact hu
  | tail _ hchange ih => exact exited_of_change hchange ih

/-- A task stays exited if it was. -/
def StaysExited (u v : SchedulerTask) : Prop := u.state = .exited → v.state = .exited

instance : Std.Refl StaysExited := ⟨fun _ h => h⟩

instance : IsTrans SchedulerTask StaysExited := ⟨fun _ _ _ h₁ h₂ h => h₂ (h₁ h)⟩

theorem Tracks.staysExited (h : Tracks K s t) : Each StaysExited s t :=
  h.each.mono fun _ _ hchanges => exited_of_changes hchanges

/-- What an operation does that leaves the tasks that there are. -/
theorem wp_exec_steady (hs : s.Sound) {op} (hop : op.steady = true) :
    ends (exec op) (fun t => t.Sound ∧ Each StaysExited s t) s := by
  have hkept : ∀ t, Next (fun _ => True) op s t → t.Sound ∧ Each StaysExited s t := by
    rintro t ⟨hsound, hadvance⟩
    refine ⟨hsound, ?_⟩
    cases hadvance with
    | tracks h => exact h.staysExited
    | clocked nowNs c _ hc h =>
      have hclock : Each StaysExited s c :=
        (hc.each (K := fun _ => True) trivial).mono fun _ _ => exited_of_changes
      exact hclock.trans h.staysExited
    | added hadds => rw [hop] at hadds; cases hadds
    | cleaned hcleans => subst hcleans; cases hop
  exact wp_mono (wp_exec hs op fun _ _ => trivial) (fun _ => hkept) fun _ => hkept

/-- After `exit_task` the task has exited, if there is one. -/
theorem wp_exitTask (hs : s.Sound) (id exitCode) :
    ends (exitTask id exitCode) (fun t => ∀ u, t.task id = some u → u.state = .exited) s := by
  simp only [exitTask, wp_bind, wp_get, wp_check, wp_modify]
  refine ⟨fun _ => ?_, fun hnone u hu => absurd (by rw [hu]; rfl) hnone⟩
  have hexit : Tracks (fun _ => True) s ((s.modifyTask id (exitWith exitCode)).vacate (· == id)) :=
    tracks_exit hs id exitCode
  have hcalm := calm_rebuildRunnableIndexes
    ((s.modifyTask id (exitWith exitCode)).vacate (· == id))
  have htask : ∀ u, ((s.modifyTask id (exitWith exitCode)).vacate (· == id)).task id = some u →
      u.state = .exited := by
    intro u hu
    have hmodify := task_modifyTask s id id (exitWith exitCode) fun _ => rfl
    rw [if_pos rfl] at hmodify
    obtain ⟨v, -, rfl⟩ := Option.map_eq_some_iff.mp (hmodify.symm.trans hu)
    rfl
  have hkept : ∀ t, Evolves (fun _ => True)
      ((s.modifyTask id (exitWith exitCode)).vacate (· == id)).rebuildRunnableIndexes t →
      ∀ u, t.task id = some u → u.state = .exited := by
    intro t ht u hu
    obtain ⟨v, hv, hstays⟩ := exists_of_rel' ((ht (hexit.sound.calm hcalm)).staysExited.2 id) hu
    rw [hcalm.task] at hv
    exact hstays (htask v hv)
  exact wp_of_moves (R := Evolves fun _ => True) (fun _ t ht => hkept t ht) fun _ t ht => hkept t ht

/-! ### Runs -/

/-- The scheduler after an operation, unless the kernel stopped. -/
def step (op : SchedOp) (s : Scheduler) : Option Scheduler := (exec op s).state?

/-- The schedulers that runs reach if each operation of the run meets the condition `C`. -/
def Reaches (C : Scheduler → SchedOp → Prop) (t : Scheduler) : Prop :=
  ∃ maxCpus s, withCpuCount maxCpus = .ok s ∧ Steps step C s t

theorem tasks_of_withCpuCount (h : withCpuCount maxCpus = .ok s) :
    s.tasks = [] ∧ s.groups = [] ∧ s.currentTaskIds = List.replicate maxCpus none := by
  unfold withCpuCount at h
  split at h
  · cases h
  · cases h
    exact ⟨rfl, rfl, rfl⟩

theorem sound_of_withCpuCount (h : withCpuCount maxCpus = .ok s) : s.Sound := by
  obtain ⟨htasks, -, hcurrent⟩ := tasks_of_withCpuCount h
  have hruns : ∀ cpu id, ¬ s.Runs cpu id := by
    intro cpu id hrun
    rw [Runs, hcurrent, List.getElem?_replicate] at hrun
    split at hrun <;> cases hrun
  have hnone : ∀ id, s.task id = none := fun id => by rw [Scheduler.task, htasks]; rfl
  refine ⟨?_, fun cpu id hrun => absurd hrun (hruns cpu id),
    fun cpu _ id hrun => absurd hrun (hruns cpu id), fun id u hu => ?_, fun id u hu => ?_⟩
  · rw [ids, htasks]
    exact List.nodup_nil
  · rw [hnone] at hu
    cases hu
  · rw [hnone] at hu
    cases hu

theorem Reaches.invariant {I : Scheduler → Prop}
    (hnew : ∀ maxCpus s, withCpuCount maxCpus = .ok s → I s)
    (hstep : ∀ s op, I s → C s op → ends (exec op) I s) (ht : Reaches C t) :
    I t := by
  obtain ⟨maxCpus, s, hs, hrun⟩ := ht
  exact hrun.invariant (fun s op u hs hc hu => of_state (hstep s op hs hc) hu) (hnew maxCpus s hs)

/-- Run operations on a new scheduler, checking the condition of each. -/
def runFrom (maxCpus : ℕ) (C : Scheduler → SchedOp → Bool) (ops : List SchedOp) :
    Option Scheduler :=
  (withCpuCount maxCpus).toOption.bind (runAll step C ops)

theorem reaches_of_runFrom {C : Scheduler → SchedOp → Bool} {ops}
    (h : runFrom maxCpus C ops = some t) {D : Scheduler → SchedOp → Prop}
    (hCD : ∀ s op, C s op → D s op) : Reaches D t := by
  obtain ⟨s, hs, hsteps⟩ := Option.bind_eq_some_iff.mp h
  refine ⟨maxCpus, s, ?_, (steps_of_runAll ops hsteps).mono hCD⟩
  cases hnew : withCpuCount maxCpus with
  | error e => rw [hnew] at hs; cases hs
  | ok s₁ => rw [hnew] at hs; rw [Option.some.inj hs]

/-- Every scheduler that a run reaches is sound. -/
theorem Reaches.sound (ht : Reaches C t) : t.Sound := by
  refine ht.invariant (fun _ _ => sound_of_withCpuCount) fun s op hs _ => ?_
  exact wp_mono (wp_exec (K := fun _ => True) hs op fun _ _ => trivial) (fun _ _ h => h.1)
    fun _ _ h => h.1

end Scheduler

end Bexos
