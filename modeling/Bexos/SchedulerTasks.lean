/-
What can happen to the tasks of the scheduler.

Every operation changes each task by a sequence of elementary changes (`Change`): a task is
refilled, dispatched, preempted, woken, and so on.  Changes that only some operations make
(`Special`) are listed by a parameter `K`, so one walk through the scheduler serves every
result about tasks.

* `Scheduler.Sound` — a task runs iff it is the current task of a CPU that may run it, no two
  CPUs run the same task, and exactly the tasks that do not run wait;
* `Scheduler.Evolves K` — from a sound scheduler to a sound scheduler, each task by changes
  in `K`, at one time; `Scheduler.Unfolds K` — the same while time passes;
* `Scheduler.wp_scheduleNextOnCpu` — the task chosen was ready and now runs.

Design notes: tasks are compared by lookup (`Scheduler.task`), which is enough because the
list of identifiers never changes except by adding and forgetting tasks.
-/
import Mathlib.Data.List.Forall2
import Bexos.Scheduler

namespace Bexos

open Prog
open Option (map_eq_some_iff map_some some_inj)

/-! ### Changes of one task -/

/-- Is a task held by the kernel, for ownership transfer or by process control? -/
def TaskState.held : TaskState → Bool
  | .quiesced | .stopped => true
  | _ => false

/-- Changes of a task that only some operations make. -/
inductive Special where
  | preempt
  | block (reason : BlockReason)
  /-- A directed yield gives the task a CPU, although its deadline server may be starved. -/
  | direct (starved : Bool)
  /-- Its deadline server is charged. -/
  | spend
  | profile
  | hold (state : TaskState)
  | release (state : TaskState)
  | suspend

namespace SchedulerTask

/-- What decides whether a scheduler is sound. -/
def stance (t : SchedulerTask) : TaskState × Option BlockReason × UInt64 :=
  (t.state, t.blockReason, t.cpuAffinityMask)

/-- The budget of the task's deadline server is used up. -/
def starved (t : SchedulerTask) : Bool := t.deadline.any (·.remainingBudgetNs == 0)

/-- What never changes. -/
def origin (t : SchedulerTask) : ℕ × ℕ × UInt32 := (t.id, t.processId, t.resourceGroupId)

/-- Ready and running tasks do not wait, blocked ones do. -/
structure Ok (t : SchedulerTask) : Prop where
  waits : t.blockReason.isSome → t.state = .blocked ∨ t.state = .suspended ∨ t.state.held
  blocked : t.state = .blocked → t.blockReason.isSome

theorem Ok.of_stance {t u : SchedulerTask} (h : u.Ok) (hsame : t.stance = u.stance) : t.Ok := by
  simp only [stance, Prod.mk.injEq] at hsame
  exact ⟨by rw [hsame.1, hsame.2.1]; exact h.waits, by rw [hsame.1, hsame.2.1]; exact h.blocked⟩

/-- The task gets a CPU from the scheduler. -/
def run (cpu : ℕ) (nowNs : UInt64) (t : SchedulerTask) : SchedulerTask :=
  { t with
    state := .running
    quantumLeft := DEFAULT_QUANTUM_TICKS
    quantumDeadlineNs := nowNs.satAdd DEFAULT_FAIR_QUANTUM_NS
    assignedCpu := some cpu }

/-- The task is held if it is in one of the states `fromStates` and of the process. -/
def hold (held : TaskState) (fromStates : List TaskState) (processId : ℕ) (t : SchedulerTask) :
    SchedulerTask :=
  if t.processId = processId ∧ t.state ∈ fromStates then { t with state := held } else t

/-- The task is released if it is held and of the process. -/
def release (held : TaskState) (processId : ℕ) (t : SchedulerTask) : SchedulerTask :=
  if t.processId = processId ∧ t.state = held then
    { t with state := if t.blockReason.isSome then .blocked else .ready }
  else t

/-- One change of a task. -/
inductive Change (K : Special → Prop) (nowNs : UInt64) : SchedulerTask → SchedulerTask → Prop
  | refill (t : SchedulerTask) : Change K nowNs t (Scheduler.replenish nowNs t)
  | charge (t : SchedulerTask) : Change K nowNs t (Scheduler.chargeTick nowNs t)
  | dispatch (t : SchedulerTask) (cpu : ℕ) (hready : t.state = .ready)
      (hbudget : ∀ d ∈ t.deadline, 0 < d.remainingBudgetNs) : Change K nowNs t (t.run cpu nowNs)
  | preempt (t : SchedulerTask) (quantum : UInt8) (hrun : t.state = .running) (hK : K .preempt) :
      Change K nowNs t { t with state := .ready, quantumLeft := quantum }
  | wake (t : SchedulerTask) : Change K nowNs t (Scheduler.wake t)
  | exit (t : SchedulerTask) (exitCode : Int32) : Change K nowNs t
      { t with state := .exited, exitCode := exitCode, quantumLeft := 0, blockReason := none }
  | priority (t : SchedulerTask) (priority : UInt8) : Change K nowNs t
      { t with effectivePriority := priority, priority := priority }
  | affinity (t : SchedulerTask) (mask : UInt64) : Change K nowNs t { t with cpuAffinityMask := mask }
  | block (t : SchedulerTask) (reason : BlockReason) (hrun : t.state = .running)
      (hK : K (.block reason)) : Change K nowNs t
      { t with state := .blocked, blockReason := some reason, quantumLeft := DEFAULT_QUANTUM_TICKS }
  | direct (t : SchedulerTask) (hready : t.state = .ready) (hK : K (.direct t.starved)) :
      Change K nowNs t
      { t with state := .running, quantumLeft := DEFAULT_QUANTUM_TICKS }
  | spend (t : SchedulerTask) (elapsed : UInt64) (hK : K .spend) : Change K nowNs t
      { t with deadline := t.deadline.map fun d =>
          { d with remainingBudgetNs := d.remainingBudgetNs.satSub elapsed } }
  | profile (t : SchedulerTask) (priority base effective : UInt8) (weight : UInt32)
      (deadline : Option EffectiveDeadline) (quantum : UInt8) (hK : K .profile) : Change K nowNs t
      { t with
        priority := priority, basePriority := base, effectivePriority := effective
        fairWeight := weight, deadline := deadline, quantumLeft := quantum }
  | hold (t : SchedulerTask) (held : TaskState) (fromStates : List TaskState) (processId : ℕ)
      (hheld : held.held) (hlive : .exited ∉ fromStates) (hK : K (.hold held)) :
      Change K nowNs t (t.hold held fromStates processId)
  | release (t : SchedulerTask) (held : TaskState) (processId : ℕ) (hheld : held.held)
      (hK : K (.release held)) : Change K nowNs t (t.release held processId)
  | suspend (t : SchedulerTask) (hK : K .suspend) : Change K nowNs t (Scheduler.suspend t)

/-- A sequence of changes. -/
abbrev Changes (K : Special → Prop) (nowNs : UInt64) : SchedulerTask → SchedulerTask → Prop :=
  Relation.ReflTransGen (Change K nowNs)

variable {K : Special → Prop} {nowNs : UInt64} {t u : SchedulerTask}

theorem origin_replenish (nowNs t) :
    (Scheduler.replenish nowNs t).origin = t.origin ∧
      (Scheduler.replenish nowNs t).stance = t.stance := by
  unfold Scheduler.replenish
  split
  · exact ⟨rfl, rfl⟩
  · split
    · exact ⟨rfl, rfl⟩
    · simp only
      split <;> exact ⟨rfl, rfl⟩

theorem origin_chargeTick (nowNs t) :
    (Scheduler.chargeTick nowNs t).origin = t.origin ∧
      (Scheduler.chargeTick nowNs t).stance = t.stance := by
  unfold Scheduler.chargeTick
  simp only
  split <;> exact ⟨rfl, rfl⟩

theorem origin_wake (t) : (Scheduler.wake t).origin = t.origin := by
  obtain ⟨_, _, _, _, _, _, _, _, state⟩ := t
  cases state <;> rfl

theorem origin_suspend (t) : (Scheduler.suspend t).origin = t.origin := by
  unfold Scheduler.suspend
  split <;> rfl

theorem Change.origin (h : Change K nowNs t u) : u.origin = t.origin := by
  cases h with
  | refill => exact (origin_replenish nowNs t).1
  | charge => exact (origin_chargeTick nowNs t).1
  | wake => exact origin_wake t
  | hold => unfold SchedulerTask.hold; split <;> rfl
  | release => unfold SchedulerTask.release; split <;> rfl
  | suspend => exact origin_suspend t
  | _ => rfl

variable {K' : Special → Prop}

theorem Change.mono (h : Change K nowNs t u) (hK : ∀ k, K k → K' k) : Change K' nowNs t u := by
  cases h with
  | refill => exact .refill t
  | charge => exact .charge t
  | dispatch _ hready hbudget => exact .dispatch t _ hready hbudget
  | preempt _ hrun hk => exact .preempt t _ hrun (hK _ hk)
  | wake => exact .wake t
  | exit => exact .exit t _
  | priority => exact .priority t _
  | affinity => exact .affinity t _
  | block _ hrun hk => exact .block t _ hrun (hK _ hk)
  | direct hready hk => exact .direct t hready (hK _ hk)
  | spend _ hk => exact .spend t _ (hK _ hk)
  | profile _ _ _ _ _ _ hk => exact .profile t _ _ _ _ _ _ (hK _ hk)
  | hold _ _ _ hheld hlive hk => exact .hold t _ _ _ hheld hlive (hK _ hk)
  | release _ _ hheld hk => exact .release t _ _ hheld (hK _ hk)
  | suspend hk => exact .suspend t (hK _ hk)

theorem Changes.mono (h : Changes K nowNs t u) (hK : ∀ k, K k → K' k) : Changes K' nowNs t u := by
  induction h with
  | refl => exact .refl
  | tail _ hchange ih => exact ih.tail (hchange.mono hK)

theorem Changes.origin (h : Changes K nowNs t u) : u.origin = t.origin := by
  induction h with
  | refl => rfl
  | tail _ hchange ih => exact hchange.origin.trans ih

end SchedulerTask

open SchedulerTask

namespace Scheduler

variable {s : Scheduler} {u : SchedulerTask}

/-! ### Servers -/

/-- What `replenish` makes of a server. -/
def refilled (nowNs : UInt64) (d : EffectiveDeadline) : EffectiveDeadline :=
  let periods := nowNs.satSub (d.absoluteDeadlineNs.satSub d.profile.deadlineNs) / d.profile.periodNs
  if periods > 0 then
    { d with
      absoluteDeadlineNs := d.absoluteDeadlineNs.satAdd (periods.satMul d.profile.periodNs)
      remainingBudgetNs := d.profile.capacityNs }
  else d

theorem deadline_replenish (nowNs u) (hidle : u.state ≠ .running) :
    (replenish nowNs u).deadline = u.deadline.map (refilled nowNs) := by
  unfold replenish refilled
  rw [if_neg hidle]
  cases hd : u.deadline with
  | none => simp [hd]
  | some d =>
    simp only [map_some]
    split
    · rfl
    · exact hd

theorem profile_refilled (nowNs d) : (refilled nowNs d).profile = d.profile := by
  unfold refilled
  simp only
  split <;> rfl

theorem deadline_chargeTick (nowNs u) : (chargeTick nowNs u).deadline = u.deadline := by
  unfold chargeTick
  simp only
  split <;> rfl

theorem deadline_wake (u) : (wake u).deadline = u.deadline := by
  unfold wake
  split <;> rfl

section Servers

variable {K : Special → Prop} {nowNs : UInt64} {v : SchedulerTask}

/-- A server changes by a refill, the time it consumes and `set_profile`. -/
theorem server_of_change (hK : ¬ K .profile) (h : Change K nowNs u v) :
    v.deadline = u.deadline ∨ v.deadline = u.deadline.map (refilled nowNs) ∨
      K .spend ∧ ∃ elapsed : UInt64, v.deadline = u.deadline.map fun d =>
        { d with remainingBudgetNs := d.remainingBudgetNs.satSub elapsed } := by
  cases h with
  | refill =>
    by_cases hrunning : u.state = .running
    · left
      unfold replenish
      rw [if_pos hrunning]
    · exact .inr (.inl (deadline_replenish nowNs u hrunning))
  | charge => exact .inl (deadline_chargeTick nowNs u)
  | wake => exact .inl (deadline_wake u)
  | spend elapsed hspend => exact .inr (.inr ⟨hspend, elapsed, rfl⟩)
  | profile _ _ _ _ _ _ hprofile => exact absurd hprofile hK
  | hold => unfold SchedulerTask.hold; split <;> exact .inl rfl
  | release => unfold SchedulerTask.release; split <;> exact .inl rfl
  | suspend => unfold suspend; split <;> exact .inl rfl
  | _ => exact .inl rfl

/-- Only `set_profile` changes the profile of a task. -/
theorem profile_of_changes (hK : ¬ K .profile) (h : Changes K nowNs u v) :
    v.deadline.map (·.profile) = u.deadline.map (·.profile) := by
  induction h with
  | refl => rfl
  | tail _ hchange ih =>
    rw [← ih]
    rcases server_of_change hK hchange with h | h | ⟨-, elapsed, h⟩ <;> rw [h]
    · rw [Option.map_map]
      exact congrArg (Option.map · _) (funext (profile_refilled nowNs))
    · rw [Option.map_map]
      rfl

end Servers

/-! ### The table of tasks -/

/-- The identifiers of the tasks. -/
def ids (s : Scheduler) : List ℕ := s.tasks.map (·.id)

/-- Every task of `s` is still there in `t`, related by `R`, and there are no others. -/
def Each (R : SchedulerTask → SchedulerTask → Prop) (s t : Scheduler) : Prop :=
  t.ids = s.ids ∧ ∀ id, Option.Rel R (s.task id) (t.task id)

theorem id_of_task {id} (h : s.task id = some u) : u.id = id := by
  have hfound := List.find?_some h
  exact beq_iff_eq.mp hfound

theorem task_of_mem (hids : s.ids.Nodup) (hu : u ∈ s.tasks) : s.task u.id = some u :=
  find?_of_mem (k := fun u : SchedulerTask => u.id) hids hu

/-- Changing one task. -/
theorem task_modifyTask (s : Scheduler) (id j : ℕ) (f : SchedulerTask → SchedulerTask)
    (hf : ∀ u, (f u).id = u.id) :
    (s.modifyTask id f).task j = if j = id then (s.task j).map f else s.task j :=
  find?_updateFirst (k := fun u : SchedulerTask => u.id) hf id j s.tasks

theorem of_task_modifyTask {id j} {f : SchedulerTask → SchedulerTask} {v}
    (hf : ∀ u, (f u).id = u.id) (hv : (s.modifyTask id f).task j = some v) :
    (∃ u, j = id ∧ s.task j = some u ∧ f u = v) ∨ j ≠ id ∧ s.task j = some v := by
  rw [task_modifyTask s id j f hf] at hv
  split at hv
  · obtain ⟨u, hu, rfl⟩ := map_eq_some_iff.mp hv
    exact .inl ⟨u, ‹_›, hu, rfl⟩
  · exact .inr ⟨‹_›, hv⟩

theorem ids_modifyTask (s : Scheduler) (id : ℕ) (f : SchedulerTask → SchedulerTask)
    (hf : ∀ u, (f u).id = u.id) : (s.modifyTask id f).ids = s.ids :=
  map_updateFirst _ hf _

variable {f : SchedulerTask → SchedulerTask}

theorem task_mapTasks (s : Scheduler) (id : ℕ) (hf : ∀ u, (f u).id = u.id) :
    ({ s with tasks := s.tasks.map f } : Scheduler).task id = (s.task id).map f :=
  find?_map_key (k := fun u : SchedulerTask => u.id) hf id s.tasks

theorem ids_mapTasks (s : Scheduler) (hf : ∀ u, (f u).id = u.id) :
    ({ s with tasks := s.tasks.map f } : Scheduler).ids = s.ids := by
  show (s.tasks.map f).map (·.id) = s.tasks.map (·.id)
  rw [List.map_map]
  exact congrArg (List.map · _) (funext hf)

theorem id_of_origin {v : SchedulerTask} (h : v.origin = u.origin) : v.id = u.id :=
  congrArg Prod.fst h

/-- Writing back a changed copy of a task is changing the task. -/
theorem modifyTask_const {id} (hu : s.task id = some u) (f : SchedulerTask → SchedulerTask) :
    s.modifyTask u.id (fun _ => f u) = s.modifyTask id f := by
  rw [id_of_task hu]
  unfold modifyTask
  rw [updateFirst_congr (f := fun _ => f u) (g := f) hu rfl]

section Relations

variable {R : SchedulerTask → SchedulerTask → Prop} {t u : Scheduler} {o p : Option SchedulerTask}

theorem rel_rfl [Std.Refl R] (o) : Option.Rel R o o := by
  cases o with
  | none => exact .none
  | some a => exact .some (refl_of R a)

theorem rel_trans [IsTrans SchedulerTask R] {q} (h₁ : Option.Rel R o p) (h₂ : Option.Rel R p q) :
    Option.Rel R o q := by
  cases h₁ with
  | none => exact h₂
  | some hab =>
    cases h₂ with
    | some hbc => exact .some (trans_of R hab hbc)

variable {R' : SchedulerTask → SchedulerTask → Prop}

theorem rel_map (h : ∀ a, o = some a → R a (f a)) : Option.Rel R o (o.map f) := by
  cases o with
  | none => exact .none
  | some a => exact .some (h a rfl)

theorem rel_mono (h : Option.Rel R o p) (hR : ∀ a b, R a b → R' a b) : Option.Rel R' o p := by
  cases h with
  | none => exact .none
  | some hab => exact .some (hR _ _ hab)

theorem exists_of_rel {a} (h : Option.Rel R o p) (ha : o = some a) : ∃ b, p = some b ∧ R a b := by
  subst ha
  cases h with
  | some hab => exact ⟨_, rfl, hab⟩

theorem exists_of_rel' {b} (h : Option.Rel R o p) (hb : p = some b) : ∃ a, o = some a ∧ R a b := by
  subst hb
  cases h with
  | some hab => exact ⟨_, rfl, hab⟩

theorem Each.refl [Std.Refl R] (s) : Each R s s := ⟨rfl, fun _ => rel_rfl _⟩

theorem Each.trans [IsTrans SchedulerTask R] (h₁ : Each R s t) (h₂ : Each R t u) : Each R s u :=
  ⟨h₂.1.trans h₁.1, fun id => rel_trans (h₁.2 id) (h₂.2 id)⟩

theorem Each.mono (h : Each R s t) (hR : ∀ a b, R a b → R' a b) : Each R' s t :=
  ⟨h.1, fun id => rel_mono (h.2 id) hR⟩

theorem each_modifyTask [Std.Refl R] (s : Scheduler) (id : ℕ)
    (f : SchedulerTask → SchedulerTask) (hf : ∀ u, (f u).id = u.id)
    (h : ∀ u, s.task id = some u → R u (f u)) : Each R s (s.modifyTask id f) := by
  refine ⟨ids_modifyTask s id f hf, fun j => ?_⟩
  rw [task_modifyTask s id j f hf]
  split
  · rename_i hj
    exact rel_map fun u hu => h u (hj ▸ hu)
  · exact rel_rfl _

theorem each_mapTasks (s : Scheduler) (hf : ∀ u, (f u).id = u.id) (h : ∀ u, R u (f u)) :
    Each R s { s with tasks := s.tasks.map f } := by
  refine ⟨ids_mapTasks s hf, fun j => ?_⟩
  rw [task_mapTasks s j hf]
  exact rel_map fun u _ => h u

/-- Related tables list related tasks in the same order. -/
theorem Each.forall₂ (hids : s.ids.Nodup) (h : Each R s t) : List.Forall₂ R s.tasks t.tasks := by
  have hlength : s.tasks.length = t.tasks.length := by
    have hsame := congrArg List.length h.1
    simpa only [ids, List.length_map] using hsame.symm
  refine List.forall₂_iff_get.mpr ⟨hlength, fun i h₁ h₂ => ?_⟩
  have hid : (t.tasks.get ⟨i, h₂⟩).id = (s.tasks.get ⟨i, h₁⟩).id := by
    have hsame := congrArg (·[i]?) h.1
    simp only [ids, List.getElem?_map, List.getElem?_eq_getElem h₁, List.getElem?_eq_getElem h₂,
      map_some, some_inj] at hsame
    exact hsame
  have hrel := h.2 (s.tasks.get ⟨i, h₁⟩).id
  rw [task_of_mem hids (List.get_mem _ _), ← hid, task_of_mem (h.1 ▸ hids) (List.get_mem _ _)]
    at hrel
  cases hrel with
  | some hR => exact hR

end Relations

/-! ### Soundness -/

/-- A CPU runs a task. -/
def Runs (s : Scheduler) (cpu id : ℕ) : Prop := s.currentTaskIds[cpu]? = some (some id)

/-- A task is running and may run on the CPU. -/
def RunningOn (s : Scheduler) (cpu id : ℕ) : Prop :=
  ∃ u, s.task id = some u ∧ u.state = .running ∧ taskCanRunOnCpu u cpu

structure Sound (s : Scheduler) : Prop where
  ids : s.ids.Nodup
  running : ∀ cpu id, s.Runs cpu id → s.RunningOn cpu id
  apart : ∀ cpu cpu' id, s.Runs cpu id → s.Runs cpu' id → cpu = cpu'
  occupied : ∀ id u, s.task id = some u → u.state = .running → ∃ cpu, s.Runs cpu id
  ok : ∀ id u, s.task id = some u → u.Ok

/-- The scheduler is sound and each task went through changes in `K`. -/
structure Tracks (K : Special → Prop) (s t : Scheduler) : Prop where
  sound : t.Sound
  now : t.nowNs = s.nowNs
  each : Each (Changes K s.nowNs) s t

/-- What operations on a sound scheduler do while the clock stands. -/
def Evolves (K : Special → Prop) (s t : Scheduler) : Prop := s.Sound → Tracks K s t

/-- Two schedulers agree on the tasks, on what each CPU runs and on the time. -/
structure Calm (s t : Scheduler) : Prop where
  tasks : t.tasks = s.tasks
  current : t.currentTaskIds = s.currentTaskIds
  now : t.nowNs = s.nowNs

instance : Std.Refl Calm := ⟨fun _ => ⟨rfl, rfl, rfl⟩⟩

instance : IsTrans Scheduler Calm :=
  ⟨fun _ _ _ h₁ h₂ =>
    ⟨h₂.tasks.trans h₁.tasks, h₂.current.trans h₁.current, h₂.now.trans h₁.now⟩⟩

section Evolution

variable {K : Special → Prop} {t u : Scheduler}

theorem Sound.tracks (hs : s.Sound) : Tracks K s s := ⟨hs, rfl, .refl s⟩

theorem Tracks.trans (h₁ : Tracks K s t) (h₂ : Tracks K t u) : Tracks K s u :=
  ⟨h₂.sound, h₂.now.trans h₁.now, h₁.each.trans (h₁.now ▸ h₂.each)⟩

instance : Std.Refl (Evolves K) := ⟨fun _ hs => hs.tracks⟩

instance : IsTrans Scheduler (Evolves K) :=
  ⟨fun _ _ _ h₁ h₂ hs => (h₁ hs).trans (h₂ (h₁ hs).sound)⟩

theorem Tracks.mono {K' : Special → Prop} (h : Tracks K s t) (hK : ∀ k, K k → K' k) :
    Tracks K' s t :=
  ⟨h.sound, h.now, h.each.mono fun _ _ hchanges => Changes.mono hchanges hK⟩

theorem Calm.task (h : Calm s t) (id) : t.task id = s.task id := by
  rw [Scheduler.task, h.tasks]
  rfl

theorem Calm.ids (h : Calm s t) : t.ids = s.ids := by
  rw [Scheduler.ids, h.tasks]
  rfl

/-- A task with the stance of one that may be on a CPU. -/
theorem exists_of_stance {id cpu v w x} (hv : t.task id = some v) (hsame : v.stance = w.stance)
    (hstate : w.state = x) (hcpu : taskCanRunOnCpu w cpu) :
    ∃ v, t.task id = some v ∧ v.state = x ∧ taskCanRunOnCpu v cpu := by
  simp only [stance, Prod.mk.injEq] at hsame
  refine ⟨v, hv, hsame.1.trans hstate, ?_⟩
  rw [taskCanRunOnCpu, hsame.2.2]
  exact hcpu

/-- Nothing that soundness speaks of has changed. -/
theorem Sound.of_stance (hs : s.Sound) (hids : t.ids = s.ids)
    (hcurrent : t.currentTaskIds = s.currentTaskIds)
    (hstance : ∀ id, (t.task id).map stance = (s.task id).map stance) : t.Sound := by
  have hruns : ∀ cpu id, t.Runs cpu id → s.Runs cpu id := fun cpu id hrun => by
    rw [Runs, ← hcurrent]
    exact hrun
  refine ⟨hids ▸ hs.ids, fun cpu id hrun => ?_, fun cpu cpu' id h₁ h₂ => ?_, fun id v hv hrun => ?_,
    fun id v hv => ?_⟩
  · obtain ⟨u, hu, hrunning, hcpu⟩ := hs.running cpu id (hruns cpu id hrun)
    obtain ⟨v, hv, hsame⟩ := exists_of_map_eq (hstance id).symm hu
    exact exists_of_stance hv hsame hrunning hcpu
  · exact hs.apart cpu cpu' id (hruns cpu id h₁) (hruns cpu' id h₂)
  · obtain ⟨u, hu, hsame⟩ := exists_of_map_eq (hstance id) hv
    simp only [stance, Prod.mk.injEq] at hsame
    obtain ⟨cpu, hcpu⟩ := hs.occupied id u hu (hsame.1.trans hrun)
    exact ⟨cpu, (congrArg (·[cpu]?) hcurrent).trans hcpu⟩
  · obtain ⟨u, hu, hsame⟩ := exists_of_map_eq (hstance id) hv
    exact (hs.ok id u hu).of_stance hsame.symm

theorem Sound.calm (hs : s.Sound) (h : Calm s t) : t.Sound :=
  hs.of_stance h.ids h.current fun id => by rw [h.task]

theorem Calm.evolves (h : Calm s t) : Evolves K s t :=
  fun hs => ⟨hs.calm h, h.now, h.ids, fun id => by rw [h.task]; exact rel_rfl _⟩

theorem Calm.setCurrent (h : Calm s t) (cpu next) :
    Calm (s.setCurrent cpu next) (t.setCurrent cpu next) :=
  ⟨h.tasks, congrArg (List.set · cpu next) h.current, h.now⟩

end Evolution

/-! ### Operations along any relation -/

/-- What groups are found and counted by. -/
def shape (g : ResourceGroup) : UInt32 × Option UInt32 × UInt16 :=
  (g.id, g.parentId, g.runnableTasks)

/-- A relation to which the shares and the budgets of the groups do not matter. -/
class Weighs (R : Scheduler → Scheduler → Prop) : Prop where
  le : ∀ {s : Scheduler} {groups : List ResourceGroup},
    groups.map shape = s.groups.map shape → R s { s with groups := groups }

/-- Charging groups, whichever they are. -/
theorem shape_tickFrom (nowNs : UInt64) (chargeFairRuntime : Bool) (elapsedNs : UInt64) :
    ∀ (n : ℕ) (o : Option UInt32) {groups groups' : List ResourceGroup},
      tickFrom nowNs chargeFairRuntime elapsedNs n o groups = some groups' →
      groups'.map shape = groups.map shape
  | 0, none, _, _, h => by rw [Option.some.inj h]
  | _ + 1, none, _, _, h => by rw [Option.some.inj h]
  | 0, some _, _, _, h => by cases h
  | n + 1, some _, _, _, h => by
    rw [tickFrom] at h
    split at h
    · rw [Option.some.inj h]
    · exact (shape_tickFrom nowNs chargeFairRuntime elapsedNs n _ h).trans
        (map_updateFirst (f := chargeGroup nowNs chargeFairRuntime elapsedNs) _ (fun _ => rfl) _)

section Along

variable {R : Scheduler → Scheduler → Prop} {ε : Type} [Std.Refl R] [IsTrans Scheduler R]

instance [Weighs R] : Moves R (modify clampRunnableGroupLag : Prog Scheduler ε Unit) := by
  refine .modify fun s => ?_
  unfold clampRunnableGroupLag
  split
  · exact refl_of R s
  · refine Weighs.le ?_
    rw [List.map_map]
    refine List.map_congr_left fun g _ => ?_
    simp only [Function.comp_apply]
    split <;> rfl

omit [Std.Refl R] [IsTrans Scheduler R] in
/-- Changing one group. -/
theorem moves_group [Weighs R] (id : UInt32) {f : ResourceGroup → ResourceGroup}
    (hf : ∀ g, shape (f g) = shape g) :
    Moves R (modify fun s => { s with groups := updateFirst (·.id == id) f s.groups } :
      Prog Scheduler ε Unit) :=
  .modify fun s => Weighs.le (map_updateFirst _ hf s.groups)

instance [Weighs R] (id) : Moves R (modify (levelGroup id) : Prog Scheduler ε Unit) := by
  refine .modify fun s => ?_
  unfold levelGroup
  split
  · exact refl_of R s
  · rename_i baseline _
    exact Weighs.le (map_updateFirst (f := fun g : ResourceGroup =>
      { g with fairVruntime := baseline }) _ (fun _ => rfl) _)

instance [Weighs R] (tickGroup elapsedNs) :
    Moves R (addGroupTickIfPresent tickGroup elapsedNs) := by
  unfold addGroupTickIfPresent
  split
  · infer_instance
  · rename_i id chargeFairRuntime
    refine ⟨fun s => ?_⟩
    simp only [wp_bind, wp_get, wp_unwrap, wp_modify]
    intro groups hgroups
    have hcharged : R s { s with groups := groups } :=
      Weighs.le (shape_tickFrom _ _ _ _ _ hgroups)
    have hrest : Moves R
        (if chargeFairRuntime then modify clampRunnableGroupLag else pure () : SchedM Unit) :=
      inferInstance
    exact Moves.after hcharged hrest

instance [Weighs R] (id cpuShares) : Moves R (setResourceGroupShares id cpuShares) := by
  unfold setResourceGroupShares
  exact .next fun _ => .next fun _ => .next fun _ => moves_group id fun _ => rfl

instance [Weighs R] (id cpuShares permille allowRealtime) :
    Moves R (setResourceGroupLimits id cpuShares permille allowRealtime) := by
  unfold setResourceGroupLimits
  exact .next fun _ => .next fun _ => .next fun _ => moves_group id fun _ => rfl

instance [∀ cpu, Moves R (fillIdleCpu cpu)] : Moves R fillIdleCpus := by
  unfold fillIdleCpus
  infer_instance

instance [∀ id, Moves R (wakeTask id)] : Moves R wakeExpiredDeadlines := by
  unfold wakeExpiredDeadlines
  infer_instance

instance (cpu targetId) : Moves R (checkYieldTarget cpu targetId) := by
  unfold checkYieldTarget
  split <;> infer_instance

instance [∀ cpu nowNs, Moves R (tickAtOnCpu cpu nowNs)] : Moves R tick := by
  unfold tick
  refine .next fun s => .next fun r => ?_
  split <;> infer_instance

variable (cpu : ℕ) [∀ cursors : Scheduler → List FairCursor,
  Moves R (modify fun s => { s with fairTaskCursors := cursors s } : SchedM Unit)]

instance : Moves R (nextFairReady cpu) := by
  unfold nextFairReady
  refine .next fun s => .next fun group => ?_
  split
  · infer_instance
  · split <;> infer_instance

instance : Moves R (nextReady cpu) := by
  unfold nextReady
  refine .next fun s => ?_
  split <;> infer_instance

end Along

/-! ### Operations that leave the tasks -/

section Calm

variable {ε : Type}

instance : Weighs Calm := ⟨fun _ => ⟨rfl, rfl, rfl⟩⟩

instance calm_tables (runtime : Scheduler → Accounting) (groups : Scheduler → List ResourceGroup)
    (cursors : Scheduler → List FairCursor)
    (bitmap : Scheduler → List.Vector UInt64 FAIR_PRIORITY_WORDS) :
    Moves Calm (modify fun s =>
      { s with
        runtime := runtime s
        groups := groups s
        fairTaskCursors := cursors s
        fairReadyBitmap := bitmap s } : Prog Scheduler ε Unit) :=
  .modify fun _ => ⟨rfl, rfl, rfl⟩

theorem calm_rebuildRunnableIndexes (s) : Calm s s.rebuildRunnableIndexes := by
  have hfold : ∀ (us : List SchedulerTask) (t : Scheduler), Calm t (us.foldl indexTask t) := by
    intro us
    induction us with
    | nil => exact fun t => refl_of Calm t
    | cons u us ih =>
      intro t
      have hfirst : Calm t (indexTask t u) := ⟨rfl, rfl, rfl⟩
      exact trans_of Calm hfirst (ih (indexTask t u))
  have hcleared : Calm s { s with
      groups := s.groups.map fun g => { g with runnableTasks := 0 }
      fairReadyBitmap := List.Vector.replicate _ 0 } := ⟨rfl, rfl, rfl⟩
  exact trans_of Calm hcleared (hfold s.tasks _)

instance calm_rebuild : Moves Calm (modify rebuildRunnableIndexes : Prog Scheduler ε Unit) :=
  .modify calm_rebuildRunnableIndexes

instance (tickGroup elapsedNs) : NoFail (addGroupTickIfPresent tickGroup elapsedNs) := by
  unfold addGroupTickIfPresent
  split <;> infer_instance

instance (id parentId cpuShares permille allowRealtime) :
    Moves Calm (ensureResourceGroupWithLimits id parentId cpuShares permille allowRealtime) := by
  unfold ensureResourceGroupWithLimits
  refine .next fun s => .next fun _ => .next fun _ => ?_
  split <;> infer_instance

instance (id) : Moves Calm (ensureResourceGroup id) := by
  unfold ensureResourceGroup
  infer_instance

end Calm

/-! ### Choosing a successor -/

section Choosing

/-- A task that a CPU may be given. -/
structure Eligible (s : Scheduler) (cpu id : ℕ) (u : SchedulerTask) : Prop where
  task : s.task id = some u
  ready : u.state = .ready
  allowed : taskCanRunOnCpu u cpu
  budget : ∀ d ∈ u.deadline, 0 < d.remainingBudgetNs

variable {cpu : ℕ} {E : SchedulerError → Scheduler → Prop} {Q : Option ℕ → Scheduler → Prop}

theorem eligible_of_nextDeadlineReady (hids : s.ids.Nodup) {id}
    (h : s.nextDeadlineReady cpu = some id) : ∃ u, s.Eligible cpu id u := by
  obtain ⟨⟨id', deadline⟩, hmin, rfl⟩ := map_eq_some_iff.mp h
  obtain ⟨u, hu, htask⟩ := List.mem_filterMap.mp (minByKey_mem _ hmin)
  split at htask
  · rename_i hready
    simp only [Bool.and_eq_true, beq_iff_eq] at hready
    obtain ⟨d, hd, hpair⟩ := map_eq_some_iff.mp htask
    obtain ⟨hdeadline, hbudget⟩ := Option.filter_eq_some_iff.mp hd
    refine ⟨u, ?_, hready.1.1, hready.1.2, fun d' hd' => ?_⟩
    · rw [← congrArg Prod.fst hpair]
      exact task_of_mem hids hu
    · rw [Option.mem_def, hdeadline, some_inj] at hd'
      rw [← hd']
      exact of_decide_eq_true hbudget
  · cases htask

theorem eligible_of_nextFairTask (hids : s.ids.Nodup) {group id}
    (h : s.nextFairTask group cpu = some id) : ∃ u, s.Eligible cpu id u := by
  obtain ⟨priority, -, h⟩ := Option.bind_eq_some_iff.mp h
  obtain ⟨u, hfound, hid⟩ := Option.bind_eq_some_iff.mp h
  have hmem : u ∈ s.tasks := by
    have hrotated := List.mem_of_find?_eq_some hfound
    rcases List.mem_append.mp hrotated with hd | ht
    · exact List.mem_of_mem_drop hd
    · exact List.mem_of_mem_take ht
  have hready := List.find?_some hfound
  simp only [fairCandidate, Bool.and_eq_true, beq_iff_eq, Option.isNone_iff_eq_none] at hready
  refine ⟨u, ?_, hready.1.1.1.1.2, hready.1.1.2, fun d hd => ?_⟩
  · rw [← Option.some.inj hid]
    exact task_of_mem hids hmem
  · rw [hready.1.1.1.2] at hd
    cases hd

/-- The task chosen is eligible. -/
theorem wp_nextReady (hids : s.ids.Nodup)
    (hQ : ∀ next t, Calm s t → (∀ id ∈ next, ∃ u, s.Eligible cpu id u) → Q next t) :
    wp (nextReady cpu) Q E s := by
  simp only [nextReady, wp_bind, wp_get]
  split
  · rename_i id hdeadline
    refine (wp_pure _).mpr (hQ _ s (refl_of Calm s) ?_)
    rintro _ ⟨⟩
    exact eligible_of_nextDeadlineReady hids hdeadline
  simp only [nextFairReady, wp_bind, wp_get, wp_unwrap]
  intro group _
  split
  · exact (wp_pure _).mpr (hQ _ s (refl_of Calm s) fun _ h => by cases h)
  split
  · exact (wp_pure _).mpr (hQ _ s (refl_of Calm s) fun _ h => by cases h)
  · rename_i id hfair
    simp only [wp_bind, wp_modify, wp_pure]
    refine hQ _ _ ⟨rfl, rfl, rfl⟩ ?_
    rintro _ ⟨⟩
    exact eligible_of_nextFairTask hids hfair

/-- A CPU was given to `next`; every other task was refilled if its period is over. -/
structure Dispatched (cpu : ℕ) (next : Option ℕ) (s t : Scheduler) : Prop where
  range : cpu < s.currentTaskIds.length
  ids : t.ids = s.ids
  current : t.currentTaskIds = s.currentTaskIds.set cpu next
  now : t.nowNs = s.nowNs
  chosen : ∀ id ∈ next, ∃ u, s.task id = some u ∧ u.state = .ready ∧ taskCanRunOnCpu u cpu ∧
    ∀ d ∈ (replenish s.nowNs u).deadline, 0 < d.remainingBudgetNs
  task : ∀ id, t.task id = (s.task id).map fun u =>
    if next = some id then (replenish s.nowNs u).run cpu s.nowNs else replenish s.nowNs u

theorem id_replenish (nowNs u) : (replenish nowNs u).id = u.id :=
  id_of_origin (origin_replenish nowNs u).1

theorem wp_scheduleNextOnCpu (hids : s.ids.Nodup)
    (hQ : ∀ next t, Dispatched cpu next s t → Q next t) :
    wp (scheduleNextOnCpu cpu) Q E s := by
  simp only [scheduleNextOnCpu, wp_bind, wp_modify, wp_get, wp_unwrap]
  intro _ hentry
  have hrange : cpu < s.currentTaskIds.length := (getElem?_eq_some_iff.mp hentry).1
  have htask := fun id => task_mapTasks s id (id_replenish s.nowNs)
  have hids' := ids_mapTasks s (id_replenish s.nowNs)
  generalize hm : ({ s with tasks := s.tasks.map (replenish s.nowNs) } : Scheduler) = m
    at htask hids' ⊢
  have hcurrent : m.currentTaskIds = s.currentTaskIds := by rw [← hm]
  have hnow : m.nowNs = s.nowNs := by rw [← hm]
  refine wp_nextReady (hids' ▸ hids) fun next u hu heligible => ?_
  rw [wp_bind, wp_modify, wp_pure]
  -- an eligible task of the refilled table was ready before
  have hchosen : ∀ id ∈ next, ∃ v, s.task id = some v ∧ v.state = .ready ∧
      taskCanRunOnCpu v cpu ∧ ∀ d ∈ (replenish s.nowNs v).deadline, 0 < d.remainingBudgetNs := by
    intro id hid
    obtain ⟨w, hw⟩ := heligible id hid
    have hfound := hw.task
    rw [htask] at hfound
    obtain ⟨v, hv, rfl⟩ := map_eq_some_iff.mp hfound
    have hstance := (origin_replenish s.nowNs v).2
    simp only [stance, Prod.mk.injEq] at hstance
    refine ⟨v, hv, hstance.1 ▸ hw.ready, ?_, hw.budget⟩
    rw [taskCanRunOnCpu, ← hstance.2.2]
    exact hw.allowed
  refine hQ next _ ?_
  cases next with
  | none =>
    refine ⟨hrange, hu.ids.trans hids', ?_, hu.now.trans hnow, hchosen, fun id => ?_⟩
    · exact congrArg (List.set · cpu none) (hu.current.trans hcurrent)
    · refine (hu.task id).trans ((htask id).trans ?_)
      rfl
  | some next =>
    have hrun : dispatch cpu (some next) u =
        (u.setCurrent cpu (some next)).modifyTask next (SchedulerTask.run cpu u.nowNs) := rfl
    rw [hrun]
    refine ⟨hrange, ?_, ?_, hu.now.trans hnow, hchosen, fun id => ?_⟩
    · exact (ids_modifyTask _ next (SchedulerTask.run cpu u.nowNs) fun _ => rfl).trans
        (hu.ids.trans hids')
    · exact congrArg (List.set · cpu (some next)) (hu.current.trans hcurrent)
    · rw [task_modifyTask _ next id (SchedulerTask.run cpu u.nowNs) fun _ => rfl]
      have hsame : (setCurrent cpu (some next) u).task id = (s.task id).map (replenish s.nowNs) :=
        (hu.task id).trans (htask id)
      rw [hsame, hu.now.trans hnow]
      by_cases hid : id = next
      · simp only [hid, if_true, Option.map_map]
        rfl
      · simp only [if_neg hid, if_neg fun h : some next = some id => hid (Option.some.inj h).symm]

end Choosing

/-! ### Keeping a scheduler sound -/

section Soundness

variable {K : Special → Prop} {t u : Scheduler} {next : Option ℕ} {cpu : ℕ}

/-- A CPU was given to `next`, however it was chosen. -/
structure Handed (K : Special → Prop) (cpu : ℕ) (next : Option ℕ) (s t : Scheduler) : Prop where
  range : cpu < s.currentTaskIds.length
  current : t.currentTaskIds = s.currentTaskIds.set cpu next
  now : t.nowNs = s.nowNs
  chosen : ∀ id ∈ next, ∃ u, s.task id = some u ∧ u.state = .ready ∧ taskCanRunOnCpu u cpu
  each : Each (Changes K s.nowNs) s t
  stance : ∀ id, (t.task id).map stance = (s.task id).map fun u =>
    if next = some id then (.running, u.blockReason, u.cpuAffinityMask) else u.stance

theorem Dispatched.handed (h : Dispatched cpu next s t) : Handed K cpu next s t := by
  refine ⟨h.range, h.current, h.now, fun id hid => ?_, ⟨h.ids, fun id => ?_⟩, fun id => ?_⟩
  · obtain ⟨u, hu, hready, hcpu, -⟩ := h.chosen id hid
    exact ⟨u, hu, hready, hcpu⟩
  · rw [h.task]
    refine rel_map fun u hu => ?_
    have hrefill : Changes K s.nowNs u (replenish s.nowNs u) := .single (.refill u)
    split
    · rename_i hnext
      obtain ⟨v, hv, hready, -, hbudget⟩ := h.chosen id hnext
      rw [hu, some_inj] at hv
      subst hv
      have hstance := (origin_replenish s.nowNs u).2
      simp only [SchedulerTask.stance, Prod.mk.injEq] at hstance
      exact hrefill.tail (.dispatch _ cpu (hstance.1.trans hready) hbudget)
    · exact hrefill
  · rw [h.task, Option.map_map]
    refine congrArg (Option.map · _) (funext fun u => ?_)
    have hstance := (origin_replenish s.nowNs u).2
    simp only [SchedulerTask.stance, Prod.mk.injEq] at hstance
    simp only [Function.comp_apply]
    split
    · simp [SchedulerTask.stance, SchedulerTask.run, hstance.2]
    · exact (origin_replenish s.nowNs u).2

/-- The task that `next` names runs. -/
theorem Handed.picks (h : Handed K cpu next s t) : ∀ id ∈ next, t.RunningOn cpu id := by
  intro id hid
  obtain ⟨u, hu, -, hcpu⟩ := h.chosen id hid
  have hstance := h.stance id
  rw [hu, map_some, if_pos (Option.mem_def.mp hid)] at hstance
  obtain ⟨v, hv, hsame⟩ := map_eq_some_iff.mp hstance
  exact exists_of_stance (w := { u with state := .running }) hv hsame rfl hcpu

variable {id : ℕ}

theorem runs_setCurrent {cpu'} (h : (s.setCurrent cpu next).Runs cpu' id) :
    cpu' = cpu ∧ next = some id ∨ cpu' ≠ cpu ∧ s.Runs cpu' id := by
  unfold Runs setCurrent at h
  simp only at h
  exact of_getElem?_set h

theorem runs_setCurrent_of_ne {cpu'} (hne : cpu' ≠ cpu) (h : s.Runs cpu' id) :
    (s.setCurrent cpu next).Runs cpu' id := by
  unfold Runs setCurrent
  simp only
  rw [List.getElem?_set_ne (Ne.symm hne)]
  exact h

/-- The task a CPU runs. -/
theorem Sound.state_of_runs (hs : s.Sound) (hrun : s.Runs cpu id) {u} (hu : s.task id = some u) :
    u.state = .running := by
  obtain ⟨v, hv, hrunning, -⟩ := hs.running cpu id hrun
  rw [hu, some_inj] at hv
  exact hv ▸ hrunning

/-- A task that is not running is not on a CPU. -/
theorem Sound.not_runs (hs : s.Sound) {u} (hu : s.task id = some u) (hstate : u.state ≠ .running)
    (cpu : ℕ) : ¬ s.Runs cpu id :=
  fun hrun => hstate (hs.state_of_runs hrun hu)

/-- A CPU that runs nothing, or whose entry was just emptied. -/
theorem setCurrent_idle (hidle : ∀ id, ¬ s.Runs cpu id) : s.setCurrent cpu none = s := by
  unfold setCurrent
  have hset : s.currentTaskIds.set cpu none = s.currentTaskIds := by
    refine List.ext_getElem? fun i => ?_
    rw [List.getElem?_set]
    split
    · rename_i hi
      subst hi
      split
      · rename_i hlen
        have hget := List.getElem?_eq_getElem hlen
        cases hentry : s.currentTaskIds[cpu] with
        | none => rw [hget, hentry]
        | some id => exact absurd (hget.trans (congrArg some hentry)) (hidle id)
      · rename_i hlen
        rw [List.getElem?_eq_none (Nat.not_lt.mp hlen)]
    · rfl
  rw [hset]

/-- CPUs are only taken away, and exactly the tasks that keep theirs go on running. -/
theorem Sound.shrink (hs : s.Sound) (hids : t.ids = s.ids)
    (hruns : ∀ cpu id, t.Runs cpu id → s.Runs cpu id ∧ t.RunningOn cpu id)
    (hoccupied : ∀ id v, t.task id = some v → v.state = .running → ∃ cpu, t.Runs cpu id)
    (hok : ∀ id v, t.task id = some v → v.Ok) : t.Sound where
  ids := hids ▸ hs.ids
  running cpu id hrun := (hruns cpu id hrun).2
  apart cpu cpu' id hrun hrun' := hs.apart cpu cpu' id (hruns cpu id hrun).1 (hruns cpu' id hrun').1
  occupied := hoccupied
  ok := hok

/-- Giving an idle CPU to a ready task. -/
theorem Handed.sound (h : Handed K cpu next s t) (hs : (s.setCurrent cpu none).Sound) :
    t.Sound := by
  -- a task other than the one chosen stands as before
  have hother : ∀ id v, t.task id = some v → next ≠ some id →
      ∃ u, s.task id = some u ∧ v.stance = u.stance := by
    intro id v hv hne
    obtain ⟨u, hu, hsame⟩ := exists_of_map_eq (h.stance id) hv
    rw [if_neg hne] at hsame
    exact ⟨u, hu, hsame.symm⟩
  have hkept : ∀ id u, s.task id = some u → next ≠ some id →
      ∃ v, t.task id = some v ∧ v.stance = u.stance := by
    intro id u hu hne
    have hstance := h.stance id
    rw [hu, map_some, if_neg hne] at hstance
    exact map_eq_some_iff.mp hstance
  have hcurrent : ∀ cpu' id, t.Runs cpu' id ↔ (s.setCurrent cpu next).Runs cpu' id := by
    intro cpu' id
    exact Eq.congr_left (congrArg (·[cpu']?) h.current)
  have hruns : ∀ cpu' id, t.Runs cpu' id → cpu' = cpu ∧ next = some id ∨
      (s.setCurrent cpu none).Runs cpu' id := by
    intro cpu' id hrun
    rcases runs_setCurrent ((hcurrent cpu' id).mp hrun) with hnew | ⟨hne, hold⟩
    · exact .inl hnew
    · exact .inr (runs_setCurrent_of_ne hne hold)
  have hfresh : ∀ cpu' id, next = some id → ¬ (s.setCurrent cpu none).Runs cpu' id := by
    intro cpu' id hnext
    obtain ⟨u, hu, hready, -⟩ := h.chosen id hnext
    exact hs.not_runs hu (by rw [hready]; decide) cpu'
  refine ⟨h.each.1 ▸ hs.ids, fun cpu' id hrun => ?_, fun c₁ c₂ id h₁ h₂ => ?_,
    fun id v hv hrunning => ?_, fun id v hv => ?_⟩
  · rcases hruns cpu' id hrun with ⟨rfl, hnext⟩ | hold
    · exact h.picks id hnext
    · obtain ⟨u, hu, hrunning, hcpu⟩ := hs.running cpu' id hold
      obtain ⟨v, hv, hsame⟩ := hkept id u hu fun hnext => hfresh cpu' id hnext hold
      exact exists_of_stance hv hsame hrunning hcpu
  · rcases hruns c₁ id h₁ with ⟨rfl, hnext⟩ | hold₁
    · rcases hruns c₂ id h₂ with ⟨rfl, -⟩ | hold₂
      · rfl
      · exact absurd hold₂ (hfresh c₂ id hnext)
    · rcases hruns c₂ id h₂ with ⟨-, hnext⟩ | hold₂
      · exact absurd hold₁ (hfresh c₁ id hnext)
      · exact hs.apart c₁ c₂ id hold₁ hold₂
  · by_cases hnext : next = some id
    · refine ⟨cpu, (hcurrent cpu id).mpr ?_⟩
      unfold Runs setCurrent
      simp only
      rw [List.getElem?_set_self h.range, hnext]
    · obtain ⟨u, hu, hsame⟩ := hother id v hv hnext
      simp only [SchedulerTask.stance, Prod.mk.injEq] at hsame
      obtain ⟨cpu', hcpu'⟩ := hs.occupied id u hu (hsame.1 ▸ hrunning)
      refine ⟨cpu', (hcurrent cpu' id).mpr ?_⟩
      rcases runs_setCurrent hcpu' with ⟨-, hnone⟩ | ⟨hne, hold⟩
      · cases hnone
      · exact runs_setCurrent_of_ne hne hold
  · by_cases hnext : next = some id
    · obtain ⟨u, hu, hready, -⟩ := h.chosen id hnext
      have hstance := h.stance id
      rw [hu, hv, map_some, map_some, if_pos hnext, some_inj] at hstance
      simp only [SchedulerTask.stance, Prod.mk.injEq] at hstance
      refine ⟨fun hwait => ?_, fun hblocked => ?_⟩
      · have hwaits := (hs.ok id u hu).waits (hstance.2.1 ▸ hwait)
        rw [hready] at hwaits
        simp [TaskState.held] at hwaits
      · rw [hstance.1] at hblocked
        cases hblocked
    · obtain ⟨u, hu, hsame⟩ := hother id v hv hnext
      exact (hs.ok id u hu).of_stance hsame

theorem Handed.tracks (h : Handed K cpu next s t) (hs : (s.setCurrent cpu none).Sound) :
    Tracks K s t :=
  ⟨h.sound hs, h.now, h.each⟩

/-- A change of one task that keeps it on its CPU, or off all of them. -/
theorem Sound.modifyTask (hs : s.Sound) (id : ℕ) (f : SchedulerTask → SchedulerTask)
    (hf : ∀ u, (f u).id = u.id)
    (hok : ∀ u, s.task id = some u → (f u).Ok ∧
      ((f u).state = .running ↔ u.state = .running) ∧ (f u).cpuAffinityMask = u.cpuAffinityMask) :
    (s.modifyTask id f).Sound := by
  have htask := fun j => task_modifyTask s id j f hf
  refine hs.shrink (ids_modifyTask s id f hf) (fun cpu j hrun => ⟨hrun, ?_⟩)
    (fun j v hv hrunning => ?_) fun j v hv => ?_
  · obtain ⟨u, hu, hrunning, hcpu⟩ := hs.running cpu j hrun
    rw [RunningOn, htask]
    split
    · rename_i hj
      obtain ⟨-, hstate, hmask⟩ := hok u (hj ▸ hu)
      refine ⟨f u, by rw [hu, map_some], hstate.mpr hrunning, ?_⟩
      rw [taskCanRunOnCpu, hmask]
      exact hcpu
    · exact ⟨u, hu, hrunning, hcpu⟩
  · rcases of_task_modifyTask hf hv with ⟨u, rfl, hu, rfl⟩ | ⟨-, hv⟩
    · exact hs.occupied j u hu ((hok u hu).2.1.mp hrunning)
    · exact hs.occupied j v hv hrunning
  · rcases of_task_modifyTask hf hv with ⟨u, rfl, hu, rfl⟩ | ⟨-, hv⟩
    · exact (hok u hu).1
    · exact hs.ok j v hv

/-- The task that a CPU runs leaves it. -/
theorem Sound.leave (hs : s.Sound) (hrun : s.Runs cpu id) (f : SchedulerTask → SchedulerTask)
    (hf : ∀ u, (f u).id = u.id)
    (hok : ∀ u, s.task id = some u → (f u).Ok ∧ (f u).state ≠ .running) :
    ((s.modifyTask id f).setCurrent cpu none).Sound := by
  have htask : ∀ j, ((s.modifyTask id f).setCurrent cpu none).task j = _ :=
    fun j => task_modifyTask s id j f hf
  refine hs.shrink (ids_modifyTask s id f hf) (fun cpu' j hrun' => ?_)
    (fun j v hv hrunning => ?_) fun j v hv => ?_
  · rcases runs_setCurrent hrun' with ⟨-, hnone⟩ | ⟨hne, hold⟩
    · cases hnone
    have hold : s.Runs cpu' j := hold
    have hj : j ≠ id := by
      rintro rfl
      exact hne (hs.apart cpu' cpu j hold hrun)
    refine ⟨hold, ?_⟩
    rw [RunningOn, htask, if_neg hj]
    exact hs.running cpu' j hold
  · rcases of_task_modifyTask hf hv with ⟨u, rfl, hu, rfl⟩ | ⟨hj, hv⟩
    · exact absurd hrunning (hok u hu).2
    · obtain ⟨cpu', hcpu'⟩ := hs.occupied j v hv hrunning
      refine ⟨cpu', runs_setCurrent_of_ne ?_ hcpu'⟩
      rintro rfl
      exact hj (Option.some.inj (Option.some.inj (hcpu'.symm.trans hrun)))
  · rcases of_task_modifyTask hf hv with ⟨u, rfl, hu, rfl⟩ | ⟨-, hv⟩
    · exact (hok u hu).1
    · exact hs.ok j v hv

end Soundness

end Scheduler

end Bexos
