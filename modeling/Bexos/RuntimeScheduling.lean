/-
The runtime and its scheduler.

The runtime keeps one task of the scheduler for each thread and changes the scheduler only by
the scheduler's own operations.  A `Drivable` relation that leaves the other parts of the state
free is one that every operation of the runtime moves along (`moves_exec`).

* `Drives` — for the scheduler, an operation of the runtime is a run of its own operations; so
  the scheduler of a runtime is one that a run of the scheduler reaches (`Reaches.scheduled`),
  and all that is known of such schedulers is known of it;
* `Settled` — the task of a thread that has exited has exited (`Reaches.settled`), and no CPU
  runs it (`runs_live_thread`).

Design notes: the runtime never calls `cleanup_exited`, so a task that has exited stays in the
table.  A thread can be without a task, when `add_task` fails after the thread was recorded.
-/
import Bexos.SlotFrames
import Bexos.SchedulerCounts
import Bexos.RuntimeOps

namespace Bexos

open Prog

namespace Runtime

variable {B : Type}

/-- The parts of the state other than the scheduler and the life of the threads. -/
abbrev offThreads : List Part :=
  [.handover, .dirty, .reclaim, .backend, .layout, .life, .space, .population, .jobs, .current,
    .threadRun, .threadContext, .vmos, .regions, .vmarRefs, .handles, .channels, .sockets,
    .profiles, .pins, .iommuDomains, .dmaMappings, .interrupts, .counters]

section Operations

variable [Backend B] {R : Runtime B → Runtime B → Prop} [Std.Refl R] [IsTrans (Runtime B) R]
  [Covers R offThreads] [Drivable R]

set_option synthInstance.maxSize 100000 in
/-- Every operation of the runtime moves along a relation that its calls of the scheduler, and
its beginnings and ends of threads, move along. -/
theorem moves_exec (op : Op B) : Moves R (exec op) := by
  cases op
  all_goals
    unfold exec
    infer_instance

end Operations

/-! ### The scheduler on its own -/

/-- The scheduler of a state is what a run of its operations makes of another state's. -/
def Drives (s t : Runtime B) : Prop :=
  Steps Scheduler.step (fun _ op => op ≠ .cleanupExited) s.scheduler t.scheduler

instance : Std.Refl (Drives (B := B)) := ⟨fun _ => .refl⟩

instance : IsTrans (Runtime B) Drives := ⟨fun _ _ _ h₁ h₂ => h₁.trans h₂⟩

variable {s t : Runtime B} {i : ℕ}

theorem drives_of_same (h : t.scheduler = s.scheduler) : Drives s t := by
  unfold Drives
  rw [h]
  exact .refl

instance : Covers (B := B) Drives offThreads where
  le _ _ h := drives_of_same (h .scheduler (by decide))

instance (g : Runtime B → List Thread) :
    Moves Drives (modify fun s => { s with threads := g s } : RtM B Unit) :=
  .modify fun _ => drives_of_same rfl

instance (id) (f : Thread → Thread) : Moves Drives (modify (modifyThread id f) : RtM B Unit) :=
  .modify fun _ => drives_of_same rfl

variable {op : SchedOp}

/-- A call of the scheduler is one operation. -/
theorem drives_zoom {α : Type} {x} (hop : op ≠ .cleanupExited)
    (hx : ∀ s, (x s).state? = Scheduler.step op s) :
    Moves Drives (zoom scheduler (fun t s => { s with scheduler := t }) x :
      Prog (Runtime B) SchedulerError α) := by
  refine ⟨fun s => (wp_zoom _ _ _).mpr (wp_of_state fun t ht => ?_)⟩
  exact Steps.refl.tail hop ((hx _).symm.trans ht)

theorem ne_cleanupExited (hop : op.steady = true) : op ≠ .cleanupExited := by
  rintro rfl
  cases hop

instance {α : Type} (x) [hx : SchedCall x] :
    Moves Drives (zoom scheduler (fun t s => { s with scheduler := t }) x :
      Prog (Runtime B) SchedulerError α) := by
  obtain ⟨op, hop, hstep⟩ := hx.op
  exact drives_zoom (ne_cleanupExited hop) hstep

instance : Calls (B := B) Drives where
  sched x _ := by
    unfold sched
    infer_instance
  status x _ := by
    unfold schedOrStatus
    infer_instance
  account f hf := by
    obtain ⟨op, hop, hstep⟩ := hf.op
    exact .modify fun s => Steps.refl.tail (ne_cleanupExited hop) (hstep _).symm

/-- The task of a new thread is one that `add_task` makes. -/
theorem step_addTask {id process group task} (htask : newTask id process group = .ok task)
    (s : Scheduler) :
    (Scheduler.addTask task s).state? = Scheduler.step
      (.addTask (id + 1) (process + 1) group 1 (ascii "runtime") 1) s := by
  unfold newTask at htask
  show _ = (Prog.bind (lift (SchedulerTask.new (id + 1) (process + 1) group 1 (ascii "runtime")))
    (fun task => Scheduler.addTask { task with cpuAffinityMask := 1 }) s).state?
  cases hnew : SchedulerTask.new (id + 1) (process + 1) group 1 (ascii "runtime") with
  | error e => rw [hnew] at htask; cases htask
  | ok u => rw [hnew] at htask; cases htask; rfl

section Drives

variable [Backend B]

set_option synthInstance.maxSize 100000 in
theorem drives_addThread (process context) :
    Moves Drives (addThreadToProcess process context : RtM B ℕ) := by
  unfold addThreadToProcess
  refine .next fun s => .next fun _ => .next fun _ => .next fun p => ⟨fun t => ?_⟩
  rw [wp_bind, wp_some?]
  refine ⟨fun task htask => ?_, fun _ => .refl⟩
  have hadd : Moves Drives (zoom scheduler (fun t s => { s with scheduler := t })
      (Scheduler.addTask task) : Prog (Runtime B) SchedulerError Unit) :=
    drives_zoom (by exact nofun) (step_addTask (ok_of_toOption htask))
  have hrest : Moves Drives (do
      mapErr (fun _ => .errNoMemory)
        (zoom scheduler (fun t s => { s with scheduler := t }) (Scheduler.addTask task))
      when (s.threads.length = 0) (adoptFirstThread s.threads.length process)
      changed .process process
      changed .thread s.threads.length
      return s.threads.length : RtM B ℕ) := inferInstance
  exact hrest.run t

set_option synthInstance.maxSize 100000 in
instance : Drivable (B := B) Drives where
  addThread := drives_addThread
  endThread i t exitCode := by
    unfold endThread
    infer_instance
  exitThread exitCode := by
    unfold exitThread
    infer_instance

omit [Backend B] in
/-- A new runtime has a new scheduler. -/
theorem scheduler_withCpuCount (backend : B) (cpuCount : ℕ) (support : AsidSupport) :
    ∃ maxCpus, Scheduler.withCpuCount maxCpus =
      .ok (withCpuCount backend cpuCount support).scheduler := by
  unfold withCpuCount
  cases h : Scheduler.withCpuCount cpuCount with
  | ok scheduler => exact ⟨cpuCount, h⟩
  | error e => exact ⟨1, rfl⟩

/-- The scheduler of a runtime is one that its own operations lead to. -/
theorem Reaches.scheduled {C : Runtime B → Op B → Prop} (h : Reaches C s) :
    Scheduler.Reaches (fun _ op => op ≠ .cleanupExited) s.scheduler := by
  refine h.invariant
    (I := fun s => Scheduler.Reaches (fun _ op => op ≠ .cleanupExited) s.scheduler)
    (fun backend cpuCount support => ?_) fun s op hs _ => ?_
  · obtain ⟨maxCpus, hnew⟩ := scheduler_withCpuCount backend cpuCount support
    exact ⟨maxCpus, _, hnew, .refl⟩
  · have hgoes : ∀ t, Drives s t →
        Scheduler.Reaches (fun _ op => op ≠ .cleanupExited) t.scheduler := by
      obtain ⟨maxCpus, start, hnew, hsteps⟩ := hs
      exact fun t ht => ⟨maxCpus, start, hnew, hsteps.trans ht⟩
    exact wp_mono ((moves_exec (R := Drives) op).run s) (fun _ t ht => hgoes t ht) fun _ t ht =>
      hgoes t ht

end Drives

theorem exists_started : ∃ s : Runtime TestBackend, Reaches (fun _ _ => True) s ∧
    s.scheduler.currentTaskIds[0]? = some (some 1) :=
  TestBackend.exists_reaches_of_run _ _ TestBackend.twoProcesses (by decide +kernel)

theorem scheduled_started : ∃ s : Runtime TestBackend, s.scheduler.Runs 0 1 ∧
    Scheduler.Reaches (fun _ op => op ≠ .cleanupExited) s.scheduler :=
  exists_started.imp fun _ hs => ⟨hs.2, hs.1.scheduled⟩

/-! ### Threads and their tasks -/

/-- The scheduler is sound, its tasks are those of threads, and the task of a thread that has
exited has exited. -/
structure Settled (s : Runtime B) : Prop where
  sound : s.scheduler.Sound
  known : ∀ id u, s.scheduler.task id = some u → 0 < id ∧ id ≤ s.threads.length
  exited : ∀ (i : ℕ) (t : Thread), s.threads[i]? = some t → t.exited = true →
    ∀ u, s.scheduler.task (i + 1) = some u → u.state = .exited

/-- What an operation that adds no task does to the scheduler. -/
theorem Settled.of_each (hs : s.Settled) (hsound : t.scheduler.Sound)
    (heach : Scheduler.Each Scheduler.StaysExited s.scheduler t.scheduler)
    (hlen : s.threads.length ≤ t.threads.length)
    (hthreads : ∀ (i : ℕ) (th : Thread), t.threads[i]? = some th → th.exited = true →
      (∃ th', s.threads[i]? = some th' ∧ th'.exited = true) ∨
      ∀ u, t.scheduler.task (i + 1) = some u → u.state = .exited) : t.Settled := by
  refine ⟨hsound, fun id v hv => ?_, fun i th hth hexited v hv => ?_⟩
  · obtain ⟨u, hu, -⟩ := Scheduler.exists_of_rel' (heach.2 id) hv
    exact (hs.known id u hu).imp_right fun h => h.trans hlen
  · rcases hthreads i th hth hexited with ⟨th', hth', hexited'⟩ | hgone
    · obtain ⟨u, hu, hstays⟩ := Scheduler.exists_of_rel' (heach.2 (i + 1)) hv
      exact hstays (hs.exited i th' hth' hexited' u hu)
    · exact hgone v hv

/-- The threads live as before. -/
theorem exited_of_life {as bs : List Thread} (h : as.map Thread.life = bs.map Thread.life)
    {th : Thread} (hth : as[i]? = some th) (hexited : th.exited = true) :
    ∃ th', bs[i]? = some th' ∧ th'.exited = true := by
  obtain ⟨th', hth', heq⟩ := exists_of_map_eq (getElem?_of_map_eq h i) hth
  exact ⟨th', hth', (congrArg Prod.snd heq).trans hexited⟩

theorem Settled.of_life (hs : s.Settled) (hsound : t.scheduler.Sound)
    (heach : Scheduler.Each Scheduler.StaysExited s.scheduler t.scheduler)
    (h : t.threads.map Thread.life = s.threads.map Thread.life) : t.Settled :=
  hs.of_each hsound heach (by simpa using (congrArg List.length h).ge)
    fun _ _ hth hexited => .inl (exited_of_life h hth hexited)

instance : Covers (B := B) (Keeps Settled) offThreads where
  le s t h hs := by
    have hsame : t.scheduler = s.scheduler := h .scheduler (by decide)
    exact hs.of_life (hsame ▸ hs.sound) (hsame ▸ .refl _) (h .threadLife (by decide))

theorem settled_zoom {α : Type} (x) [hx : SchedCall x] :
    Moves (Keeps Settled) (zoom scheduler (fun t s => { s with scheduler := t }) x :
      Prog (Runtime B) SchedulerError α) := by
  obtain ⟨op, hop, hstep⟩ := hx.op
  refine .of_keeps fun s hs => (wp_zoom _ _ _).mpr (wp_of_state fun t ht => ?_)
  obtain ⟨hsound, heach⟩ := of_state
    (P := fun t => t.Sound ∧ Scheduler.Each Scheduler.StaysExited s.scheduler t)
    (Scheduler.wp_exec_steady hs.sound hop) ((hstep _).symm.trans ht)
  exact hs.of_life hsound heach rfl

instance : Calls (B := B) (Keeps Settled) where
  sched x _ := by
    have := settled_zoom (B := B) x
    unfold sched
    infer_instance
  status x _ := by
    have := settled_zoom (B := B) x
    unfold schedOrStatus
    infer_instance
  account f hf := by
    obtain ⟨op, hop, hstep⟩ := hf.op
    refine .modify fun s hs => ?_
    obtain ⟨hsound, heach⟩ := of_state
      (P := fun t => t.Sound ∧ Scheduler.Each Scheduler.StaysExited s.scheduler t)
      (Scheduler.wp_exec_steady hs.sound hop) (hstep _).symm
    exact hs.of_life hsound heach rfl

/-- A thread was marked as exited, and its task has yet to follow. -/
structure Ending (i : ℕ) (s t : Runtime B) : Prop where
  scheduler : t.scheduler = s.scheduler
  life : t.threads.map Thread.life =
    (s.threads.modify i fun th => { th with exited := true }).map Thread.life

theorem Ending.of_touches {u} (h : Ending i s t) (hu : Touches offThreads t u) : Ending i s u :=
  ⟨(hu .scheduler (by decide)).trans h.scheduler, (hu .threadLife (by decide)).trans h.life⟩

/-- The task follows. -/
theorem Ending.wp_exitTask (h : Ending i s t) (hs : s.Settled) (exitCode) :
    ends (sched (Scheduler.exitTask (i + 1) exitCode)) Settled
      t := by
  have hsettled : ∀ b : Scheduler, (b.Sound ∧ Scheduler.Each Scheduler.StaysExited t.scheduler b) ∧
      (∀ u, b.task (i + 1) = some u → u.state = .exited) →
      ({ t with scheduler := b } : Runtime B).Settled := by
    rintro b ⟨⟨hsound, heach⟩, hgone⟩
    rw [h.scheduler] at heach
    refine hs.of_each hsound heach ?_ fun j th hth hexited => ?_
    · have hlen := congrArg List.length h.life
      simp only [List.length_map, List.length_modify] at hlen
      exact hlen.ge
    by_cases hj : i = j
    · exact .inr (hj ▸ hgone)
    · have hbefore := exited_of_life h.life hth hexited
      rw [List.getElem?_modify_ne _ _ hj] at hbefore
      exact .inl hbefore
  have hsound : t.scheduler.Sound := h.scheduler ▸ hs.sound
  unfold ends sched
  rw [wp_attempt, wp_zoom]
  have hop : (SchedOp.exitTask (i + 1) exitCode).steady = true := rfl
  exact wp_mono (wp_and (Scheduler.wp_exec_steady hsound hop)
    (Scheduler.wp_exitTask hsound (i + 1) exitCode)) (fun _ b hb => hsettled b hb)
    fun _ b hb => hsettled b hb

theorem ending_modifyThread (i : ℕ) (f : Thread → Thread) (s : Runtime B)
    (hf : ∀ th, (f th).life = (th.process, true)) : Ending i s (modifyThread i f s) := by
  refine ⟨rfl, List.ext_getElem? fun j => ?_⟩
  show ((s.threads.modify i f).map Thread.life)[j]? = _
  rw [List.getElem?_map, List.getElem?_map, List.getElem?_modify, List.getElem?_modify]
  cases s.threads[j]? with
  | none => rfl
  | some th =>
    by_cases hj : i = j
    · simp only [hj, if_true, Option.map_eq_map, Option.map_some, hf]
      rfl
    · simp [hj]

section Settled

variable [Backend B]

theorem settled_endThread (i t exitCode) :
    Moves (Keeps Settled) (endThread i t exitCode : RtM B Unit) := by
  refine .of_keeps fun s hs => ?_
  unfold ends endThread
  rw [wp_bind, wp_modify, wp_bind]
  refine wp_of_total (R := Touches offThreads) fun _ u hu => ?_
  have hending := (ending_modifyThread i _ s fun _ => rfl).of_touches hu
  rw [wp_bind]
  exact wp_mono (hending.wp_exitTask hs _) (fun _ v hv => Moves.keep inferInstance hv)

theorem settled_exitThread (exitCode) :
    Moves (Keeps Settled) (exitThread exitCode : RtM B Unit) := by
  refine .of_keeps fun s hs => ?_
  unfold ends exitThread
  rw [wp_bind, wp_get, wp_bind, wp_modify, wp_bind]
  refine wp_of_total (R := Touches offThreads) fun _ u hu => ?_
  have hending := (ending_modifyThread s.currentThread _ s fun _ => rfl).of_touches hu
  rw [wp_bind]
  exact wp_mono (hending.wp_exitTask hs _) (fun _ v hv => Moves.keep inferInstance hv)

omit [Backend B] in
/-- What the task of a new thread is like. -/
theorem fresh_of_newTask {id process group task} (h : newTask id process group = .ok task) :
    Scheduler.Fresh task ∧ task.id = id + 1 := by
  unfold newTask at h
  cases hnew : SchedulerTask.new (id + 1) (process + 1) group 1 (ascii "runtime") with
  | error e => rw [hnew] at h; cases h
  | ok u =>
    rw [hnew] at h
    cases h
    have hfresh := Scheduler.fresh_of_new hnew
    refine ⟨⟨hfresh.ready, hfresh.waits, hfresh.deadline⟩, ?_⟩
    unfold SchedulerTask.new at hnew
    split at hnew
    · cases hnew
    · cases hnew
      rfl

omit [Backend B] in
/-- A new thread has not exited. -/
theorem exited_append {threads : List Thread} {new : Thread} (hnew : new.exited = false) {i : ℕ}
    {th : Thread} (hth : (threads ++ [new])[i]? = some th) (hexited : th.exited = true) :
    i < threads.length ∧ threads[i]? = some th := by
  rcases of_getElem?_concat hth with ⟨-, rfl⟩ | hth
  · rw [hnew] at hexited
    cases hexited
  · exact ⟨(getElem?_eq_some_iff.mp hth).1, hth⟩

/-- A new thread comes with its task, or without one. -/
theorem settled_addThread (process context) :
    Moves (Keeps Settled) (addThreadToProcess process context : RtM B ℕ) := by
  refine .of_keeps fun s hs => ?_
  unfold addThreadToProcess
  simp only [wp_bind, wp_get, wp_check, wp_modify, wp_unwrap, wp_some?, wp_mapErr, wp_zoom]
  refine ⟨fun _ p _ => ?_, fun _ => hs⟩
  generalize hnew : (⟨process, context, true, false, none, false, 0, none⟩ : Thread) = new
  have hlive : new.exited = false := by rw [← hnew]
  have hrecorded : ({ s with threads := s.threads ++ [new] } : Runtime B).Settled := by
    refine hs.of_each hs.sound (.refl _) (by simp) fun i th hth hexited => .inl ⟨th, ?_, hexited⟩
    exact (exited_append hlive hth hexited).2
  refine ⟨fun task htask => ?_, fun _ => hrecorded⟩
  obtain ⟨hfresh, hid⟩ := fresh_of_newTask (ok_of_toOption htask)
  refine Scheduler.wp_addTask (K := fun _ => True) hs.sound hfresh.ok hfresh.idle
    (fun b mask hsound _ hadded => ?_) fun e b hb => ?_
  · have hadd : ({ s with threads := s.threads ++ [new], scheduler := b } : Runtime B).Settled := by
      refine ⟨hsound, fun id v hv => ?_, fun i th hth hexited v hv => ?_⟩
      · obtain ⟨u, hu, -⟩ := Scheduler.exists_of_rel' (hadded.each id) hv
        show 0 < id ∧ id ≤ (s.threads ++ [new]).length
        rw [List.length_append, List.length_singleton]
        split at hu
        · -- the task of the new thread
          rename_i hnewId
          rw [hnewId.trans hid]
          exact ⟨Nat.succ_pos _, le_rfl⟩
        · exact (hs.known id u hu).imp_right fun h => h.trans (Nat.le_succ _)
      · obtain ⟨hi, hth⟩ := exited_append hlive hth hexited
        obtain ⟨u, hu, hchanges⟩ := Scheduler.exists_of_rel' (hadded.each (i + 1)) hv
        rw [if_neg (show i + 1 ≠ task.id by omega)] at hu
        exact Scheduler.exited_of_changes hchanges (hs.exited i th hth hexited u hu)
    exact wp_mono (Moves.keep inferInstance hadd) fun _ v hv => Moves.keep inferInstance hv
  · exact hrecorded.of_life hb.sound hb.staysExited rfl

instance : Drivable (B := B) (Keeps Settled) where
  addThread := settled_addThread
  endThread := settled_endThread
  exitThread := settled_exitThread

omit [Backend B] in
theorem settled_new (backend : B) (cpuCount : ℕ) (support : AsidSupport) :
    (withCpuCount backend cpuCount support).Settled := by
  obtain ⟨maxCpus, hnew⟩ := scheduler_withCpuCount backend cpuCount support
  obtain ⟨htasks, -, -⟩ := Scheduler.tasks_of_withCpuCount hnew
  have hnone : ∀ id, (withCpuCount backend cpuCount support).scheduler.task id = none := fun id => by
    rw [Scheduler.task, htasks]
    rfl
  refine ⟨Scheduler.sound_of_withCpuCount hnew, fun id u hu => ?_, fun i th _ _ u hu => ?_⟩
  · rw [hnone] at hu
    cases hu
  · rw [hnone] at hu
    cases hu

/-- The task of a thread that has exited has exited. -/
theorem Reaches.settled {C : Runtime B → Op B → Prop} (h : Reaches C s) : s.Settled :=
  h.invariant settled_new fun _ op hs _ => Moves.keep (moves_exec op) hs

/-- **A CPU runs no thread that has exited**, in any state that a runtime reaches: the task it
runs is that of a live thread. -/
theorem runs_live_thread {C : Runtime B → Op B → Prop} (h : Reaches C s) {cpu id : ℕ}
    (hruns : s.scheduler.Runs cpu id) :
    ∃ i t, id = i + 1 ∧ s.threads[i]? = some t ∧ t.exited = false := by
  obtain ⟨hsound, hknown, hexited⟩ := h.settled
  obtain ⟨u, hu, hrunning, -⟩ := hsound.running cpu _ hruns
  obtain ⟨hpos, hlast⟩ := hknown _ u hu
  obtain ⟨i, rfl⟩ := Nat.exists_eq_add_one.mpr hpos
  have hthread : s.threads[i]? = some _ := List.getElem?_eq_getElem hlast
  refine ⟨i, _, rfl, hthread, Bool.eq_false_iff.mpr fun hdone => ?_⟩
  rw [hexited i _ hthread hdone u hu] at hrunning
  cases hrunning

end Settled

theorem live_thread_runs : ∃ s : Runtime TestBackend, s.scheduler.Runs 0 1 ∧
    ∃ i t, 1 = i + 1 ∧ s.threads[i]? = some t ∧ t.exited = false :=
  exists_started.imp fun _ hs => ⟨hs.2, runs_live_thread hs.1 hs.2⟩

end Runtime

end Bexos
