/-
What each operation of the scheduler does to its tasks.

One specification for each operation: instances of `Moves (Evolves K)` where the operation
moves a sound scheduler to a sound one at one time, and `wp_*` lemmas where the caller needs
to know more (a tick sets the clock first, a yield may name its successor).

* `Scheduler.wp_tickAtOnCpu`, `Scheduler.wp_yieldCurrentToAtOnCpu` — the clock;
* `Scheduler.tracks_hold`, `Scheduler.tracks_release` — process control;
* `Scheduler.wp_addTask`, `Scheduler.Sound.removeExited` — the table of tasks.
-/
import Bexos.SchedulerTasks

namespace Bexos

open Prog SchedulerTask
open Option (filter_eq_some_iff join_eq_some_iff map_eq_some_iff map_some some_inj)

namespace Scheduler

/-! ### Waking and blocking -/

section Operations

variable {K : Special → Prop} {α ε : Type}
  {s : Scheduler} {cpu : ℕ} {u : SchedulerTask} {held : TaskState} {next : Option ℕ}
  {nowNs : UInt64} {reason : BlockReason} {targetId : Option ℕ}
  {x : Prog Scheduler ε α} {E : SchedulerError → Scheduler → Prop} {t v : Scheduler}
  {id : ℕ} {Q : ScheduleDecision → Scheduler → Prop} {yielded : Option ℕ}
  {fromStates : List TaskState}

theorem evolves_of (h : ∀ s, s.Sound → ends x (Tracks K s) s) :
    Moves (Evolves K) x :=
  .of_pre (R := Tracks K) h

instance (priority := low) evolves_of_calm (x : Prog Scheduler ε α) [h : Moves Calm x] :
    Moves (Evolves K) x :=
  h.mono fun _ _ hcalm => hcalm.evolves

/-- Changing one task. -/
theorem tracks_modifyTask (hs : s.Sound) (id : ℕ) (f : SchedulerTask → SchedulerTask)
    (hf : ∀ u, (f u).id = u.id) (hok : ∀ u, s.task id = some u → u.Ok → (f u).Ok ∧
      ((f u).state = .running ↔ u.state = .running) ∧ (f u).cpuAffinityMask = u.cpuAffinityMask ∧
      Changes K s.nowNs u (f u)) :
    Tracks K s (s.modifyTask id f) := by
  refine ⟨hs.modifyTask id f hf fun u hu => ?_, rfl, each_modifyTask s id f hf fun u hu => ?_⟩
  · obtain ⟨hfok, hstate, hmask, -⟩ := hok u hu (hs.ok id u hu)
    exact ⟨hfok, hstate, hmask⟩
  · exact (hok u hu (hs.ok id u hu)).2.2.2

instance (cpu) : NoFail (nextFairReady cpu) := by
  unfold nextFairReady
  refine .next fun s => .next fun group => ?_
  split
  · infer_instance
  · split <;> infer_instance

instance (cpu) : NoFail (nextReady cpu) := by
  unfold nextReady
  refine .next fun s => ?_
  split <;> infer_instance

instance (cpu) : NoFail (scheduleNextOnCpu cpu) := by
  unfold scheduleNextOnCpu
  infer_instance

instance : NoFail fillIdleCpus := by
  unfold fillIdleCpus
  infer_instance

/-- An idle CPU is given to a task. -/
theorem wp_scheduleIdle (hs : s.Sound) (hidle : ∀ id, ¬ s.Runs cpu id)
    {Q : Option ℕ → Scheduler → Prop}
    (hQ : ∀ next t, Handed K cpu next s t → Tracks K s t → Q next t) :
    wp (scheduleNextOnCpu cpu) Q E s := by
  refine wp_scheduleNextOnCpu hs.ids fun next t ht => hQ next t ht.handed (ht.handed.tracks ?_)
  rw [setCurrent_idle hidle]
  exact hs

instance (cpu) : Moves (Evolves K) (fillIdleCpu cpu) := by
  refine evolves_of fun s hs => ?_
  simp only [fillIdleCpu, wp_bind, wp_get, wp_unwrap, wp_ite, wp_pure]
  intro current hcurrent
  refine ⟨fun hnone => wp_scheduleIdle hs (fun id hrun => ?_) fun _ _ _ ht => (wp_pure _).mpr ht,
    fun _ => hs.tracks⟩
  rw [Runs, hcurrent, some_inj] at hrun
  rw [hrun] at hnone
  cases hnone

theorem id_wake (u) : (wake u).id = u.id := id_of_origin (origin_wake u)

/-- A woken task no longer waits, and does not run for that. -/
theorem wake_ok (hu : u.Ok) : (wake u).Ok ∧ ((wake u).state = .running ↔ u.state = .running) ∧
    (wake u).cpuAffinityMask = u.cpuAffinityMask ∧ (wake u).blockReason = none := by
  have hwaits := hu.waits
  have hblocked := hu.blocked
  obtain ⟨_, _, _, _, _, _, _, _, state, _, _, _, _, _, reason⟩ := u
  cases state with
  | ready | running | exited =>
    have hnone : reason = none := by
      cases reason with
      | none => rfl
      | some r => simp [TaskState.held] at hwaits
    subst hnone
    exact ⟨hu, Iff.rfl, rfl, rfl⟩
  | blocked | suspended | quiesced | stopped =>
    refine ⟨⟨?_, ?_⟩, ?_, rfl, rfl⟩ <;> simp [wake]

theorem tracks_wake (hs : s.Sound) (id) : Tracks K s (s.modifyTask id wake) := by
  refine tracks_modifyTask hs id wake id_wake fun u _ hok => ?_
  obtain ⟨hwoken, hstate, hmask, -⟩ := wake_ok hok
  exact ⟨hwoken, hstate, hmask, .single (.wake u)⟩

instance (id) : Moves (Evolves K) (modify (modifyTask id wake) : Prog Scheduler ε Unit) :=
  evolves_of fun _ hs => (wp_modify _).mpr (tracks_wake hs id)

instance (id : ℕ) : Moves (Evolves K) (wakeTask id) := by
  unfold wakeTask
  infer_instance

/-! ### Giving up a CPU -/

/-- A CPU may be emptied before its successor is chosen. -/
theorem Handed.of_idle (h : Handed K cpu next (v.setCurrent cpu none) t) :
    Handed K cpu next v t := by
  have hrange := h.range
  refine { h with range := ?_, current := h.current.trans (List.set_set _) }
  rw [setCurrent, List.length_set] at hrange
  exact hrange

/-- The task that a CPU runs gives it up, and the CPU gets a successor. -/
theorem Sound.handOff (hs : s.Sound) (hrun : s.Runs cpu id) (f : SchedulerTask → SchedulerTask)
    (hf : ∀ u, (f u).id = u.id) (hok : ∀ u, s.task id = some u → u.Ok → u.state = .running →
      (f u).Ok ∧ (f u).state ≠ .running ∧ Changes K s.nowNs u (f u))
    (hv : Calm (s.modifyTask id f) v) (ht : Handed K cpu next v t) : Tracks K s t := by
  have hchange : ∀ u, s.task id = some u →
      (f u).Ok ∧ (f u).state ≠ .running ∧ Changes K s.nowNs u (f u) := fun u hu =>
    hok u hu (hs.ok id u hu) (hs.state_of_runs hrun hu)
  have hidle : ((s.modifyTask id f).setCurrent cpu none).Sound :=
    hs.leave hrun f hf fun u hu => ⟨(hchange u hu).1, (hchange u hu).2.1⟩
  have hfirst : Each (Changes K s.nowNs) s (s.modifyTask id f) :=
    each_modifyTask s id f hf fun u hu => (hchange u hu).2.2
  have hnow : v.nowNs = s.nowNs := hv.now
  refine ⟨ht.sound (hidle.calm (hv.setCurrent cpu none)), ht.now.trans hnow, hfirst.trans ?_⟩
  have hlast := ht.each
  rw [hnow] at hlast
  refine ⟨hlast.1.trans hv.ids, fun j => ?_⟩
  rw [← hv.task]
  exact hlast.2 j

theorem ready_ok (hu : u.Ok) (hrun : u.state = .running) (quantum) :
    ({ u with state := .ready, quantumLeft := quantum } : SchedulerTask).Ok ∧
      ({ u with state := .ready, quantumLeft := quantum } : SchedulerTask).state ≠ .running := by
  refine ⟨⟨fun hwait => ?_, fun h => (by cases h)⟩, fun h => (by cases h)⟩
  have hwaits := hu.waits hwait
  rw [hrun] at hwaits
  simp [TaskState.held] at hwaits

/-- What `block_current` does to the task itself. -/
def blockOn (reason : BlockReason) (u : SchedulerTask) : SchedulerTask :=
  { u with state := .blocked, blockReason := some reason, quantumLeft := DEFAULT_QUANTUM_TICKS }

/-- The current task of a CPU begins a wait and the CPU gets a successor. -/
theorem wp_blockCurrentOnCpu (hs : s.Sound)
    (hQ : ∀ d t v id next, s.Runs cpu id → Calm (s.modifyTask id (blockOn reason)) v →
      Handed K cpu next v t → Q d t) (hE : ∀ e, E e s) :
    wp (blockCurrentOnCpu cpu reason) Q E s := by
  simp only [blockCurrentOnCpu, ensureCpuId, wp_bind, wp_get, wp_check, wp_some?, wp_modify]
  refine ⟨fun _ => ⟨fun id hid => ⟨fun _ => ?_, fun _ => hE _⟩, fun _ => hE _⟩, fun _ => hE _⟩
  have hrun : s.Runs cpu id := join_eq_some_iff.mp hid
  have hcalm := calm_rebuildRunnableIndexes (s.modifyTask id (blockOn reason))
  refine wp_scheduleNextOnCpu ?_ fun next t ht => (wp_pure _).mpr ?_
  · show (rebuildRunnableIndexes (s.modifyTask id (blockOn reason))).ids.Nodup
    rw [hcalm.ids, ids_modifyTask s id (blockOn reason) fun _ => rfl]
    exact hs.ids
  · exact hQ _ t _ id next hrun hcalm ht.handed.of_idle

theorem tracks_block (hs : s.Sound) (hK : K (.block reason)) (hrun : s.Runs cpu id)
    (hv : Calm (s.modifyTask id (blockOn reason)) v) (ht : Handed K cpu next v t) :
    Tracks K s t := by
  refine hs.handOff hrun (blockOn reason) (fun _ => rfl) (fun u _ _ hrunning => ?_) hv ht
  refine ⟨⟨fun _ => .inl rfl, fun _ => rfl⟩, fun h => (by cases h), ?_⟩
  exact .single (.block u reason hrunning hK)

theorem evolves_blockCurrentOnCpu (cpu) (hK : K (.block reason)) :
    Moves (Evolves K) (blockCurrentOnCpu cpu reason) :=
  evolves_of fun _ hs => wp_blockCurrentOnCpu hs
    (fun _ _ _ _ _ hrun hv ht => tracks_block hs hK hrun hv ht) fun _ => hs.tracks

/-! ### Ending tasks -/

theorem runs_vacate {p : ℕ → Bool} : (s.vacate p).Runs cpu id ↔ s.Runs cpu id ∧ p id = false := by
  unfold Runs vacate
  simp only [List.getElem?_map, map_eq_some_iff, filter_eq_some_iff,
    Bool.not_eq_eq_eq_not, Bool.not_true]
  constructor
  · rintro ⟨o, ho, rfl, hp⟩
    exact ⟨ho, hp⟩
  · rintro ⟨ho, hp⟩
    exact ⟨_, ho, rfl, hp⟩

/-- What `exit_task` does to the task itself. -/
def exitWith (exitCode : Int32) (u : SchedulerTask) : SchedulerTask :=
  { u with state := .exited, exitCode := exitCode, quantumLeft := 0, blockReason := none }

theorem exit_ok (exitCode u) : (exitWith exitCode u).Ok ∧ (exitWith exitCode u).state ≠ .running :=
  ⟨⟨fun h => (by cases h), fun h => (by cases h)⟩, fun h => (by cases h)⟩

/-- A task that ends leaves the CPUs that ran it. -/
theorem tracks_exit (hs : s.Sound) (id : ℕ) (exitCode : Int32) :
    Tracks K s ((s.modifyTask id (exitWith exitCode)).vacate (· == id)) := by
  have hid : ∀ u, (exitWith exitCode u).id = u.id := fun _ => rfl
  have htask : ∀ j, ((s.modifyTask id (exitWith exitCode)).vacate (· == id)).task j = _ :=
    fun j => task_modifyTask s id j (exitWith exitCode) hid
  refine ⟨hs.shrink (ids_modifyTask s id _ hid) (fun cpu j hrun => ?_)
    (fun j v hv hrunning => ?_) fun j v hv => ?_, rfl,
    each_modifyTask s id _ hid fun u _ => .single (.exit u exitCode)⟩
  · obtain ⟨hrun, hj⟩ := runs_vacate.mp hrun
    have hrun : s.Runs cpu j := hrun
    refine ⟨hrun, ?_⟩
    rw [RunningOn, htask, if_neg (beq_eq_false_iff_ne.mp hj)]
    exact hs.running cpu j hrun
  · rcases of_task_modifyTask hid hv with ⟨u, -, -, rfl⟩ | ⟨hj, hv⟩
    · exact absurd hrunning (exit_ok exitCode u).2
    · obtain ⟨cpu, hcpu⟩ := hs.occupied j v hv hrunning
      exact ⟨cpu, runs_vacate.mpr ⟨hcpu, beq_eq_false_iff_ne.mpr hj⟩⟩
  · rcases of_task_modifyTask hid hv with ⟨u, -, -, rfl⟩ | ⟨-, hv⟩
    · exact (exit_ok exitCode u).1
    · exact hs.ok j v hv

/-- Work that goes on from a sound scheduler. -/
theorem Tracks.andThen (h : Tracks K s t) [hx : Moves (Evolves K) x] :
    ends x (Tracks K s) t :=
  wp_mono (hx.run t) (fun _ _ hu => h.trans (hu h.sound)) fun _ _ hu => h.trans (hu h.sound)

instance (id exitCode) : Moves (Evolves K) (exitTask id exitCode) := by
  refine evolves_of fun s hs => ?_
  simp only [exitTask, wp_bind, wp_get, wp_check, wp_modify]
  refine ⟨fun _ => ?_, fun _ => hs.tracks⟩
  have hexit : Tracks K s ((s.modifyTask id (exitWith exitCode)).vacate (· == id)) :=
    tracks_exit hs id exitCode
  exact (hexit.trans ((calm_rebuildRunnableIndexes _).evolves hexit.sound)).andThen

theorem reason_of_running (hu : u.Ok) (hrun : u.state = .running) : u.blockReason = none := by
  cases hreason : u.blockReason with
  | none => rfl
  | some r =>
    have hwaits := hu.waits (by rw [hreason]; rfl)
    rw [hrun] at hwaits
    simp [TaskState.held] at hwaits

instance (cpu exitCode) : Moves (Evolves K) (exitCurrentOnCpu cpu exitCode) := by
  refine evolves_of fun s hs => ?_
  simp only [exitCurrentOnCpu, ensureCpuId, wp_bind, wp_get, wp_check, wp_some?, wp_modify]
  refine ⟨fun _ => ⟨fun id hid => ⟨fun _ => ?_, fun _ => hs.tracks⟩, fun _ => hs.tracks⟩,
    fun _ => hs.tracks⟩
  have hrun : s.Runs cpu id := join_eq_some_iff.mp hid
  generalize hf : (fun u : SchedulerTask =>
    { u with state := .exited, exitCode := exitCode, quantumLeft := 0 }) = f
  have hfid : ∀ u, (f u).id = u.id := fun u => by rw [← hf]
  have hcalm := calm_rebuildRunnableIndexes (s.modifyTask id f)
  refine wp_scheduleNextOnCpu ?_ fun next t ht => (wp_pure _).mpr ?_
  · show (rebuildRunnableIndexes (s.modifyTask id f)).ids.Nodup
    rw [hcalm.ids, ids_modifyTask s id f hfid]
    exact hs.ids
  · refine hs.handOff hrun f hfid (fun u _ hu hrunning => ?_) hcalm ht.handed.of_idle
    -- a running task does not wait, so it ends as with `exit_task`
    have hexit : f u = exitWith exitCode u := by
      rw [← hf, exitWith, ← reason_of_running hu hrunning]
    rw [hexit]
    exact ⟨(exit_ok exitCode u).1, (exit_ok exitCode u).2, .single (.exit u exitCode)⟩

/-! ### Taking a task off its CPU -/

/-- A task was changed and must leave the CPU it runs on, if that is one of the CPUs `bad`; a
loop over all CPUs sees to that. -/
theorem wp_evictAll (hs : s.Sound) (id : ℕ) (f : SchedulerTask → SchedulerTask) (bad : ℕ → Prop)
    (body : ℕ → SchedM Unit) (hskip : ∀ cpu t, ¬ (t.Runs cpu id ∧ bad cpu) →
      wp (body cpu) (fun _ u => u = t) (fun _ _ => False) t)
    (hevict : ∀ cpu, s.Runs cpu id → bad cpu →
      wp (body cpu) (fun _ t => Tracks K s t ∧ ∀ c, t.Runs c id → ¬ bad c)
        (fun _ => Tracks K s) (s.modifyTask id f))
    (hkeep : (∀ cpu, s.Runs cpu id → ¬ bad cpu) → Tracks K s (s.modifyTask id f)) :
    ends (forEach (List.range s.cpuCount) body) (Tracks K s)
      (s.modifyTask id f) := by
  -- either the task is settled, or a CPU that it must leave is still to come
  refine wp_forEach (fun rest t => (Tracks K s t ∧ ∀ c, t.Runs c id → ¬ bad c) ∨
    t = s.modifyTask id f ∧ ∃ c ∈ rest, s.Runs c id ∧ bad c) ?_ ?_ _ _ ?_
  · rintro cpu rest t (⟨ht, hfree⟩ | ⟨rfl, c, hc, hrun, hbad⟩)
    · refine wp_mono (hskip cpu t fun h => hfree cpu h.1 h.2) fun _ u hu => .inl ?_
      subst hu
      exact ⟨ht, hfree⟩
    · by_cases hcpu : cpu = c
      · subst hcpu
        exact wp_mono (hevict cpu hrun hbad) fun _ _ ht => .inl ht
      · have hnot : ¬ ((s.modifyTask id f).Runs cpu id ∧ bad cpu) :=
          fun h => hcpu (hs.apart cpu c id h.1 hrun)
        have hrest : c ∈ rest := (List.mem_cons.mp hc).resolve_left (Ne.symm hcpu)
        exact wp_mono (hskip cpu _ hnot) fun _ u hu => .inr ⟨hu, c, hrest, hrun, hbad⟩
  · rintro t (⟨ht, -⟩ | ⟨-, c, hc, -⟩)
    · exact ht
    · cases hc
  · by_cases hbad : ∃ cpu, s.Runs cpu id ∧ bad cpu
    · obtain ⟨cpu, hrun, hbad⟩ := hbad
      refine .inr ⟨rfl, cpu, ?_, hrun, hbad⟩
      have hlen := (getElem?_eq_some_iff.mp hrun).1
      exact List.mem_range.mpr (Nat.lt_of_lt_of_le hlen (Nat.le_max_left _ _))
    · have hfree : ∀ cpu, s.Runs cpu id → ¬ bad cpu := fun cpu hrun hcpu => hbad ⟨cpu, hrun, hcpu⟩
      exact .inl ⟨hkeep hfree, hfree⟩

/-- A task that left its CPU runs again only if it was chosen for it. -/
theorem Handed.of_left {c} (hs : s.Sound) (h : Handed K cpu next v t) (hrun : s.Runs cpu id)
    (hv : v.currentTaskIds = s.currentTaskIds) (hc : t.Runs c id) : c = cpu ∧ next = some id := by
  have hcurrent : (v.setCurrent cpu next).Runs c id :=
    (congrArg (·[c]?) h.current).symm.trans hc
  rcases runs_setCurrent hcurrent with hnew | ⟨hne, hold⟩
  · exact hnew
  · have hold : s.Runs c id := (congrArg (·[c]?) hv).symm.trans hold
    exact absurd (hs.apart c cpu id hold hrun) hne

theorem id_suspend (u) : (suspend u).id = u.id := id_of_origin (origin_suspend u)

theorem suspend_ok (hu : u.Ok) :
    (suspend u).Ok ∧ ((suspend u).state = .suspended ∨ (suspend u).state = .exited) := by
  unfold suspend
  split
  · rename_i hexited
    exact ⟨hu, .inr hexited⟩
  · exact ⟨⟨fun _ => .inr (.inl rfl), fun h => (by cases h)⟩, .inl rfl⟩

theorem evolves_suspendTask (hK : K .suspend) (id) : Moves (Evolves K) (suspendTask id) := by
  refine evolves_of fun s hs => ?_
  simp only [suspendTask, wp_bind, wp_get, wp_check, wp_modify]
  refine ⟨fun _ => ?_, fun _ => hs.tracks⟩
  have hchange : ∀ u, Changes K s.nowNs u (suspend u) := fun u => .single (.suspend u hK)
  have hstate : ∀ u, u.Ok → (suspend u).state ≠ .running := by
    intro u hu
    rcases (suspend_ok hu).2 with h | h <;> rw [h] <;> decide
  refine wp_mono (wp_evictAll hs id suspend (fun _ => True) (releaseCpu id) ?_ ?_ ?_)
    fun _ t ht => ?_
  · intro cpu t hnot
    simp only [releaseCpu, wp_bind, wp_get, wp_unwrap, wp_ite, wp_pure]
    intro current hcurrent
    refine ⟨fun hid => absurd ⟨hcurrent.trans (congrArg some hid), trivial⟩ hnot, fun _ => trivial⟩
  · intro cpu hrun _
    simp only [releaseCpu, wp_bind, wp_get, wp_unwrap, wp_ite, wp_pure, wp_modify]
    intro current hcurrent
    have heq : current = some id := Option.some.inj (hcurrent.symm.trans hrun)
    refine ⟨fun _ => ?_, fun hne => absurd heq hne⟩
    refine wp_scheduleNextOnCpu ?_ fun next t ht => (wp_pure _).mpr ?_
    · show (s.modifyTask id suspend).ids.Nodup
      rw [ids_modifyTask s id suspend id_suspend]
      exact hs.ids
    have hhanded : Handed K cpu next (s.modifyTask id suspend) t := ht.handed.of_idle
    refine ⟨hs.handOff hrun suspend id_suspend (fun u _ hu _ => ⟨(suspend_ok hu).1, hstate u hu,
      hchange u⟩) (refl_of Calm _) hhanded, fun c hc _ => ?_⟩
    obtain ⟨-, hnext⟩ := hhanded.of_left hs hrun rfl hc
    obtain ⟨v, hv, hready, -⟩ := hhanded.chosen id hnext
    rw [task_modifyTask s id id suspend id_suspend, if_pos rfl] at hv
    obtain ⟨u, hu, rfl⟩ := map_eq_some_iff.mp hv
    rcases (suspend_ok (hs.ok id u hu)).2 with h | h <;> rw [h] at hready <;> cases hready
  · intro hfree
    refine tracks_modifyTask hs id suspend id_suspend fun u hu hok => ?_
    have hidle : u.state ≠ .running := by
      intro hrunning
      obtain ⟨cpu, hcpu⟩ := hs.occupied id u hu hrunning
      exact hfree cpu hcpu trivial
    refine ⟨(suspend_ok hok).1, ⟨fun h => absurd h (hstate u hok), fun h => absurd h hidle⟩, ?_,
      hchange u⟩
    unfold suspend
    split <;> rfl
  · exact (wp_modify _).mpr (ht.trans ((calm_rebuildRunnableIndexes t).evolves ht.sound))

/-- What `set_cpu_affinity` does to a task that must leave its CPU. -/
def evicted (mask : UInt64) (u : SchedulerTask) : SchedulerTask :=
  { u with cpuAffinityMask := mask, state := .ready }

theorem evolves_setCpuAffinity (hK : K .preempt) (id affinityMask) :
    Moves (Evolves K) (setCpuAffinity id affinityMask) := by
  refine evolves_of fun s hs => ?_
  simp only [setCpuAffinity, wp_bind, wp_get, wp_check, wp_modify]
  refine ⟨fun _ => ⟨fun _ => ?_, fun _ => hs.tracks⟩, fun _ => hs.tracks⟩
  generalize hf : (fun u : SchedulerTask => { u with cpuAffinityMask := affinityMask }) = f
  have hfid : ∀ u, (f u).id = u.id := fun u => by rw [← hf]
  refine wp_mono (wp_evictAll hs id f (fun cpu => affinityMask &&& cpuBit cpu = 0) _ ?_ ?_ ?_)
    fun _ t ht => (wp_modify _).mpr (ht.trans ((calm_rebuildRunnableIndexes t).evolves ht.sound))
  -- a CPU that may keep the task is left alone
  · intro cpu t hnot
    simp only [wp_bind, wp_get, wp_unwrap, wp_ite, wp_pure]
    intro current hcurrent
    exact ⟨fun hid => absurd ⟨hcurrent.trans (congrArg some hid.1), hid.2⟩ hnot, fun _ => trivial⟩
  -- the CPU that runs the task loses it: ready, with the new mask, and a successor
  · intro cpu hrun hbad
    simp only [wp_bind, wp_get, wp_unwrap, wp_ite, wp_pure, wp_modify]
    intro current hcurrent
    have heq : current = some id := Option.some.inj (hcurrent.symm.trans hrun)
    refine ⟨fun _ => ?_, fun hne => absurd ⟨heq, hbad⟩ hne⟩
    have hboth : modifyTask id (fun t => { t with state := .ready }) (modifyTask id f s) =
        s.modifyTask id (evicted affinityMask) := by
      unfold modifyTask
      simp only
      rw [updateFirst_updateFirst fun a ha => by rw [hfid]; exact ha, ← hf]
      rfl
    rw [hboth]
    refine wp_scheduleNextOnCpu ?_ fun next t ht => (wp_pure _).mpr ?_
    · show (s.modifyTask id (evicted affinityMask)).ids.Nodup
      rw [ids_modifyTask s id (evicted affinityMask) fun _ => rfl]
      exact hs.ids
    have hhanded : Handed K cpu next (s.modifyTask id (evicted affinityMask)) t := ht.handed.of_idle
    refine ⟨hs.handOff hrun (evicted affinityMask) (fun _ => rfl) (fun u _ hu hrunning => ?_)
      (refl_of Calm _) hhanded, fun c hc hbad' => ?_⟩
    · have hready := ready_ok hu hrunning u.quantumLeft
      refine ⟨⟨hready.1.waits, hready.1.blocked⟩, hready.2, ?_⟩
      exact .tail (.single (.preempt u u.quantumLeft hrunning hK)) (.affinity _ affinityMask)
    · obtain ⟨rfl, hnext⟩ := hhanded.of_left hs hrun rfl hc
      obtain ⟨v, hv, -, hcpu⟩ := hhanded.chosen id hnext
      rw [task_modifyTask s id id (evicted affinityMask) fun _ => rfl, if_pos rfl] at hv
      obtain ⟨u, -, rfl⟩ := map_eq_some_iff.mp hv
      rw [taskCanRunOnCpu, evicted, hbad'] at hcpu
      cases hcpu
  -- no CPU loses the task; only its mask changes
  · intro hfree
    have htask := fun j => task_modifyTask s id j f hfid
    refine ⟨hs.shrink (ids_modifyTask s id f hfid) (fun cpu j hrun => ⟨hrun, ?_⟩)
      (fun j v hv hrunning => ?_) fun j v hv => ?_, rfl,
      each_modifyTask s id f hfid fun u _ => hf ▸ .single (.affinity u affinityMask)⟩
    · obtain ⟨u, hu, hrunning, hcpu⟩ := hs.running cpu j hrun
      rw [RunningOn, htask, hu]
      split
      · rename_i hj
        refine ⟨f u, rfl, ?_, ?_⟩
        · rw [← hf]
          exact hrunning
        · rw [← hf]
          exact bne_iff_ne.mpr (hfree cpu (hj ▸ hrun))
      · exact ⟨u, rfl, hrunning, hcpu⟩
    · rcases of_task_modifyTask hfid hv with ⟨u, -, hu, rfl⟩ | ⟨-, hv⟩
      · rw [← hf] at hrunning
        exact hs.occupied j u hu hrunning
      · exact hs.occupied j v hv hrunning
    · rcases of_task_modifyTask hfid hv with ⟨u, -, hu, rfl⟩ | ⟨-, hv⟩
      · rw [← hf]
        exact ⟨(hs.ok j u hu).waits, (hs.ok j u hu).blocked⟩
      · exact hs.ok j v hv

/-! ### Profiles and accounting -/

/-- Tasks changed, but not how they stand. -/
structure Mild (K : Special → Prop) (s t : Scheduler) : Prop where
  current : t.currentTaskIds = s.currentTaskIds
  now : t.nowNs = s.nowNs
  each : Each (Changes K s.nowNs) s t
  stance : ∀ id, (t.task id).map stance = (s.task id).map stance

instance : Std.Refl (Mild K) := ⟨fun s => ⟨rfl, rfl, .refl s, fun _ => rfl⟩⟩

instance : IsTrans Scheduler (Mild K) :=
  ⟨fun _ _ _ h₁ h₂ => ⟨h₂.current.trans h₁.current, h₂.now.trans h₁.now,
    h₁.each.trans (h₁.now ▸ h₂.each), fun id => (h₂.stance id).trans (h₁.stance id)⟩⟩

theorem Calm.mild (h : Calm s t) : Mild K s t :=
  ⟨h.current, h.now, ⟨h.ids, fun id => by rw [h.task]; exact rel_rfl _⟩, fun id => by rw [h.task]⟩

theorem Mild.evolves (h : Mild K s t) : Evolves K s t :=
  fun hs => ⟨hs.of_stance h.each.1 h.current h.stance, h.now, h.each⟩

instance (priority := low) mild_of_calm (x : Prog Scheduler ε α) [h : Moves Calm x] :
    Moves (Mild K) x :=
  h.mono fun _ _ hcalm => hcalm.mild

instance (priority := low) evolves_of_mild (x : Prog Scheduler ε α) [h : Moves (Mild K) x] :
    Moves (Evolves K) x :=
  h.mono fun _ _ hmild => hmild.evolves

theorem mild_modifyTask (s id) (f : SchedulerTask → SchedulerTask)
    (hf : ∀ u, (f u).id = u.id) (hstance : ∀ u, (f u).stance = u.stance)
    (hchange : ∀ u, Changes K s.nowNs u (f u)) : Mild K s (s.modifyTask id f) := by
  refine ⟨rfl, rfl, each_modifyTask s id f hf fun u _ => hchange u, fun j => ?_⟩
  rw [task_modifyTask s id j f hf]
  split
  · rw [Option.map_map]
    exact congrArg (Option.map · _) (funext hstance)
  · rfl

theorem moves_mild_modifyTask (id) (f : SchedulerTask → SchedulerTask)
    (hf : ∀ u, (f u).id = u.id) (hstance : ∀ u, (f u).stance = u.stance)
    (hchange : ∀ nowNs u, Changes K nowNs u (f u)) :
    Moves (Mild K) (modify (modifyTask id f) : Prog Scheduler ε Unit) :=
  .modify fun s => mild_modifyTask s id f hf hstance (hchange s.nowNs)

theorem mild_setFairProfile (hK : K .profile) (id profile) :
    Moves (Mild K) (setFairProfile id profile) := by
  unfold setFairProfile
  refine .next fun _ => .next fun _ => .next fun _ => .andThen (moves_mild_modifyTask id _ (fun _
    => rfl) (fun _ => rfl) fun _ u => ?_) inferInstance
  exact .single (.profile u _ _ _ _ none _ hK)

theorem mild_setDeadlineProfile (hK : K .profile) (id profile) :
    Moves (Mild K) (setDeadlineProfile id profile) := by
  unfold setDeadlineProfile
  refine .next fun _ => .next fun _ => .next fun _ => .next fun _ => .next fun _ => .next fun _ =>
    .andThen (moves_mild_modifyTask id _ (fun _ => rfl) (fun _ => rfl) fun _ u => ?_)
    inferInstance
  exact .single (.profile u _ u.basePriority _ u.fairWeight _ _ hK)

theorem mild_setProfile (hK : K .profile) (id profile) :
    Moves (Mild K) (setProfile id profile) := by
  unfold setProfile
  split
  · exact mild_setFairProfile hK id _
  · exact mild_setDeadlineProfile hK id _

instance (owner : ℕ) (priority : UInt8) : Moves (Mild K) (donatePriority owner priority) := by
  unfold donatePriority
  refine .next fun _ => .next fun _ => .andThen (moves_mild_modifyTask owner _ ?_ ?_ ?_)
    inferInstance
  · intro u
    split <;> rfl
  · intro u
    split <;> rfl
  · intro _ u
    split
    · exact .single (.priority u priority)
    · exact .refl

instance (id : ℕ) : Moves (Mild K) (restoreBasePriority id) := by
  unfold restoreBasePriority
  refine .next fun _ => .next fun _ => .andThen (moves_mild_modifyTask id _ ?_ ?_ ?_)
    inferInstance
  · intro u
    split <;> rfl
  · intro u
    split <;> rfl
  · intro _ u
    split
    · exact .single (.priority u u.basePriority)
    · exact .refl

/-- Accounting charges the tasks that the CPUs run, one after the other. -/
theorem accountRuntime_along {R : Scheduler → Scheduler → Prop} [Std.Refl R] [IsTrans Scheduler R]
    (nowNs : UInt64) (s : Scheduler) (hstart : ∀ runtime, R s { s with runtime := runtime })
    (hone : ∀ o ∈ s.currentTaskIds, ∀ elapsed budget t, R t (chargeRunning elapsed budget t o)) :
    R s (s.accountRuntime nowNs) := by
  have hfold : ∀ (elapsed budget : UInt64) (os : List (Option ℕ)) (t : Scheduler),
      (∀ o ∈ os, o ∈ s.currentTaskIds) → R t (os.foldl (chargeRunning elapsed budget) t) := by
    intro elapsed budget os
    induction os with
    | nil => exact fun t _ => refl_of R t
    | cons o os ih =>
      intro t hos
      exact trans_of R (hone o (hos o List.mem_cons_self) elapsed budget t)
        (ih _ fun o' ho' => hos o' (List.mem_cons_of_mem _ ho'))
  unfold accountRuntime
  split
  · split
    · exact refl_of R s
    · exact trans_of R (hstart _) (hfold _ _ _ _ fun _ ho => ho)
  · exact trans_of R (hstart _) (hfold _ _ _ _ fun _ ho => ho)

/-- Accounting spends the budget of deadline servers. -/
theorem mild_accountRuntime (hK : K .spend) (nowNs s) : Mild K s (s.accountRuntime nowNs) := by
  refine accountRuntime_along nowNs s (fun _ => Calm.mild ⟨rfl, rfl, rfl⟩)
    fun o _ elapsed budget t => ?_
  cases o with
  | none => exact refl_of (Mild K) t
  | some id =>
    have hspend := mild_modifyTask (K := K) t id (fun u => { u with
      deadline := u.deadline.map fun d =>
        { d with remainingBudgetNs := d.remainingBudgetNs.satSub budget } })
      (fun _ => rfl) (fun _ => rfl) fun u => .single (.spend u budget hK)
    exact { hspend with }

/-- The thread that executes is put in place of the successor and taken out again. -/
theorem mild_accountExecuting (hK : K .spend) (cpu thread nowNs s) :
    Mild K s (s.accountExecuting cpu thread nowNs) := by
  unfold accountExecuting
  split
  · exact refl_of (Mild K) s
  · rename_i saved hsaved
    have haccount := mild_accountRuntime hK nowNs (s.setCurrent cpu (some thread))
    refine { haccount with current := ?_ }
    show (accountRuntime nowNs (s.setCurrent cpu (some thread))).currentTaskIds.set cpu saved = _
    rw [haccount.current]
    refine List.ext_getElem? fun i => ?_
    simp only [setCurrent, List.set_set, List.getElem?_set]
    split
    · subst_vars
      rw [hsaved]
      split
      · rfl
      · rename_i hlen
        exact absurd (getElem?_eq_some_iff.mp hsaved).1 hlen
    · rfl

/-! ### The clock -/

/-- What accounting leaves. -/
theorem accountRuntime_eq {β : Type} (f : Scheduler → β) (nowNs : UInt64) (s : Scheduler)
    (hstart : ∀ runtime, f { s with runtime := runtime } = f s)
    (hone : ∀ o ∈ s.currentTaskIds, ∀ elapsed budget t,
      f (chargeRunning elapsed budget t o) = f t) : f (s.accountRuntime nowNs) = f s := by
  have : Std.Refl fun s t => f t = f s := ⟨fun _ => rfl⟩
  have : IsTrans Scheduler fun s t => f t = f s := ⟨fun _ _ _ h₁ h₂ => h₂.trans h₁⟩
  exact accountRuntime_along (R := fun s t => f t = f s) nowNs s hstart hone

theorem groups_accountRuntime (nowNs : UInt64) (s : Scheduler) :
    (s.accountRuntime nowNs).groups = s.groups :=
  accountRuntime_eq (·.groups) nowNs s (fun _ => rfl) fun o _ _ _ _ => by cases o <;> rfl

/-- The clock leaves tasks that no CPU runs. -/
theorem task_accountRuntime_of_idle (nowNs : UInt64) (hidle : ∀ cpu, ¬ s.Runs cpu id) :
    (s.accountRuntime nowNs).task id = s.task id := by
  refine accountRuntime_eq (·.task id) nowNs s (fun _ => rfl) fun o ho elapsed budget t => ?_
  cases o with
  | none => rfl
  | some j =>
    refine (task_modifyTask t j id (fun u => { u with
      deadline := u.deadline.map fun d =>
        { d with remainingBudgetNs := d.remainingBudgetNs.satSub budget } }) fun _ => rfl).trans ?_
    rw [if_neg]
    rintro rfl
    obtain ⟨cpu, hcpu⟩ := List.mem_iff_getElem?.mp ho
    exact hidle cpu hcpu

/-- The run time up to `nowNs` was charged and the clock set. -/
structure Clocked (nowNs : UInt64) (s t : Scheduler) : Prop where
  tasks : t.tasks = (s.accountRuntime nowNs).tasks
  current : t.currentTaskIds = s.currentTaskIds
  now : t.nowNs = nowNs
  le : s.nowNs ≤ nowNs

theorem Clocked.task (h : Clocked nowNs s t) (id) :
    t.task id = (s.accountRuntime nowNs).task id := by
  rw [Scheduler.task, h.tasks]
  rfl

/-- What holds of every scheduler whose clock was set holds at a tick. -/
theorem of_clock {P : Scheduler → Prop} (hle : s.nowNs ≤ nowNs)
    (h : ∀ c, Clocked nowNs s c → c.groups = (s.accountRuntime nowNs).groups →
      c.runtime = (s.accountRuntime nowNs).runtime → P c) :
    P { s.accountRuntime nowNs with
      nowNs := nowNs, totalTicks := (s.accountRuntime nowNs).totalTicks.satAdd 1 } :=
  h _ ⟨rfl, (mild_accountRuntime (K := fun _ => True) trivial nowNs s).current, rfl, hle⟩ rfl rfl

theorem Clocked.sound (h : Clocked nowNs s t) (hs : s.Sound) : t.Sound := by
  have haccount := mild_accountRuntime (K := fun _ => True) trivial nowNs s
  refine hs.of_stance ?_ h.current fun id => ?_
  · rw [Scheduler.ids, h.tasks]
    exact haccount.each.1
  · rw [h.task]
    exact haccount.stance id

theorem Clocked.each (hK : K .spend) (h : Clocked nowNs s t) : Each (Changes K s.nowNs) s t := by
  have haccount := mild_accountRuntime hK nowNs s
  refine ⟨?_, fun id => ?_⟩
  · rw [Scheduler.ids, h.tasks]
    exact haccount.each.1
  · rw [h.task]
    exact haccount.each.2 id

instance : NoFail wakeExpiredDeadlines := by
  unfold wakeExpiredDeadlines
  infer_instance

theorem id_chargeTick (nowNs u) : (chargeTick nowNs u).id = u.id :=
  id_of_origin (origin_chargeTick nowNs u).1

theorem task_of_current (h : ((s.currentTaskIds[cpu]?).join.bind s.task) = some u) :
    s.Runs cpu u.id ∧ s.task u.id = some u := by
  obtain ⟨id, hid, hu⟩ := Option.bind_eq_some_iff.mp h
  rw [id_of_task hu]
  exact ⟨join_eq_some_iff.mp hid, hu⟩

/-- A CPU without a task runs nothing. -/
theorem Sound.idle_of_none (hs : s.Sound) (h : ((s.currentTaskIds[cpu]?).join.bind s.task) = none)
    (id : ℕ) : ¬ s.Runs cpu id := by
  intro hrun
  obtain ⟨u, hu, -⟩ := hs.running cpu id hrun
  rw [join_eq_some_iff.mpr hrun, Option.bind_some, hu] at h
  cases h

/-- The task at the end of its quantum. -/
theorem preempt_ok (hK : K .preempt) (nowNs : UInt64) (hu : u.Ok) (hrun : u.state = .running) :
    (preempt (chargeTick nowNs u)).Ok ∧ (preempt (chargeTick nowNs u)).state ≠ .running ∧
      Changes K nowNs u (preempt (chargeTick nowNs u)) := by
  have hcharged := (origin_chargeTick nowNs u).2
  have hok := hu.of_stance hcharged
  simp only [stance, Prod.mk.injEq] at hcharged
  have hstate : (chargeTick nowNs u).state = .running := hcharged.1.trans hrun
  rw [preempt, if_pos hstate]
  obtain ⟨hready, hne⟩ := ready_ok hok hstate DEFAULT_QUANTUM_TICKS
  exact ⟨hready, hne, .tail (.single (.charge u)) (.preempt _ _ hstate hK)⟩

/-- A tick charges the time, wakes who waited for it and names a running task, if any. -/
theorem wp_tickAtOnCpu (hK : K .preempt) (hs : s.Sound)
    (hQ : ∀ d c t, Clocked nowNs s c → Tracks K c t →
      (∀ id ∈ d.nextTaskId, t.RunningOn cpu id) → Q d t) (hE : ∀ e, E e s) :
    wp (tickAtOnCpu cpu nowNs) Q E s := by
  simp only [tickAtOnCpu, ensureCpuId, wp_bind, wp_get, wp_check, wp_modify]
  refine ⟨fun _ => ⟨fun hle => ?_, fun _ => hE _⟩, fun _ => hE _⟩
  refine of_clock (P := wp _ _ _) (UInt64.not_lt.mp hle) fun c hclock _ _ => ?_
  have hc := hclock.sound hs
  refine wp_of_total (R := Evolves K) fun _ u hu => ?_
  have hu := hu hc
  have hnow : u.nowNs = nowNs := hu.now.trans hclock.now
  rw [wp_bind, wp_get]
  split
  · rename_i current hcurrent
    obtain ⟨hrun, htask⟩ := task_of_current hcurrent
    rw [wp_ite]
    constructor
    · -- the task keeps its CPU
      intro _
      rw [wp_bind, wp_modify, modifyTask_const htask (chargeTick nowNs), wp_bind]
      have hmild : Mild K u (u.modifyTask current.id (chargeTick nowNs)) :=
        mild_modifyTask u _ _ (id_chargeTick nowNs) (fun v => (origin_chargeTick nowNs v).2)
          fun v => hnow ▸ .single (.charge v)
      refine wp_of_total (R := Calm) fun _ v hv => ?_
      have hmild := trans_of (Mild K) hmild hv.mild
      have htracks := hu.trans (hmild.evolves hu.sound)
      refine (wp_pure _).mpr (hQ _ c v hclock htracks fun id hid => ?_)
      refine htracks.sound.running cpu id ?_
      rw [Runs, hmild.current]
      exact join_eq_some_iff.mp hid
    · -- the task is preempted
      intro _
      rw [wp_bind, wp_modify, modifyTask_const htask (fun v => preempt (chargeTick nowNs v)), wp_bind]
      have hid : ∀ v, (preempt (chargeTick nowNs v)).id = v.id := by
        intro v
        rw [← id_chargeTick nowNs v]
        unfold preempt
        split <;> rfl
      refine wp_of_total (R := Calm) fun _ v hv => ?_
      rw [wp_bind]
      refine wp_scheduleNextOnCpu ?_ fun next t ht => (wp_pure _).mpr ?_
      · rw [hv.ids, ids_modifyTask u _ _ hid]
        exact hu.sound.ids
      · have hhanded : Handed K cpu next v t := ht.handed
        refine hQ _ c t hclock (hu.trans ?_) hhanded.picks
        refine hu.sound.handOff hrun _ hid (fun v _ hok hrunning => ?_) hv hhanded
        rw [hnow]
        exact preempt_ok hK nowNs hok hrunning
  · rename_i hnone
    rw [wp_bind]
    refine wp_scheduleIdle (K := K) hu.sound (hu.sound.idle_of_none hnone)
      fun next t hhanded ht => ?_
    exact (wp_pure _).mpr (hQ _ c t hclock (hu.trans ht) hhanded.picks)

/-- A tick that is refused is no decision. -/
theorem wp_tick (hK : K .preempt) (hs : s.Sound)
    (hQ : ∀ d c t, Clocked (s.nowNs.satAdd 1) s c → Tracks K c t →
      (∀ id ∈ d.nextTaskId, t.RunningOn 0 id) → Q d t) (hnone : Q ⟨none, none, 0, false⟩ s) :
    wp tick Q E s := by
  simp only [tick, wp_bind, wp_get, wp_attempt]
  exact wp_tickAtOnCpu hK hs (fun d c t hc ht hpick => (wp_pure _).mpr (hQ d c t hc ht hpick))
    fun e => (wp_pure _).mpr hnone

/-! ### Yields -/

/-- A directed yield gives the CPU to a ready task. -/
theorem handed_yieldTo (hrange : cpu < s.currentTaskIds.length) (hu : s.task id = some u)
    (hready : u.state = .ready) (hcpu : taskCanRunOnCpu u cpu) (hK : K (.direct u.starved)) :
    Handed K cpu (some id) s ((s.setCurrent cpu (some id)).modifyTask id fun t =>
      { t with state := .running, quantumLeft := DEFAULT_QUANTUM_TICKS }) := by
  refine ⟨hrange, rfl, rfl, ?_, ?_, fun j => ?_⟩
  · rintro _ ⟨⟩
    exact ⟨u, hu, hready, hcpu⟩
  · have heach := each_modifyTask (R := Changes K s.nowNs) (s.setCurrent cpu (some id)) id
      (fun t => { t with state := .running, quantumLeft := DEFAULT_QUANTUM_TICKS })
      (fun _ => rfl) fun v hv => ?_
    · exact heach
    · have hv : s.task id = some v := hv
      rw [hu, some_inj] at hv
      exact .single (.direct v (hv ▸ hready) (hv ▸ hK))
  · have hsame : (s.setCurrent cpu (some id)).task j = s.task j := rfl
    rw [task_modifyTask (s.setCurrent cpu (some id)) id j
      (fun t => { t with state := .running, quantumLeft := DEFAULT_QUANTUM_TICKS }) fun _ => rfl, hsame]
    by_cases hj : j = id
    · rw [if_pos hj, Option.map_map, hj]
      simp only [if_true]
      rfl
    · rw [if_neg hj]
      simp only [if_neg fun h : some id = some j => hj (Option.some.inj h).symm]

/-- A CPU that found nothing is asked again. -/
theorem Handed.again {u} (h₁ : Handed K cpu none s t) (h₂ : Handed K cpu next t u) :
    Handed K cpu next s u := by
  have hstance : ∀ id, (t.task id).map SchedulerTask.stance = (s.task id).map SchedulerTask.stance :=
    fun id => by
      rw [h₁.stance]
      rfl
  refine ⟨h₁.range, ?_, h₂.now.trans h₁.now, fun id hid => ?_,
    h₁.each.trans (h₁.now ▸ h₂.each), fun id => ?_⟩
  · rw [h₂.current, h₁.current, List.set_set]
  · obtain ⟨v, hv, hready, hcpu⟩ := h₂.chosen id hid
    obtain ⟨w, hw, hsame⟩ := exists_of_map_eq (hstance id) hv
    exact exists_of_stance hw hsame hready hcpu
  · rw [h₂.stance]
    -- the new stance depends only on the old one
    have hfactor : ∀ w : SchedulerTask, (if next = some id then
        (TaskState.running, w.blockReason, w.cpuAffinityMask) else w.stance) =
        (fun a : TaskState × Option BlockReason × UInt64 =>
          if next = some id then (.running, a.2.1, a.2.2) else a) w.stance := fun w => rfl
    simp only [hfactor]
    have hsame := congrArg (Option.map fun a : TaskState × Option BlockReason × UInt64 =>
      if next = some id then (.running, a.2.1, a.2.2) else a) (hstance id)
    rw [Option.map_map, Option.map_map] at hsame
    exact hsame

/-- A task that stands aside is refilled like one that is ready. -/
theorem replenish_aside (nowNs : UInt64) (hready : u.state = .ready) :
    ({ replenish nowNs { u with state := .suspended } with state := .ready } : SchedulerTask) =
      replenish nowNs u := by
  obtain ⟨_, _, _, _, _, _, _, deadline, state⟩ := u
  cases hready
  cases deadline with
  | none => rfl
  | some d =>
    simp only [replenish, reduceCtorEq, if_false]
    split <;> rfl

/-- The yielding task stands aside while a successor is chosen. -/
theorem Dispatched.aside (hu : s.task id = some u) (hready : u.state = .ready)
    (h : Dispatched cpu next (s.modifyTask id fun v => { v with state := .suspended }) t) :
    Dispatched cpu next s (t.modifyTask id fun v => { v with state := .ready }) := by
  have haside : ∀ j, (s.modifyTask id fun v => { v with state := .suspended }).task j =
      if j = id then (s.task j).map fun v => { v with state := .suspended } else s.task j :=
    fun j => task_modifyTask s id j (fun v => { v with state := .suspended }) fun _ => rfl
  have hother : ∀ j ∈ next, j ≠ id := by
    rintro j hj rfl
    obtain ⟨v, hv, hv', -⟩ := h.chosen j hj
    rw [haside, if_pos rfl, hu, map_some, some_inj] at hv
    rw [← hv] at hv'
    cases hv'
  refine ⟨h.range, ?_, h.current, h.now, fun j hj => ?_, fun j => ?_⟩
  · rw [ids_modifyTask t id (fun v => { v with state := .ready }) fun _ => rfl, h.ids]
    exact ids_modifyTask s id (fun v => { v with state := .suspended }) fun _ => rfl
  · obtain ⟨v, hv, hrest⟩ := h.chosen j hj
    rw [haside, if_neg (hother j hj)] at hv
    exact ⟨v, hv, hrest⟩
  · rw [task_modifyTask t id j (fun v => { v with state := .ready }) fun _ => rfl, h.task, haside]
    by_cases hj : j = id
    · subst hj
      have hnot : next ≠ some j := fun hnext => hother j hnext rfl
      simp only [if_true, if_neg hnot, hu, map_some, some_inj]
      exact replenish_aside s.nowNs hready
    · rw [if_neg hj, if_neg hj]
      rfl

theorem wp_yieldToAny (hids : s.ids.Nodup)
    (hready : ∀ id ∈ yielded, ∃ u, s.task id = some u ∧ u.state = .ready)
    {Q : Option ℕ → Scheduler → Prop} (hQ : ∀ next t, Handed K cpu next s t → Q next t) :
    wp (yieldToAny cpu yielded) Q E s := by
  -- once the task is back in place, the CPU is asked again if it found nothing
  have hagain : ∀ next t, Dispatched cpu next s t →
      wp (if next.isNone then scheduleNextOnCpu cpu else return next) Q E t := by
    intro next t ht
    rw [wp_ite, wp_pure]
    refine ⟨fun hnone => ?_, fun _ => hQ next t ht.handed⟩
    rw [Option.isNone_iff_eq_none.mp hnone] at ht
    refine wp_scheduleNextOnCpu (ht.ids ▸ hids) fun next' u hu => hQ next' u ?_
    exact Handed.again ht.handed hu.handed
  cases yielded with
  | none =>
    simp only [yieldToAny, wp_bind, wp_modify]
    exact wp_scheduleNextOnCpu hids hagain
  | some id =>
    obtain ⟨u, hu, hstate⟩ := hready id rfl
    simp only [yieldToAny, wp_bind, wp_modify]
    refine wp_scheduleNextOnCpu ?_ fun next t ht => ?_
    · rw [ids_modifyTask s id (fun v => { v with state := .suspended }) fun _ => rfl]
      exact hids
    · rw [wp_bind, wp_modify]
      exact hagain next _ (ht.aside hu hstate)

/-- The task that a directed yield names may be given the CPU. -/
def Target (K : Special → Prop) (cpu : ℕ) (targetId : Option ℕ) (s : Scheduler) : Prop :=
  ∀ id ∈ targetId, ∃ u, s.task id = some u ∧ u.state = .ready ∧ taskCanRunOnCpu u cpu ∧
    K (.direct u.starved)

/-- Directed yields name only tasks that `K` allows. -/
def Directs (K : Special → Prop) (targetId : Option ℕ) (s : Scheduler) : Prop :=
  ∀ id ∈ targetId, ∀ u, s.task id = some u → u.state = .ready → K (.direct u.starved)

theorem wp_checkYieldTarget (hK : s.Directs K targetId) {Q : Unit → Scheduler → Prop}
    (hQ : s.Target K cpu targetId → Q () s) (hE : ∀ e, E e s) :
    wp (checkYieldTarget cpu targetId) Q E s := by
  cases targetId with
  | none => exact (wp_pure _).mpr (hQ fun _ h => by cases h)
  | some id =>
    simp only [checkYieldTarget, wp_bind, wp_get, wp_some?, wp_check]
    refine ⟨fun target htarget => ⟨fun hready => hQ ?_, fun _ => hE _⟩, fun _ => hE _⟩
    rintro _ ⟨⟩
    exact ⟨target, htarget, hready.1, hready.2.1, hK id rfl target htarget hready.1⟩

theorem wp_yieldNext (hids : s.ids.Nodup) (hrange : cpu < s.currentTaskIds.length)
    (hyielded : ∀ id ∈ yielded, ∃ u, s.task id = some u ∧ u.state = .ready)
    (htarget : s.Target K cpu targetId) {Q : Option ℕ → Scheduler → Prop}
    (hQ : ∀ next t, Handed K cpu next s t → Q next t) :
    wp (yieldNext cpu yielded targetId) Q E s := by
  cases targetId with
  | none => exact wp_yieldToAny hids hyielded hQ
  | some id =>
    obtain ⟨u, hu, hready, hcpu, hK⟩ := htarget id rfl
    simp only [yieldNext, yieldTo, wp_bind, wp_modify, wp_pure]
    exact hQ _ _ (handed_yieldTo hrange hu hready hcpu hK)

/-- A yield gives the CPU to a task that was ready, or to the yielding one. -/
theorem wp_yieldCurrentToOnCpu (hpreempt : K .preempt) (hs : s.Sound) (hK : s.Directs K targetId)
    (hQ : ∀ d t, Tracks K s t → (∀ id ∈ d.nextTaskId, t.RunningOn cpu id) → Q d t)
    (hE : ∀ e, E e s) : wp (yieldCurrentToOnCpu cpu targetId) Q E s := by
  simp only [yieldCurrentToOnCpu, ensureCpuId, wp_bind, wp_get, wp_check]
  refine ⟨fun hrange => wp_checkYieldTarget hK (fun htarget => ?_) hE, fun _ => hE _⟩
  simp only [wp_bind, wp_get, wp_modify]
  -- the indexes are rebuilt at the end
  have hfinish : ∀ (d : ScheduleDecision) (t : Scheduler), Tracks K s t →
      (∀ id ∈ d.nextTaskId, t.RunningOn cpu id) → Q d t.rebuildRunnableIndexes := by
    intro d t ht hpick
    have hcalm := calm_rebuildRunnableIndexes t
    refine hQ d _ (ht.trans (hcalm.evolves ht.sound)) fun id hid => ?_
    rw [RunningOn, hcalm.task]
    exact hpick id hid
  cases hrunning : ((s.currentTaskIds[cpu]?).join.bind s.task).filter (·.state == .running) with
  | none =>
    simp only [Option.map_none]
    refine wp_of_total (R := Calm) fun _ u hu => ?_
    have hidle : ∀ id, ¬ s.Runs cpu id := by
      intro id hrun
      obtain ⟨v, hv, hstate, -⟩ := hs.running cpu id hrun
      rw [join_eq_some_iff.mpr hrun, Option.bind_some, hv] at hrunning
      simp [hstate] at hrunning
    rw [wp_bind]
    refine wp_yieldNext (K := K) (hu.ids ▸ hs.ids) (hu.current ▸ hrange) (fun _ h => by cases h)
      (fun id hid => ?_) fun next t ht => ?_
    · rw [hu.task]
      exact htarget id hid
    · rw [wp_bind, wp_modify, wp_pure]
      refine hfinish _ t ((hu.evolves hs).trans (ht.tracks ?_)) ht.picks
      rw [setCurrent_idle fun id hrun => hidle id (by rw [Runs, ← hu.current]; exact hrun)]
      exact hs.calm hu
  | some current =>
    obtain ⟨hcurrent, hstate⟩ := filter_eq_some_iff.mp hrunning
    obtain ⟨hrun, htask⟩ := task_of_current hcurrent
    simp only [map_some]
    refine wp_of_total (R := Calm) fun _ u hu => ?_
    have hready : ∀ j, (s.modifyTask current.id fun v => { v with state := .ready }).task j =
        if j = current.id then (s.task j).map fun v => { v with state := .ready } else s.task j :=
      fun j => task_modifyTask s current.id j (fun v => { v with state := .ready }) fun _ => rfl
    have hids : u.ids.Nodup := by
      rw [hu.ids, ids_modifyTask s current.id (fun v => { v with state := .ready }) fun _ => rfl]
      exact hs.ids
    rw [wp_bind]
    refine wp_yieldNext (K := K) hids (hu.current ▸ hrange) ?_ (fun id hid => ?_) fun next t ht => ?_
    · rintro _ ⟨⟩
      refine ⟨{ current with state := .ready }, ?_, rfl⟩
      rw [hu.task, hready, if_pos rfl, htask, map_some]
    · obtain ⟨v, hv, hvready, hrest⟩ := htarget id hid
      refine ⟨v, ?_, hvready, hrest⟩
      rw [hu.task, hready, if_neg, hv]
      rintro rfl
      rw [hs.state_of_runs hrun hv] at hvready
      cases hvready
    · rw [wp_bind, wp_modify, wp_pure]
      refine hfinish _ t (hs.handOff hrun (fun v => { v with state := .ready }) (fun _ => rfl)
        (fun v _ hok hrunning => ?_) hu ht) ht.picks
      obtain ⟨hok, hne⟩ := ready_ok hok hrunning v.quantumLeft
      exact ⟨hok, hne, .single (.preempt v v.quantumLeft hrunning hpreempt)⟩

theorem wp_yieldCurrentToAtOnCpu (hpreempt : K .preempt) (hs : s.Sound)
    (hK : ∀ c t, Clocked nowNs s c → Tracks (fun _ => False) c t → t.Directs K targetId)
    (hQ : ∀ d c t, Clocked nowNs s c → Tracks K c t →
      (∀ id ∈ d.nextTaskId, t.RunningOn cpu id) → Q d t) (hE : ∀ e, E e s)
    (hE' : ∀ e c t, Clocked nowNs s c → Tracks K c t → E e t) :
    wp (yieldCurrentToAtOnCpu cpu targetId nowNs) Q E s := by
  simp only [yieldCurrentToAtOnCpu, ensureCpuId, wp_bind, wp_get, wp_check, wp_modify]
  refine ⟨fun _ => ⟨fun hle => ?_, fun _ => hE _⟩, fun _ => hE _⟩
  have hclock : Clocked nowNs s { s.accountRuntime nowNs with nowNs := nowNs } :=
    ⟨rfl, (mild_accountRuntime (K := fun _ => True) trivial nowNs s).current, rfl,
      UInt64.not_lt.mp hle⟩
  generalize ({ s.accountRuntime nowNs with nowNs := nowNs } : Scheduler) = c at hclock ⊢
  refine wp_of_total (R := Evolves fun _ => False) fun _ u hu => ?_
  have hdirects := hK c u hclock (hu (hclock.sound hs))
  have hu : Tracks K c u := (hu (hclock.sound hs)).mono fun _ h => h.elim
  exact wp_yieldCurrentToOnCpu hpreempt hu.sound hdirects
    (fun d t ht hpick => hQ d c t hclock (hu.trans ht) hpick) fun e => hE' e c u hclock hu

/-! ### Holding and releasing a process -/

theorem hold_ok (hheld : held.held) (fromStates : List TaskState) (processId : ℕ) (hu : u.Ok) :
    (u.hold held fromStates processId).Ok := by
  unfold SchedulerTask.hold
  split
  · refine ⟨fun _ => .inr (.inr hheld), ?_⟩
    rintro rfl
    cases hheld
  · exact hu

theorem release_ok (hheld : held.held) (processId) (hu : u.Ok) : (u.release held processId).Ok ∧
      ((u.release held processId).state = .running ↔ u.state = .running) ∧
      (u.release held processId).cpuAffinityMask = u.cpuAffinityMask := by
  unfold SchedulerTask.release
  split
  · rename_i hrelease
    refine ⟨⟨fun h => ?_, fun h => ?_⟩, ⟨fun h => ?_, fun h => ?_⟩, rfl⟩
    · exact .inl (if_pos h)
    · by_contra hnone
      rw [if_neg hnone] at h
      cases h
    · simp only at h
      split at h <;> cases h
    · rw [← hrelease.2, h] at hheld
      cases hheld
  · exact ⟨hu, Iff.rfl, rfl⟩

theorem id_hold (held : TaskState) (fromStates : List TaskState) (processId : ℕ)
    (u : SchedulerTask) : (u.hold held fromStates processId).id = u.id := by
  unfold SchedulerTask.hold
  split <;> rfl

theorem id_release (held : TaskState) (processId : ℕ) (u : SchedulerTask) :
    (u.release held processId).id = u.id := by
  unfold SchedulerTask.release
  split <;> rfl

/-- The tasks of a held process leave their CPUs. -/
theorem tracks_hold (hs : s.Sound) (hheld : held.held) (hK : K (.hold held))
    (hlive : .exited ∉ fromStates) (processId : ℕ) {m}
    (hm : m = { s with tasks := s.tasks.map (SchedulerTask.hold held fromStates processId) }) :
    Tracks K s (m.vacate fun id => (m.task id).any (·.state == held)) := by
  have htask : ∀ id, m.task id = (s.task id).map (SchedulerTask.hold held fromStates processId) :=
    fun id => hm ▸ task_mapTasks s id (id_hold held fromStates processId)
  have heach : Each (Changes K s.nowNs) s m :=
    hm ▸ each_mapTasks s (id_hold held fromStates processId) fun u =>
      .single (.hold u held fromStates processId hheld hlive hK)
  have hruns : ∀ cpu id, m.Runs cpu id ↔ s.Runs cpu id := fun cpu id => by rw [hm]; rfl
  have hnow : m.nowNs = s.nowNs := by rw [hm]
  refine ⟨hs.shrink heach.1 (fun cpu id hrun => ?_) (fun id v hv hrunning => ?_) fun id v hv => ?_,
    hnow, heach⟩
  · -- a task that keeps its CPU is not held
    obtain ⟨hrun, hfree⟩ := runs_vacate.mp hrun
    have hrun := (hruns cpu id).mp hrun
    refine ⟨hrun, ?_⟩
    obtain ⟨u, hu, hrunning, hcpu⟩ := hs.running cpu id hrun
    have hv : m.task id = some (u.hold held fromStates processId) := by
      rw [htask, hu, map_some]
    rw [hv, Option.any_some, beq_eq_false_iff_ne] at hfree
    have hsame : u.hold held fromStates processId = u := by
      unfold SchedulerTask.hold at hfree ⊢
      split
      · rename_i hholds
        rw [if_pos hholds] at hfree
        exact absurd rfl hfree
      · rfl
    rw [hsame] at hv
    exact ⟨u, hv, hrunning, hcpu⟩
  · have hv : m.task id = some v := hv
    have hv' := hv
    rw [htask] at hv'
    obtain ⟨u, hu, hsame⟩ := map_eq_some_iff.mp hv'
    have hfree : v.state ≠ held := by
      rw [hrunning]
      rintro rfl
      cases hheld
    have hstate : u.state = .running := by
      rw [← hsame] at hfree hrunning
      unfold SchedulerTask.hold at hfree hrunning
      split at hrunning
      · rename_i hholds
        rw [if_pos hholds] at hfree
        exact absurd rfl hfree
      · exact hrunning
    obtain ⟨cpu, hcpu⟩ := hs.occupied id u hu hstate
    refine ⟨cpu, runs_vacate.mpr ⟨(hruns cpu id).mpr hcpu, ?_⟩⟩
    rw [hv, Option.any_some, beq_eq_false_iff_ne]
    exact hfree
  · have hv : m.task id = some v := hv
    rw [htask] at hv
    obtain ⟨u, hu, rfl⟩ := map_eq_some_iff.mp hv
    exact hold_ok hheld fromStates processId (hs.ok id u hu)

/-- The tasks of a released process wait again or are ready. -/
theorem tracks_release (hs : s.Sound) (hheld : held.held) (hK : K (.release held)) (processId : ℕ) :
    Tracks K s { s with tasks := s.tasks.map (SchedulerTask.release held processId) } := by
  have htask := fun id => task_mapTasks s id (id_release held processId)
  refine ⟨hs.shrink (ids_mapTasks s (id_release held processId)) (fun cpu id hrun => ⟨hrun, ?_⟩)
    (fun id v hv hrunning => ?_) fun id v hv => ?_, rfl,
    each_mapTasks s (id_release held processId) fun u => .single (.release u held processId hheld hK)⟩
  · obtain ⟨u, hu, hrunning, hcpu⟩ := hs.running cpu id hrun
    obtain ⟨-, hstate, hmask⟩ := release_ok hheld processId (hs.ok id u hu)
    refine ⟨u.release held processId, by rw [htask, hu, map_some], hstate.mpr hrunning, ?_⟩
    rw [taskCanRunOnCpu, hmask]
    exact hcpu
  · rw [htask] at hv
    obtain ⟨u, hu, rfl⟩ := map_eq_some_iff.mp hv
    exact hs.occupied id u hu ((release_ok hheld processId (hs.ok id u hu)).2.1.mp hrunning)
  · rw [htask] at hv
    obtain ⟨u, hu, rfl⟩ := map_eq_some_iff.mp hv
    exact (release_ok hheld processId (hs.ok id u hu)).1

theorem evolves_holdProcess (hheld : held.held) (hK : K (.hold held))
    (hlive : .exited ∉ fromStates) (processId) :
    Moves (Evolves K) (holdProcess held fromStates processId) := by
  refine evolves_of fun s hs => ?_
  simp only [holdProcess, wp_bind, wp_modify]
  have hhold : Tracks K s _ := tracks_hold hs hheld hK hlive processId rfl
  exact (hhold.trans ((calm_rebuildRunnableIndexes _).evolves hhold.sound)).andThen

theorem evolves_releaseProcess (hheld : held.held) (hK : K (.release held)) (processId) :
    Moves (Evolves K) (releaseProcess held processId) := by
  refine evolves_of fun s hs => ?_
  simp only [releaseProcess, wp_bind, wp_modify]
  have hrelease : Tracks K s _ := tracks_release hs hheld hK processId
  exact (hrelease.trans ((calm_rebuildRunnableIndexes _).evolves hrelease.sound)).andThen

/-! ### Adding and forgetting tasks -/

theorem task_append (s : Scheduler) {task} (runtime : Accounting) (hnew : s.task task.id = none)
    (id : ℕ) :
    ({ s with runtime := runtime, tasks := s.tasks ++ [task] } : Scheduler).task id =
      if id = task.id then some task else s.task id := by
  unfold Scheduler.task at *
  simp only [List.find?_append]
  by_cases hid : id = task.id
  · subst hid
    rw [if_pos rfl, hnew, Option.none_or, List.find?_singleton, beq_self_eq_true, if_pos rfl]
  · rw [if_neg hid, List.find?_singleton, if_neg (by simpa using Ne.symm hid), Option.or_none]

/-- The first task makes the first CPU. -/
theorem Sound.firstCpu (hs : s.Sound) :
    Tracks K s (if s.currentTaskIds = [] then { s with currentTaskIds := [none] } else s) := by
  split
  · rename_i hempty
    have hnone : ∀ cpu id, ¬ s.Runs cpu id := by
      intro cpu id hrun
      rw [Runs, hempty] at hrun
      cases hrun
    refine ⟨hs.shrink rfl (fun cpu id hrun => ?_) (fun id v hv hrunning => ?_) hs.ok, rfl, .refl s⟩
    · have hrun : [none][cpu]? = some (some id) := hrun
      rw [List.getElem?_singleton] at hrun
      split at hrun <;> cases hrun
    · obtain ⟨cpu, hrun⟩ := hs.occupied id v hv hrunning
      exact absurd hrun (hnone cpu id)
  · exact hs.tracks

theorem Sound.append (hs : s.Sound) {task} (runtime) (hnew : s.task task.id = none)
    (hok : task.Ok) (hidle : task.state ≠ .running) :
    ({ s with runtime := runtime, tasks := s.tasks ++ [task] } : Scheduler).Sound := by
  have htask := task_append s runtime hnew
  refine ⟨?_, fun cpu id hrun => ?_, hs.apart, fun id v hv hrunning => ?_, fun id v hv => ?_⟩
  · show ((s.tasks ++ [task]).map (·.id)).Nodup
    rw [List.map_append, List.map_singleton]
    refine List.nodup_append.mpr ⟨hs.ids, List.nodup_singleton _, ?_⟩
    rintro id hid _ hid' rfl
    rw [List.mem_singleton] at hid'
    obtain ⟨u, hu, hid⟩ := List.mem_map.mp hid
    have hfound := task_of_mem hs.ids hu
    rw [hid, hid', hnew] at hfound
    cases hfound
  · obtain ⟨u, hu, hrest⟩ := hs.running cpu id hrun
    refine ⟨u, ?_, hrest⟩
    rw [htask, if_neg, hu]
    rintro rfl
    rw [hnew] at hu
    cases hu
  · rw [htask] at hv
    split at hv
    · exact absurd hrunning (Option.some.inj hv ▸ hidle)
    · exact hs.occupied id v hv hrunning
  · rw [htask] at hv
    split at hv
    · exact Option.some.inj hv ▸ hok
    · exact hs.ok id v hv

/-- The tasks of `s` and one new one, each changed by `R`. -/
structure Added (R : SchedulerTask → SchedulerTask → Prop) (task : SchedulerTask) (s t : Scheduler) :
    Prop where
  new : s.task task.id = none
  ids : t.ids = s.ids ++ [task.id]
  each : ∀ id, Option.Rel R (if id = task.id then some task else s.task id) (t.task id)

/-- The task was appended, then each task changed. -/
theorem Added.each_append {R : SchedulerTask → SchedulerTask → Prop} {task} (h : Added R task s t)
    (runtime : Accounting) :
    Each R { s with runtime := runtime, tasks := s.tasks ++ [task] } t := by
  refine ⟨?_, fun id => ?_⟩
  · show t.ids = (s.tasks ++ [task]).map (·.id)
    rw [h.ids, List.map_append]
    rfl
  · rw [task_append s runtime h.new]
    exact h.each id

theorem wp_addTask (hs : s.Sound) {task : SchedulerTask} (hok : task.Ok)
    (hidle : task.state ≠ .running) {Q : Unit → Scheduler → Prop}
    (hQ : ∀ t mask, t.Sound → t.nowNs = s.nowNs →
      Added (Changes K s.nowNs) { task with cpuAffinityMask := mask } s t → Q () t)
    (hE : ∀ e t, Tracks K s t → E e t) : wp (addTask task) Q E s := by
  simp only [addTask, wp_bind, wp_get, wp_check, wp_modify]
  refine ⟨fun hnew => ⟨fun _ => ?_, fun _ => hE _ _ hs.firstCpu⟩, fun _ => hE _ _ hs.tracks⟩
  have hnew : s.task task.id = none := by
    unfold Scheduler.task
    rw [List.find?_eq_none]
    intro u hu heq
    exact hnew (List.any_eq_true.mpr ⟨u, hu, heq⟩)
  have hfirst : Tracks K s _ := hs.firstCpu
  -- the first task makes the first CPU
  generalize (if s.currentTaskIds = [] then { s with currentTaskIds := [none] } else s) = s₁
    at hfirst ⊢
  refine wp_of_moves (R := Calm) (fun _ u hu => ?_)
    fun e u hu => hE e u (hfirst.trans (hu.evolves hfirst.sound))
  rw [wp_bind]
  refine wp_of_total (R := Calm) fun _ v hv => ?_
  have htracks := hfirst.trans ((trans_of Calm hu hv).evolves hfirst.sound)
  rw [wp_bind, wp_get, wp_bind, wp_lift]
  refine ⟨fun runtime _ => ?_, fun e _ => hE e v htracks⟩
  rw [wp_bind, wp_modify, wp_bind, wp_modify]
  have hnew' : v.task task.id = none := by
    have hrel := htracks.each.2 task.id
    rw [hnew] at hrel
    generalize v.task task.id = o at hrel ⊢
    cases hrel
    rfl
  -- only CPUs that are there stay in the mask
  generalize htask : ({ task with
    cpuAffinityMask := task.cpuAffinityMask &&& s₁.activeCpuMask } : SchedulerTask) = task'
  have hid : task'.id = task.id := htask ▸ rfl
  have hok' : task'.Ok := htask ▸ ⟨hok.waits, hok.blocked⟩
  have hidle' : task'.state ≠ .running := htask ▸ hidle
  have hsound : ({ v with runtime := runtime, tasks := v.tasks ++ [task'] } : Scheduler).Sound :=
    htracks.sound.append runtime (hid ▸ hnew') hok' hidle'
  have hcalm := calm_rebuildRunnableIndexes
    { v with runtime := runtime, tasks := v.tasks ++ [task'] }
  refine wp_of_total (R := Evolves K) fun _ t ht => ?_
  have hend := ht (hsound.calm hcalm)
  have hnow : (rebuildRunnableIndexes
    { v with runtime := runtime, tasks := v.tasks ++ [task'] }).nowNs =
      s.nowNs := hcalm.now.trans htracks.now
  refine hQ t (task.cpuAffinityMask &&& s₁.activeCpuMask) hend.sound (hend.now.trans hnow) ?_
  rw [htask]
  refine ⟨hid ▸ hnew, ?_, fun id => rel_trans ?_ (hnow ▸ hend.each.2 id)⟩
  · rw [hend.each.1, hcalm.ids, ← htracks.each.1]
    exact List.map_append
  · rw [hcalm.task, task_append v runtime (hid ▸ hnew')]
    split
    · exact rel_rfl _
    · exact htracks.each.2 id

theorem task_removeExited (hids : s.ids.Nodup) (id) :
    s.removeExited.task id = (s.task id).filter (·.state != .exited) := by
  cases hu : s.task id with
  | none =>
    have hnone := List.find?_eq_none.mp hu
    refine List.find?_eq_none.mpr fun u hu => hnone u (List.mem_filter.mp hu).1
  | some u =>
    by_cases hstate : u.state = .exited
    · rw [Option.filter_some, if_neg (by simp [hstate])]
      refine List.find?_eq_none.mpr fun v hv hvid => ?_
      obtain ⟨hmem, hlive⟩ := List.mem_filter.mp hv
      have hsame := task_of_mem hids hmem
      rw [beq_iff_eq.mp hvid, hu, some_inj] at hsame
      subst hsame
      simp [hstate] at hlive
    · rw [Option.filter_some, if_pos (by simp [hstate])]
      have hmem : u ∈ s.removeExited.tasks :=
        List.mem_filter.mpr ⟨List.mem_of_find?_eq_some hu, by simp [hstate]⟩
      have hids' : s.removeExited.ids.Nodup := hids.sublist (List.filter_sublist.map _)
      have hfound := task_of_mem hids' hmem
      rwa [id_of_task hu] at hfound

theorem Sound.removeExited (hs : s.Sound) : s.removeExited.Sound := by
  have htask := task_removeExited hs.ids
  have hruns : ∀ cpu id, s.removeExited.Runs cpu id ↔
      s.Runs cpu id ∧ (!s.removeExited.tasks.any (·.id == id)) = false := fun cpu id => by
    refine Iff.trans ?_ (runs_vacate (p := fun id => !s.removeExited.tasks.any (·.id == id)))
    simp only [Runs, Scheduler.removeExited, vacate, Bool.not_not]
  refine ⟨hs.ids.sublist (List.filter_sublist.map _), fun cpu id hrun => ?_,
    fun cpu cpu' id hrun hrun' => ?_, fun id v hv hrunning => ?_, fun id v hv => ?_⟩
  · obtain ⟨u, hu, hrunning, hcpu⟩ := hs.running cpu id ((hruns cpu id).mp hrun).1
    refine ⟨u, ?_, hrunning, hcpu⟩
    rw [htask, hu, Option.filter_some, if_pos (by simp [hrunning])]
  · exact hs.apart cpu cpu' id ((hruns cpu id).mp hrun).1 ((hruns cpu' id).mp hrun').1
  · have hmem := List.mem_of_find?_eq_some hv
    rw [htask] at hv
    obtain ⟨cpu, hrun⟩ := hs.occupied id v (filter_eq_some_iff.mp hv).1 hrunning
    refine ⟨cpu, (hruns cpu id).mpr ⟨hrun, ?_⟩⟩
    rw [Bool.not_eq_false', List.any_eq_true]
    exact ⟨v, hmem, beq_iff_eq.mpr (id_of_task (filter_eq_some_iff.mp hv).1)⟩
  · rw [htask] at hv
    exact hs.ok id v (filter_eq_some_iff.mp hv).1

end Operations

end Scheduler

end Bexos
