/-
The one-shot timer.

Hardware is programmed with `next_deadline_on_cpu` after every tick: the earliest of the end of
the running task's turn, of the waits and of the refills of exhausted servers.  A tick ends the
waits that are over and, when it chooses a successor, refills the servers.  A tick that leaves the
CPU to the task that has it chooses none.

* `Scheduler.Settled` — no server that does not run is due for a refill;
* `Scheduler.Overlooks` — the task on the CPU keeps it, and a server that could run there is due
  for a refill that no wake brings;
* `Scheduler.Ticked` — what a tick leaves at any time: no wait is over, and the turn of the task
  on the CPU ends;
* `Scheduler.timer_ahead_iff` — after a tick the timer lies ahead unless the tick overlooks a
  refill;
* `Scheduler.refill_overlooked` — a fair task in the middle of its quantum, and a server whose
  period is over.

Design notes: in the last nanosecond of the clock nothing lies ahead, since times saturate; there
only a CPU without any deadline has a timer that does not fire.
-/
import Bexos.SchedulerOps

namespace Bexos

open Prog SchedulerTask
open List (map_congr_left mem_filter mem_map mem_of_find?_eq_some)
open Option (map_eq_some_iff map_some some_inj)

/-! ### Servers -/

/-- The profile of the task's server was admitted. -/
def SchedulerTask.Valid (u : SchedulerTask) : Prop := ∀ d ∈ u.deadline, d.profile.valid

/-- The budget is used up, and a refill is due. -/
def EffectiveDeadline.Due (nowNs : UInt64) (d : EffectiveDeadline) : Prop :=
  d.remainingBudgetNs = 0 ∧ Scheduler.refillTime d ≤ nowNs
  deriving Decidable

/-- Special changes that leave the profile. -/
def Special.plain (k : Special) : Prop := k ≠ .profile

theorem Special.plain_spend : Special.plain .spend := by
  intro heq
  cases heq

namespace Scheduler

section Servers

variable {nowNs : UInt64} {u v : SchedulerTask}

theorem valid_of_changes (h : Changes Special.plain nowNs u v) (hu : u.Valid) : v.Valid := by
  intro d hd
  have hprofile := profile_of_changes (fun hK => hK rfl) h
  rw [hd, map_some] at hprofile
  obtain ⟨e, he, heq⟩ := map_eq_some_iff.mp hprofile.symm
  exact heq ▸ hu e he

/-- A server that is not due again after it was refilled. -/
theorem not_due_replenish (hu : u.Valid) (hidle : u.state ≠ .running)
    (hnow : nowNs ≠ UInt64.maxValue) {d} (hd : d ∈ (replenish nowNs u).deadline) :
    ¬ d.Due nowNs := by
  unfold replenish at hd
  rw [if_neg hidle] at hd
  split at hd
  · rename_i hnone
    rw [hnone] at hd
    cases hd
  · rename_i e he
    have hvalid := hu e he
    simp only [DeadlineProfile.valid, Bool.and_eq_true, decide_eq_true_eq] at hvalid
    obtain ⟨⟨hcapacity, hdeadline⟩, hperiod⟩ := hvalid
    rw [gt_iff_lt, UInt64.lt_iff_toNat_lt] at hcapacity
    rw [UInt64.le_iff_toNat_le] at hdeadline hperiod
    simp only at hd
    split at hd
    · -- a full budget
      rw [Option.mem_def, some_inj] at hd
      rintro ⟨hzero, -⟩
      rw [← hd] at hzero
      simp only at hzero
      rw [hzero] at hcapacity
      exact Nat.lt_irrefl _ hcapacity
    · -- the period is not over
      rename_i hperiods
      rw [he, Option.mem_def, some_inj] at hd
      subst hd
      rintro ⟨-, hdue⟩
      rw [gt_iff_lt, UInt64.lt_iff_toNat_lt, UInt64.toNat_div, UInt64.toNat_satSub,
        UInt64.toNat_satSub] at hperiods
      have hzero : (nowNs.toNat - (e.absoluteDeadlineNs.toNat - e.profile.deadlineNs.toNat)) /
          e.profile.periodNs.toNat = 0 := Nat.eq_zero_of_not_pos hperiods
      have hpos : 0 < e.profile.periodNs.toNat := Nat.lt_of_lt_of_le hcapacity (hdeadline.trans hperiod)
      have hshort := (Nat.div_eq_zero_iff_lt hpos).mp hzero
      refine UInt64.not_lt.mpr hdue (UInt64.lt_satAdd hnow ?_)
      rw [UInt64.toNat_satSub]
      omega

end Servers

/-! ### Validity along runs -/

section Validity

variable {s t : Scheduler}

/-- Every server was admitted. -/
def AllValid (s : Scheduler) : Prop := ∀ id u, s.task id = some u → u.Valid

theorem AllValid.each {nowNs} (hs : s.AllValid) (h : Each (Changes Special.plain nowNs) s t) :
    t.AllValid := by
  intro id v hv
  obtain ⟨u, hu, hchanges⟩ := exists_of_rel' (h.2 id) hv
  exact valid_of_changes hchanges (hs id u hu)

theorem AllValid.advance {op} (hsound : s.Sound) (hs : s.AllValid)
    (h : Advance Special.plain op s t) : t.AllValid := by
  cases h with
  | tracks h => exact hs.each h.each
  | clocked nowNs c _ hc h => exact (hs.each (hc.each Special.plain_spend)).each h.each
  | added _ u hfresh _ h =>
    refine AllValid.each (fun id v hv => ?_) (h.each_append s.runtime)
    rw [task_append s s.runtime h.new] at hv
    split at hv
    · rw [← Option.some.inj hv]
      intro d hd
      rw [hfresh.deadline] at hd
      cases hd
    · exact hs id v hv
  | cleaned _ h =>
    intro id v hv
    rw [h.task, task_removeExited hsound.ids] at hv
    exact hs id v (Option.filter_eq_some_iff.mp hv).1

theorem AllValid.modifyTask (hs : s.AllValid) (id) {f : SchedulerTask → SchedulerTask}
    (hid : ∀ u, (f u).id = u.id) (hf : ∀ u, (f u).Valid) : (s.modifyTask id f).AllValid := by
  intro j v hv
  rw [task_modifyTask s id j f hid] at hv
  split at hv
  · obtain ⟨u, -, rfl⟩ := map_eq_some_iff.mp hv
    exact hf u
  · exact hs j v hv

theorem AllValid.calm (hs : s.AllValid) (h : Calm s t) : t.AllValid := by
  intro id v hv
  rw [h.task] at hv
  exact hs id v hv

theorem wp_setProfile_valid (hs : s.AllValid) (id profile) :
    ends (setProfile id profile) AllValid s := by
  cases profile with
  | fair profile =>
    simp only [setProfile, setFairProfile, wp_bind, wp_get, wp_check, wp_modify]
    refine ⟨fun _ => ⟨fun _ => ?_, fun _ => hs⟩, fun _ => hs⟩
    refine AllValid.calm ?_ (calm_rebuildRunnableIndexes _)
    refine hs.modifyTask id (fun _ => rfl) fun u d hd => ?_
    cases hd
  | deadline profile =>
    simp only [setProfile, setDeadlineProfile, wp_bind, wp_get, wp_check, wp_some?, wp_unwrap,
      wp_modify, hs, implies_true, and_true]
    intro hvalid task _ allowed _ _ _
    refine AllValid.calm ?_ (calm_rebuildRunnableIndexes _)
    refine hs.modifyTask id (fun _ => rfl) fun u d hd => ?_
    rw [← Option.some.inj hd]
    exact hvalid

/-- Every operation leaves servers that were admitted. -/
theorem wp_exec_valid (op) (hsound : s.Sound) (hs : s.AllValid) :
    ends (exec op) (fun t => t.Sound ∧ t.AllValid) s := by
  by_cases hop : ∃ id profile, op = .setProfile id profile
  · obtain ⟨id, profile, rfl⟩ := hop
    have hnext := wp_exec (K := fun _ => True) hsound (.setProfile id profile) fun _ _ => trivial
    exact wp_mono (wp_and hnext (wp_setProfile_valid hs id profile))
      (fun _ _ h => ⟨h.1.1, h.2⟩) fun _ _ h => ⟨h.1.1, h.2⟩
  · have hplain : ∀ k, op.needs k → Special.plain k := by
      rintro k hk rfl
      cases op with
      | setProfile id profile => exact hop ⟨id, profile, rfl⟩
      | _ => simp [SchedOp.needs] at hk
    exact wp_mono (wp_exec hsound op hplain) (fun _ _ h => ⟨h.1, hs.advance hsound h.2⟩)
      fun _ _ h => ⟨h.1, hs.advance hsound h.2⟩

theorem Reaches.allValid {C : Scheduler → SchedOp → Prop} (hs : Reaches C s) : s.AllValid := by
  have hboth : s.Sound ∧ s.AllValid := hs.invariant
    (I := fun s => s.Sound ∧ s.AllValid)
    (fun maxCpus s₀ h => ⟨sound_of_withCpuCount h, fun id u hu => ?_⟩)
    fun s₀ op h _ => wp_exec_valid op h.1 h.2
  · exact hboth.2
  · have hmem := mem_of_find?_eq_some hu
    rw [(tasks_of_withCpuCount h).1] at hmem
    cases hmem

end Validity

/-! ### Refills -/

/-- No server that does not run is due for a refill. -/
def Settled (s : Scheduler) : Prop :=
  ∀ id u, s.task id = some u → u.state ≠ .running → ∀ d ∈ u.deadline, ¬ d.Due s.nowNs

/-- A sound scheduler with admitted servers whose clock has not stopped. -/
structure Paced (s : Scheduler) : Prop where
  sound : s.Sound
  valid : s.AllValid
  now : s.nowNs ≠ UInt64.maxValue

section Refills

variable {s t : Scheduler}

theorem Paced.tracks (hs : s.Paced) (h : Tracks Special.plain s t) : t.Paced :=
  ⟨h.sound, hs.valid.each h.each, h.now ▸ hs.now⟩

theorem Settled.calm (hs : s.Settled) (h : Calm s t) : t.Settled := by
  intro id u hu
  rw [h.task] at hu
  rw [h.now]
  exact hs id u hu

theorem Dispatched.settled {cpu next} (h : Dispatched cpu next s t) (hvalid : s.AllValid)
    (hnow : s.nowNs ≠ UInt64.maxValue) : t.Settled := by
  intro id v hv hidle d hd
  rw [h.now]
  rw [h.task] at hv
  obtain ⟨u, hu, rfl⟩ := map_eq_some_iff.mp hv
  split at hidle
  · exact absurd rfl hidle
  · rename_i hnext
    rw [if_neg hnext] at hd
    have hstance := (origin_replenish s.nowNs u).2
    have hstate : (replenish s.nowNs u).state = u.state := congrArg Prod.fst hstance
    exact not_due_replenish (hvalid id u hu) (hstate ▸ hidle) hnow hd

theorem Settled.wakes (hs : s.Settled) (id) : (s.modifyTask id wake).Settled := by
  intro j v hv hidle d hd
  rw [task_modifyTask s id j wake id_wake] at hv
  split at hv
  · obtain ⟨u, hu, rfl⟩ := map_eq_some_iff.mp hv
    rw [deadline_wake] at hd
    refine hs j u hu (fun hrun => hidle ?_) d hd
    unfold wake
    rw [hrun]
    exact hrun
  · exact hs j v hv hidle d hd

/-- A CPU that runs nothing gets the servers refilled. -/
theorem wp_fillIdleCpus_settled (hs : s.Paced) (hidle : s.Settled ∨ none ∈ s.currentTaskIds) :
    wp fillIdleCpus (fun _ t => t.Paced ∧ t.nowNs = s.nowNs ∧ t.Settled) (fun _ _ => False) s := by
  simp only [fillIdleCpus, wp_bind, wp_get]
  refine wp_forEach (fun rest t => t.Paced ∧ t.nowNs = s.nowNs ∧
    (t.Settled ∨ ∃ cpu ∈ rest, t.currentTaskIds[cpu]? = some none)) ?_ ?_ _ _ ⟨hs, rfl, ?_⟩
  · rintro cpu rest t ⟨ht, hnow, hor⟩
    have hevolves : Moves (Evolves Special.plain) (fillIdleCpu cpu) := inferInstance
    have hsettles : wp (fillIdleCpu cpu)
        (fun _ u => u.Settled ∨ ∃ cpu ∈ rest, u.currentTaskIds[cpu]? = some none)
        (fun _ _ => False) t := by
      simp only [fillIdleCpu, wp_bind, wp_get, wp_unwrap, wp_ite, wp_pure]
      intro current hcurrent
      refine ⟨fun _ => ?_, fun hbusy => ?_⟩
      · exact wp_scheduleNextOnCpu ht.sound.ids fun next u hu =>
          (wp_pure _).mpr (.inl (hu.settled ht.valid ht.now))
      · refine hor.imp_right ?_
        rintro ⟨c, hc, hnone⟩
        rcases List.mem_cons.mp hc with rfl | hc
        · rw [hcurrent, some_inj] at hnone
          exact absurd (by rw [hnone]; rfl) hbusy
        · exact ⟨c, hc, hnone⟩
    refine wp_mono (wp_and (hevolves.run t) hsettles) (fun _ u hu => ?_) fun _ _ h => h.2
    have htracks := hu.1 ht.sound
    exact ⟨ht.tracks htracks, htracks.now.trans hnow, hu.2⟩
  · rintro t ⟨ht, hnow, hor⟩
    refine ⟨ht, hnow, hor.resolve_right ?_⟩
    rintro ⟨_, hmem, -⟩
    cases hmem
  · refine hidle.imp_right fun hnone => ?_
    obtain ⟨cpu, hcpu, hget⟩ := List.mem_iff_getElem.mp hnone
    refine ⟨cpu, List.mem_range.mpr (Nat.lt_of_lt_of_le hcpu (Nat.le_max_left _ _)), ?_⟩
    rw [List.getElem?_eq_getElem hcpu, hget]

theorem wp_wakeTask_settled (hs : s.Paced) (hidle : s.Settled ∨ none ∈ s.currentTaskIds) {id}
    (hid : (s.task id).isSome) :
    wp (wakeTask id) (fun _ t => t.Paced ∧ t.nowNs = s.nowNs ∧ t.Settled) (fun _ _ => False) s := by
  simp only [wakeTask, wp_bind, wp_get, wp_check, wp_modify]
  refine ⟨fun _ => ?_, fun hnone => hnone hid⟩
  have hcalm := calm_rebuildRunnableIndexes (s.modifyTask id wake)
  have hwake : Tracks Special.plain s (s.modifyTask id wake).rebuildRunnableIndexes :=
    (tracks_wake hs.sound id).trans (hcalm.evolves (tracks_wake (K := Special.plain) hs.sound id).sound)
  have hfill := wp_fillIdleCpus_settled (hs.tracks hwake) ?_
  · refine wp_mono hfill fun _ t ht => ⟨ht.1, ht.2.1.trans hwake.now, ht.2.2⟩
  · rcases hidle with hsettled | hnone
    · exact .inl ((hsettled.wakes id).calm hcalm)
    · right
      rw [hcalm.current]
      exact hnone

/-- Once the servers are refilled, more wakes leave them so. -/
theorem wp_wakeTasks_settled (ids) : ∀ {s : Scheduler}, s.Paced → s.Settled →
    wp (wakeTasks ids) (fun _ t => t.Paced ∧ t.nowNs = s.nowNs ∧ t.Settled) (fun _ _ => False) s := by
  intro s hs hsettled
  refine wp_forEach (fun _ t => t.Paced ∧ t.nowNs = s.nowNs ∧ t.Settled) ?_ (fun _ h => h) ids s
    ⟨hs, rfl, hsettled⟩
  rintro id rest t ⟨ht, hnow, hsettled⟩
  rw [wp_bind, wp_attempt]
  by_cases hid : (t.task id).isSome
  · refine wp_mono (wp_wakeTask_settled ht (.inl hsettled) hid) fun _ u hu => ?_
    exact (wp_pure _).mpr ⟨hu.1, hu.2.1.trans hnow, hu.2.2⟩
  · simp only [wakeTask, wp_bind, wp_get, wp_check]
    exact ⟨fun h => absurd h hid, fun _ => (wp_pure _).mpr ⟨ht, hnow, hsettled⟩⟩

end Refills

/-! ### Wakes while every CPU is busy -/

/-- What becomes of a task when the waits that are over end. -/
def rouse (nowNs : UInt64) (u : SchedulerTask) : SchedulerTask :=
  if u.blockReason.any (BlockReason.expired nowNs) then wake u else u

section Busy

variable {s t : Scheduler}

theorem wake_wake (u) : wake (wake u) = wake u := by
  obtain ⟨_, _, _, _, _, _, _, _, state⟩ := u
  cases state <;> rfl

/-- Only the tasks differ, and they are given. -/
structure Holds (tasks : List SchedulerTask) (s t : Scheduler) : Prop where
  tasks : t.tasks = tasks
  current : t.currentTaskIds = s.currentTaskIds
  now : t.nowNs = s.nowNs

theorem wp_fillIdleCpus_busy (hbusy : none ∉ s.currentTaskIds) :
    wp fillIdleCpus (fun _ t => t = s) (fun _ _ => False) s := by
  simp only [fillIdleCpus, wp_bind, wp_get]
  refine wp_forEach (fun _ t => t = s) ?_ (fun _ h => h) _ _ rfl
  rintro cpu _ _ rfl
  simp only [fillIdleCpu, wp_bind, wp_get, wp_unwrap, wp_ite, wp_pure]
  intro current hcurrent
  refine ⟨fun hnone => absurd ?_ hbusy, fun _ => trivial⟩
  rw [Option.isNone_iff_eq_none] at hnone
  exact hnone ▸ List.mem_of_getElem? hcurrent

theorem wp_wakeTask_busy (hnodup : s.ids.Nodup) (hbusy : none ∉ s.currentTaskIds) (j) :
    wp (attempt (wakeTask j) : SchedM (Except SchedulerError Unit))
      (fun _ => Holds (s.tasks.map fun u => if u.id = j then wake u else u) s)
      (fun _ _ => False) s := by
  simp only [wp_attempt, wakeTask, wp_bind, wp_get, wp_check, wp_modify]
  refine ⟨fun _ => ?_, fun hnone => ⟨?_, rfl, rfl⟩⟩
  · have hcalm := calm_rebuildRunnableIndexes (s.modifyTask j wake)
    refine wp_mono (wp_fillIdleCpus_busy (hcalm.current ▸ hbusy)) ?_
    rintro _ _ rfl
    exact ⟨hcalm.tasks.trans (updateFirst_eq_map (k := fun u : SchedulerTask => u.id) j hnodup),
      hcalm.current, hcalm.now⟩
  · have hsame : ∀ u ∈ s.tasks, (if u.id = j then wake u else u) = u := by
      intro u hu
      refine if_neg fun hid => hnone ?_
      rw [← hid, task_of_mem hnodup hu]
      rfl
    rw [map_congr_left hsame, List.map_id']

theorem wp_wakeTasks_busy (ids) : ∀ {s : Scheduler}, s.ids.Nodup → none ∉ s.currentTaskIds →
    wp (wakeTasks ids)
      (fun _ => Holds (s.tasks.map fun u => if u.id ∈ ids then wake u else u) s)
      (fun _ _ => False) s := by
  induction ids with
  | nil =>
    intro s _ _
    refine (wp_pure _).mpr ⟨?_, rfl, rfl⟩
    rw [map_congr_left fun u _ => if_neg List.not_mem_nil, List.map_id']
  | cons j ids ih =>
    intro s hnodup hbusy
    simp only [wakeTasks, forEach, wp_bind]
    refine wp_mono (wp_wakeTask_busy hnodup hbusy j) fun _ t ht => ?_
    have hids : t.ids = s.ids := by
      rw [Scheduler.ids, ht.tasks]
      refine ids_mapTasks s (f := fun u => if u.id = j then wake u else u) fun u => ?_
      split
      · exact id_wake u
      · rfl
    refine (wp_pure _).mpr (wp_mono (ih (hids ▸ hnodup) (ht.current ▸ hbusy)) fun _ v hv => ?_)
    refine ⟨?_, hv.current.trans ht.current, hv.now.trans ht.now⟩
    rw [hv.tasks, ht.tasks, List.map_map]
    refine map_congr_left fun u _ => ?_
    simp only [Function.comp_apply, List.mem_cons]
    by_cases hj : u.id = j
    · rw [if_pos hj, wake_wake, ite_self, if_pos (.inl hj)]
    · rw [if_neg hj]
      exact if_congr (or_iff_right hj).symm rfl rfl

end Busy

/-! ### Waits that are over -/

/-- No wait is over. -/
def Awake (s : Scheduler) : Prop :=
  ∀ id u, s.task id = some u → ¬ u.blockReason.any (BlockReason.expired s.nowNs)

/-- A wait is over, and there is a CPU to fill. -/
def Stirs (nowNs : UInt64) (s : Scheduler) : Prop :=
  (∃ u ∈ s.tasks, u.blockReason.any (BlockReason.expired nowNs)) ∧ none ∈ s.currentTaskIds
  deriving Decidable

section Waits

variable {s t : Scheduler} {u v : SchedulerTask}

/-- Without special changes a task does not begin to wait. -/
theorem waits_of_change {nowNs} (h : Change (fun _ => False) nowNs u v) :
    v.blockReason = none ∨ v.blockReason = u.blockReason := by
  cases h with
  | refill => exact .inr (congrArg (·.2.1) (origin_replenish nowNs u).2)
  | charge => exact .inr (congrArg (·.2.1) (origin_chargeTick nowNs u).2)
  | wake =>
    unfold wake
    split
    · exact .inl rfl
    · exact .inl rfl
    · exact .inl rfl
    · exact .inl rfl
    · exact .inr rfl
  | exit => exact .inl rfl
  | block _ _ hK | hold _ _ _ _ _ hK | release _ _ _ hK | suspend hK => exact hK.elim
  | _ => exact .inr rfl

theorem waits_of_changes {nowNs} (h : Changes (fun _ => False) nowNs u v) :
    v.blockReason = none ∨ v.blockReason = u.blockReason := by
  induction h with
  | refl => exact .inr rfl
  | tail _ hchange ih =>
    rcases waits_of_change hchange with hnone | hsame
    · exact .inl hnone
    · rw [hsame]
      exact ih

/-- A task that was woken does not wait. -/
theorem wp_wakeTask_waits (hs : s.Sound) (j) :
    wp (wakeTask j) (fun _ t => ∀ v, t.task j = some v → v.blockReason = none)
      (fun _ _ => s.task j = none) s := by
  simp only [wakeTask, wp_bind, wp_get, wp_check, wp_modify]
  refine ⟨fun _ => ?_, fun hnone => Option.not_isSome_iff_eq_none.mp hnone⟩
  have hcalm := calm_rebuildRunnableIndexes (s.modifyTask j wake)
  have hsound := (tracks_wake (K := fun _ => False) hs j).sound.calm hcalm
  refine wp_of_total (R := Evolves fun _ => False) fun _ t ht v hv => ?_
  obtain ⟨w, hw, hchanges⟩ := exists_of_rel' ((ht hsound).each.2 j) hv
  rw [hcalm.task, task_modifyTask s j j wake id_wake, if_pos rfl] at hw
  obtain ⟨u, hu, rfl⟩ := map_eq_some_iff.mp hw
  have hwoken := (wake_ok (hs.ok j u hu)).2.2.2
  rcases waits_of_changes hchanges with hnone | hsame
  · exact hnone
  · rw [hsame, hwoken]

theorem wp_wakeTasks_waits (ids) : ∀ {s : Scheduler}, s.Sound →
    wp (wakeTasks ids) (fun _ t => ∀ j ∈ ids, ∀ v, t.task j = some v → v.blockReason = none)
      (fun _ _ => False) s := by
  induction ids with
  | nil => exact fun _ => (wp_pure _).mpr fun _ hj => absurd hj List.not_mem_nil
  | cons j ids ih =>
    intro s hs
    simp only [wakeTasks, forEach, wp_bind, wp_attempt]
    have hmoves : Moves (Evolves fun _ => False) (wakeTask j) := inferInstance
    have hrest : Moves (Evolves fun _ => False) (wakeTasks ids) := inferInstance
    -- what the wakes after this one leave
    have hlater : ∀ t : Scheduler, t.Sound → (∀ v, t.task j = some v → v.blockReason = none) →
        wp (wakeTasks ids) (fun _ u => ∀ i ∈ j :: ids, ∀ v, u.task i = some v →
          v.blockReason = none) (fun _ _ => False) t := by
      intro t ht hnone
      refine wp_mono (wp_and (hrest.run t) (ih ht)) (fun _ u hu i hi v hv => ?_) fun _ _ h => h.2
      rcases List.mem_cons.mp hi with rfl | hi
      · obtain ⟨w, hw, hchanges⟩ := exists_of_rel' ((hu.1 ht).each.2 i) hv
        rcases waits_of_changes hchanges with hv | hsame
        · exact hv
        · rw [hsame, hnone w hw]
      · exact hu.2 i hi v hv
    refine wp_mono (wp_and (hmoves.run s) (wp_wakeTask_waits hs j)) (fun _ t ht => ?_)
      fun _ t ht => ?_
    · exact (wp_pure _).mpr (hlater t (ht.1 hs).sound ht.2)
    · refine (wp_pure _).mpr (hlater t (ht.1 hs).sound fun v hv => ?_)
      obtain ⟨w, hw, -⟩ := exists_of_rel' ((ht.1 hs).each.2 j) hv
      rw [ht.2] at hw
      cases hw

/-- The tasks whose waits are over. -/
theorem mem_expired (hids : s.ids.Nodup) (nowNs) (hu : u ∈ s.tasks) :
    u.id ∈ (s.tasks.filter (·.blockReason.any (BlockReason.expired nowNs))).map (·.id) ↔
      u.blockReason.any (BlockReason.expired nowNs) = true := by
  rw [mem_map]
  constructor
  · rintro ⟨v, hv, hid⟩
    obtain ⟨hv, hexpired⟩ := mem_filter.mp hv
    have hsame := task_of_mem hids hv
    rw [hid, task_of_mem hids hu, some_inj] at hsame
    exact hsame ▸ hexpired
  · exact fun hexpired => ⟨u, mem_filter.mpr ⟨hu, hexpired⟩, rfl⟩

/-- The waits that are over end. -/
theorem wp_wakeExpiredDeadlines_awake (hs : s.Sound) :
    wp wakeExpiredDeadlines (fun _ t => Tracks (fun _ => False) s t ∧ t.Awake)
      (fun _ _ => False) s := by
  simp only [wakeExpiredDeadlines, wp_bind, wp_get]
  generalize hids : (s.tasks.filter
    (·.blockReason.any (BlockReason.expired s.nowNs))).map (·.id) = ids
  have hmoves : Moves (Evolves fun _ => False) (wakeTasks ids) := inferInstance
  refine wp_mono (wp_and (hmoves.run s) (wp_wakeTasks_waits ids hs)) (fun _ t ht => ?_)
    fun _ _ h => h.2
  have htracks := ht.1 hs
  refine ⟨htracks, fun j v hv hexpired => ?_⟩
  obtain ⟨u, hu, hchanges⟩ := exists_of_rel' (htracks.each.2 j) hv
  have huid := id_of_task hu
  by_cases hj : j ∈ ids
  · rw [ht.2 j hj v hv] at hexpired
    cases hexpired
  · rcases waits_of_changes hchanges with hend | hsame
    · rw [hend] at hexpired
      cases hexpired
    · rw [hsame, htracks.now] at hexpired
      exact hj (hids ▸ huid ▸ (mem_expired hs.ids _ (mem_of_find?_eq_some hu)).mpr hexpired)

/-- The servers are refilled if the end of a wait gives a CPU something to do; otherwise nothing
but the waiting tasks changes. -/
theorem wp_wakeExpiredDeadlines_timer (hs : s.Paced) :
    wp wakeExpiredDeadlines (fun _ t => (s.Stirs s.nowNs → t.Settled) ∧
      (¬ s.Stirs s.nowNs → Holds (s.tasks.map (rouse s.nowNs)) s t)) (fun _ _ => False) s := by
  simp only [wakeExpiredDeadlines, wp_bind, wp_get]
  have hmem := fun u hu => mem_expired (u := u) hs.sound.ids s.nowNs hu
  generalize hids : (s.tasks.filter
    (·.blockReason.any (BlockReason.expired s.nowNs))).map (·.id) = ids at hmem ⊢
  by_cases hstirs : s.Stirs s.nowNs
  · -- the first wake fills a CPU
    have hsettles : wp (wakeTasks ids) (fun _ t => t.Settled) (fun _ _ => False) s := by
      obtain ⟨⟨u, hu, hexpired⟩, hidle⟩ := hstirs
      cases ids with
      | nil => exact absurd ((hmem u hu).mpr hexpired) List.not_mem_nil
      | cons j rest =>
        have hj : (s.task j).isSome := by
          have hjmem : j ∈ s.ids := by
            have hsub : j ∈ (s.tasks.filter
              (·.blockReason.any (BlockReason.expired s.nowNs))).map (·.id) :=
              hids ▸ List.mem_cons_self
            obtain ⟨v, hv, rfl⟩ := mem_map.mp hsub
            exact List.mem_map_of_mem (mem_filter.mp hv).1
          obtain ⟨v, hv, rfl⟩ := mem_map.mp hjmem
          rw [task_of_mem hs.sound.ids hv]
          rfl
        simp only [wakeTasks, forEach, wp_bind, wp_attempt]
        refine wp_mono (wp_wakeTask_settled hs (.inr hidle) hj) fun _ t ht => ?_
        refine (wp_pure _).mpr ?_
        exact wp_mono (wp_wakeTasks_settled rest ht.1 ht.2.2) fun _ _ h => h.2.2
    exact wp_mono hsettles fun _ t ht => ⟨fun _ => ht, fun h => absurd hstirs h⟩
  · have hholds : wp (wakeTasks ids) (fun _ => Holds (s.tasks.map (rouse s.nowNs)) s)
        (fun _ _ => False) s := by
      by_cases hidle : none ∈ s.currentTaskIds
      · -- no wait is over
        have hnil : ids = [] := by
          rw [List.eq_nil_iff_forall_not_mem]
          intro j hj
          rw [← hids] at hj
          obtain ⟨u, hu, -⟩ := mem_map.mp hj
          obtain ⟨hu, hexpired⟩ := mem_filter.mp hu
          exact hstirs ⟨⟨u, hu, hexpired⟩, hidle⟩
        subst hnil
        refine (wp_pure _).mpr ⟨?_, rfl, rfl⟩
        have hsame : ∀ u ∈ s.tasks, rouse s.nowNs u = u := fun u hu =>
          if_neg fun hexpired => absurd ((hmem u hu).mpr hexpired) List.not_mem_nil
        rw [map_congr_left hsame, List.map_id']
      · refine wp_mono (wp_wakeTasks_busy ids hs.sound.ids hidle) fun _ t ht => ?_
        refine ⟨ht.tasks.trans (map_congr_left fun u hu => ?_), ht.current, ht.now⟩
        exact if_congr (hmem u hu) rfl rfl
    exact wp_mono hholds fun _ t ht => ⟨fun h => absurd h hstirs, fun _ => ht⟩

theorem wp_wakeExpiredDeadlines (hs : s.Sound) (hvalid : s.AllValid) :
    wp wakeExpiredDeadlines (fun _ t => (Tracks (fun _ => False) s t ∧ t.Awake) ∧
      (s.nowNs ≠ UInt64.maxValue → (s.Stirs s.nowNs → t.Settled) ∧
        (¬ s.Stirs s.nowNs → Holds (s.tasks.map (rouse s.nowNs)) s t))) (fun _ _ => False) s := by
  have hawakes := wp_wakeExpiredDeadlines_awake hs
  by_cases hlast : s.nowNs = UInt64.maxValue
  · exact wp_mono hawakes fun _ _ h => ⟨h, fun hnow => absurd hlast hnow⟩
  · exact wp_mono (wp_and hawakes (wp_wakeExpiredDeadlines_timer ⟨hs, hvalid, hlast⟩))
      (fun _ _ h => ⟨h.1, fun _ => h.2⟩) fun _ _ h => h.1

end Waits

/-! ### The timer -/

/-- The timer of a CPU lies ahead, if it is set. -/
def TimerAhead (s : Scheduler) (cpu : ℕ) (nowNs : UInt64) : Prop :=
  ∃ o, s.nextDeadlineOnCpu cpu = .ok o ∧ ∀ x ∈ o, nowNs < x

/-- A server that could run on the CPU is due for a refill. -/
def HasDue (s : Scheduler) (cpu : ℕ) (nowNs : UInt64) : Prop :=
  ∃ u ∈ s.tasks, u.state = .ready ∧ taskCanRunOnCpu u cpu ∧ ∃ d ∈ u.deadline, d.Due nowNs

/-- The task on the CPU keeps it at a tick. -/
def Continues (s : Scheduler) (cpu : ℕ) (nowNs : UInt64) : Prop :=
  ∃ u ∈ s.currentOnCpu cpu, keepsCpu nowNs (chargeTick nowNs u)
  deriving Decidable

section Timer

variable {s t : Scheduler} {cpu : ℕ} {nowNs : UInt64}

theorem lt_minByKey_iff (xs) : (∀ x ∈ minByKey id xs, nowNs < x) ↔ ∀ x ∈ xs, nowNs < x := by
  induction xs with
  | nil => simp [minByKey]
  | cons a xs ih =>
    rw [List.forall_mem_cons, ← ih, minByKey]
    cases minByKey id xs with
    | none => simp
    | some b =>
      simp only [id_eq, Option.mem_def, Option.some.injEq, forall_eq']
      split
      · rename_i hlt
        simp only [Option.some.injEq, forall_eq']
        exact ⟨fun h => ⟨UInt64.lt_trans h hlt, h⟩, fun h => h.2⟩
      · rename_i hle
        simp only [Option.some.injEq, forall_eq']
        exact ⟨fun h => ⟨h, UInt64.lt_of_lt_of_le h (UInt64.not_lt.mp hle)⟩, fun h => h.1⟩

theorem expired_iff {r} : BlockReason.expired nowNs r = true ↔ ∃ x ∈ waitDeadline r, x ≤ nowNs := by
  cases r <;> simp [BlockReason.expired, waitDeadline]

/-- What is left to check once the running task and the waits are ahead. -/
theorem timerAhead_iff (hids : s.ids.Nodup) (hcpu : cpu < s.currentTaskIds.length)
    (hrunning : ∀ x ∈ s.runningDeadline cpu, s.nowNs < x) (hawake : s.Awake) :
    s.TimerAhead cpu s.nowNs ↔ ¬ s.HasDue cpu s.nowNs := by
  unfold TimerAhead nextDeadlineOnCpu
  simp only [if_pos hcpu, Except.ok.injEq, exists_eq_left', lt_minByKey_iff, List.mem_append,
    Option.mem_toList, List.mem_filterMap, pendingRefills, mem_map, mem_filter,
    Bool.and_eq_true, beq_iff_eq]
  constructor
  · rintro hahead ⟨u, hu, hready, hallowed, d, hd, hzero, hdue⟩
    refine UInt64.not_lt.mpr hdue (hahead _ (.inr ⟨d, ⟨u, ⟨hu, hready, hallowed⟩, ?_⟩, rfl⟩))
    exact Option.filter_eq_some_iff.mpr ⟨hd, beq_iff_eq.mpr hzero⟩
  · rintro hnone x ((hx | ⟨u, hu, hx⟩) | ⟨d, ⟨u, ⟨hu, hready, hallowed⟩, hd⟩, rfl⟩)
    · exact hrunning x hx
    · by_contra hlate
      obtain ⟨r, hr, hx⟩ := Option.bind_eq_some_iff.mp hx
      refine hawake u.id u (task_of_mem hids hu) ?_
      rw [hr, Option.any_some, expired_iff]
      exact ⟨x, hx, UInt64.not_lt.mp hlate⟩
    · by_contra hlate
      obtain ⟨hd, hzero⟩ := Option.filter_eq_some_iff.mp hd
      exact hnone ⟨u, hu, hready, hallowed, d, hd, beq_iff_eq.mp hzero, UInt64.not_lt.mp hlate⟩

theorem Settled.not_hasDue (hs : s.Settled) (hids : s.ids.Nodup) : ¬ s.HasDue cpu s.nowNs := by
  rintro ⟨u, hu, hready, -, d, hd, hdue⟩
  exact hs u.id u (task_of_mem hids hu) (by rw [hready]; decide) d hd hdue

/-- Waits as before. -/
theorem Awake.of_same (hs : s.Awake) (hnow : t.nowNs = s.nowNs)
    (h : ∀ id v, t.task id = some v → ∃ u, s.task id = some u ∧ v.blockReason = u.blockReason) :
    t.Awake := by
  intro id v hv
  obtain ⟨u, hu, hsame⟩ := h id v hv
  rw [hsame, hnow]
  exact hs id u hu

/-- What a tick leaves at any time: no wait is over, and the turn of the task on the CPU ends. -/
structure Ticked (cpu : ℕ) (t : Scheduler) : Prop where
  ids : t.ids.Nodup
  range : cpu < t.currentTaskIds.length
  awake : t.Awake
  turn : (t.currentOnCpu cpu).isSome → (t.runningDeadline cpu).isSome

theorem Dispatched.currentOnCpu {next} (h : Dispatched cpu next s t) :
    t.currentOnCpu cpu = next.bind t.task := by
  unfold Scheduler.currentOnCpu
  rw [h.current, List.getElem?_set_self h.range]
  rfl

theorem Dispatched.ticked {next} (h : Dispatched cpu next s t) (hids : s.ids.Nodup)
    (hawake : s.Awake) : t.Ticked cpu := by
  refine ⟨h.ids ▸ hids, ?_, ?_, fun hsome => ?_⟩
  · rw [h.current, List.length_set]
    exact h.range
  · refine hawake.of_same h.now fun id v hv => ?_
    rw [h.task] at hv
    obtain ⟨u, hu, rfl⟩ := map_eq_some_iff.mp hv
    refine ⟨u, hu, ?_⟩
    have hsame : (replenish s.nowNs u).blockReason = u.blockReason :=
      congrArg (·.2.1) (origin_replenish s.nowNs u).2
    split <;> exact hsame
  · obtain ⟨v, hv⟩ := Option.isSome_iff_exists.mp hsome
    unfold runningDeadline
    rw [hv, Option.bind_some]
    rw [h.currentOnCpu] at hv
    obtain ⟨id, hid, hfound⟩ := Option.bind_eq_some_iff.mp hv
    obtain ⟨u, hu, -⟩ := h.chosen id hid
    rw [h.task, hu, map_some, if_pos hid, some_inj] at hfound
    subst hfound
    split
    · rfl
    · -- a quantum that begins now ends after the first nanosecond
      rw [if_pos]
      · rfl
      · rw [SchedulerTask.run]
        have hquantum : 1 ≤ DEFAULT_FAIR_QUANTUM_NS.toNat := by decide
        generalize DEFAULT_FAIR_QUANTUM_NS = quantum at hquantum ⊢
        have hle : 1 ≤ s.nowNs.satAdd quantum :=
          UInt64.le_satAdd_of_le (hquantum.trans (Nat.le_add_left _ _))
        exact fun hzero => absurd (hzero ▸ hle : (1 : UInt64) ≤ 0) (by decide)

/-- After a choice of successor the timer lies ahead. -/
theorem Dispatched.timerAhead {next} (h : Dispatched cpu next s t) (hs : s.AllValid)
    (hids : s.ids.Nodup) (hnow : s.nowNs ≠ UInt64.maxValue) (hawake : s.Awake) :
    t.TimerAhead cpu t.nowNs := by
  have hticked := h.ticked hids hawake
  refine (timerAhead_iff hticked.ids hticked.range (fun x hx => ?_) hticked.awake).mpr
    ((h.settled hs hnow).not_hasDue hticked.ids)
  -- the task that was chosen has its turn before it
  unfold runningDeadline at hx
  rw [h.currentOnCpu] at hx
  obtain ⟨v, hv, hx⟩ := Option.bind_eq_some_iff.mp hx
  obtain ⟨id, hid, hfound⟩ := Option.bind_eq_some_iff.mp hv
  obtain ⟨u, hu, -, -, hbudget⟩ := h.chosen id hid
  rw [h.task, hu, map_some, if_pos hid, some_inj] at hfound
  subst hfound
  rw [h.now] at hx ⊢
  split at hx
  · rename_i d hd
    rw [← Option.some.inj hx]
    exact UInt64.lt_satAdd hnow (Nat.lt_add_of_pos_right (UInt64.lt_iff_toNat_lt.mp (hbudget d hd)))
  · split at hx
    · rw [← Option.some.inj hx]
      rw [SchedulerTask.run]
      have hpos : 0 < DEFAULT_FAIR_QUANTUM_NS.toNat := by decide
      generalize DEFAULT_FAIR_QUANTUM_NS = quantum at hpos ⊢
      exact UInt64.lt_satAdd hnow (Nat.lt_add_of_pos_right hpos)
    · cases hx

/-- The task on the CPU has been charged for a tick, and nothing else has changed. -/
structure Kept (cpu : ℕ) (u : SchedulerTask) (s t : Scheduler) : Prop where
  current : (s.currentTaskIds[cpu]?).join.bind s.task = some u
  calm : Calm (s.modifyTask u.id (chargeTick s.nowNs)) t

theorem Kept.task {u} (h : Kept cpu u s t) (id) :
    t.task id = if id = u.id then (s.task id).map (chargeTick s.nowNs) else s.task id := by
  rw [h.calm.task, task_modifyTask s u.id id _ (id_chargeTick s.nowNs)]

theorem Kept.currentOnCpu {u} (h : Kept cpu u s t) :
    t.currentOnCpu cpu = some (chargeTick s.nowNs u) := by
  obtain ⟨id, hid, hfound⟩ := Option.bind_eq_some_iff.mp h.current
  have huid := id_of_task hfound
  unfold Scheduler.currentOnCpu
  rw [h.calm.current]
  show (s.currentTaskIds[cpu]?).join.bind t.task = _
  rw [hid, Option.bind_some, h.task, if_pos huid.symm, hfound, map_some]

theorem Kept.ticked {u} (h : Kept cpu u s t) (hids : s.ids.Nodup) (hawake : s.Awake)
    (hkeeps : keepsCpu s.nowNs (chargeTick s.nowNs u)) : t.Ticked cpu := by
  obtain ⟨hrun, -⟩ := task_of_current h.current
  refine ⟨?_, ?_, ?_, fun _ => ?_⟩
  · rw [h.calm.ids, ids_modifyTask s u.id _ (id_chargeTick s.nowNs)]
    exact hids
  · rw [h.calm.current]
    exact (getElem?_eq_some_iff.mp hrun).1
  · refine hawake.of_same h.calm.now fun id v hv => ?_
    rw [h.task] at hv
    split at hv
    · obtain ⟨w, hw, rfl⟩ := map_eq_some_iff.mp hv
      exact ⟨w, hw, congrArg (·.2.1) (origin_chargeTick s.nowNs w).2⟩
    · exact ⟨v, hv, rfl⟩
  · simp only [keepsCpu, Bool.and_eq_true, beq_iff_eq] at hkeeps
    have hrest := hkeeps.2
    unfold runningDeadline
    rw [h.currentOnCpu, Option.bind_some]
    split
    · rfl
    · -- the quantum is not over, so there is one
      rename_i hnone
      rw [hnone] at hrest
      have hlt := of_decide_eq_true (Bool.and_eq_true_iff.mp hrest).2
      rw [if_pos]
      · rfl
      · intro hzero
        rw [hzero] at hlt
        exact Nat.not_lt_zero _ (UInt64.lt_iff_toNat_lt.mp hlt)

/-- A tick that leaves the CPU to its task sets the timer ahead unless a refill is due. -/
theorem timerAhead_of_keeps {u} (h : Kept cpu u s t) (hs : s.Paced) (hawake : s.Awake)
    (hkeeps : keepsCpu s.nowNs (chargeTick s.nowNs u)) :
    t.TimerAhead cpu t.nowNs ↔ ¬ s.HasDue cpu s.nowNs := by
  obtain ⟨hids, hrange, hquiet, -⟩ := h.ticked hs.sound.ids hawake hkeeps
  obtain ⟨-, htask⟩ := task_of_current h.current
  have hnow : t.nowNs = s.nowNs := h.calm.now
  have hlookup := h.task
  have hstate : (chargeTick s.nowNs u).state = u.state :=
    congrArg Prod.fst (origin_chargeTick s.nowNs u).2
  simp only [keepsCpu, Bool.and_eq_true, beq_iff_eq] at hkeeps
  have hrunning : ∀ x ∈ t.runningDeadline cpu, t.nowNs < x := by
    intro x hx
    unfold runningDeadline at hx
    rw [h.currentOnCpu, Option.bind_some] at hx
    rw [hnow] at hx ⊢
    have hrest := hkeeps.2
    split at hx
    · rename_i d hd
      rw [hd] at hrest
      rw [← Option.some.inj hx]
      have hpos := UInt64.lt_iff_toNat_lt.mp (of_decide_eq_true hrest)
      exact UInt64.lt_satAdd hs.now (Nat.lt_add_of_pos_right hpos)
    · rename_i hnone
      rw [hnone] at hrest
      split at hx
      · rw [← Option.some.inj hx]
        exact of_decide_eq_true (Bool.and_eq_true_iff.mp hrest).2
      · cases hx
  rw [timerAhead_iff hids hrange hrunning hquiet, hnow, not_iff_not]
  -- the charged task runs, so the ready ones are the same
  constructor
  · rintro ⟨v, hv, hready, hallowed, d, hd, hdue⟩
    have hv := task_of_mem hids hv
    rw [hlookup] at hv
    split at hv
    · rename_i hid
      rw [hid, htask, map_some, some_inj] at hv
      rw [← hv, hkeeps.1] at hready
      cases hready
    · exact ⟨v, mem_of_find?_eq_some hv, hready, hallowed, d, hd, hdue⟩
  · rintro ⟨v, hv, hready, hallowed, d, hd, hdue⟩
    have hv := task_of_mem hs.sound.ids hv
    refine ⟨v, mem_of_find?_eq_some (?_ : t.task v.id = some v), hready, hallowed, d, hd, hdue⟩
    rw [hlookup, if_neg, hv]
    intro hid
    rw [hid, htask, some_inj] at hv
    rw [← hv, ← hstate, hkeeps.1] at hready
    cases hready

/-- In the last nanosecond of the clock only a CPU that has nothing to wait for has a timer that
does not fire. -/
theorem Ticked.timerAhead_last (h : t.Ticked cpu) (hlast : t.nowNs = UInt64.maxValue) :
    t.TimerAhead cpu t.nowNs ↔ t.currentOnCpu cpu = none ∧ ¬ t.HasDue cpu t.nowNs := by
  cases hcurrent : t.currentOnCpu cpu with
  | none =>
    have hrunning : t.runningDeadline cpu = none := by
      unfold runningDeadline
      rw [hcurrent]
      rfl
    rw [timerAhead_iff h.ids h.range (by simp [hrunning]) h.awake]
    exact (and_iff_right rfl).symm
  | some u =>
    refine iff_of_false ?_ (by simp)
    rintro ⟨o, ho, hahead⟩
    obtain ⟨x, hx⟩ := Option.isSome_iff_exists.mp (h.turn (by rw [hcurrent]; rfl))
    unfold nextDeadlineOnCpu at ho
    rw [if_pos h.range, Except.ok.injEq] at ho
    subst ho
    have hlt := (lt_minByKey_iff _).mp hahead x (by simp [hx])
    rw [hlast] at hlt
    exact absurd hlt (UInt64.not_lt.mpr (UInt64.le_iff_toNat_le.mpr (Nat.le_of_lt_succ x.toNat_lt)))

end Timer

/-! ### Ticks -/

/-- The task on the CPU, charged up to now, keeps it; no wait that is over gives a CPU something
to do; and a server that is ready, or wakes now, is due for a refill and could run on the CPU. -/
def Overlooks (s : Scheduler) (cpu : ℕ) (nowNs : UInt64) : Prop :=
  (s.accountRuntime nowNs).Continues cpu nowNs ∧ ¬ s.Stirs nowNs ∧
    ∃ u ∈ s.tasks, (u.state = .ready ∨ (u.state = .blocked ∨ u.state = .suspended) ∧
      u.blockReason.any (BlockReason.expired nowNs)) ∧ taskCanRunOnCpu u cpu ∧
      ∃ d ∈ u.deadline, d.Due nowNs
  deriving Decidable

section Ticks

variable {s c t : Scheduler} {cpu : ℕ} {nowNs : UInt64}

theorem id_rouse (u) : (rouse nowNs u).id = u.id := by
  unfold rouse
  split
  · exact id_wake u
  · rfl

theorem Clocked.stirs_iff (h : Clocked nowNs s c) (hs : s.Sound) :
    c.Stirs nowNs ↔ s.Stirs nowNs := by
  have hstance := (mild_accountRuntime (K := fun _ => True) trivial nowNs s).stance
  have hids := (h.sound hs).ids
  have hsame : ∀ {a b : Scheduler}, a.ids.Nodup →
      (∀ id, (a.task id).map stance = (b.task id).map stance) →
      (∃ u ∈ a.tasks, u.blockReason.any (BlockReason.expired nowNs)) →
      ∃ u ∈ b.tasks, u.blockReason.any (BlockReason.expired nowNs) := by
    rintro a b hids hstance ⟨u, hu, hexpired⟩
    have hu := hstance u.id ▸ congrArg (Option.map stance) (task_of_mem hids hu)
    obtain ⟨v, hv, hsame⟩ := map_eq_some_iff.mp hu
    have hreason : v.blockReason = u.blockReason := congrArg (·.2.1) hsame
    exact ⟨v, mem_of_find?_eq_some hv, hreason ▸ hexpired⟩
  unfold Stirs
  rw [h.current]
  refine and_congr_left fun _ => ⟨hsame hids fun id => ?_, hsame hs.ids fun id => ?_⟩
  · rw [h.task]
    exact hstance id
  · rw [h.task]
    exact (hstance id).symm

variable {u : SchedulerTask}

theorem Clocked.task_of_idle (h : Clocked nowNs s c) (hs : s.Sound) {id}
    (hu : c.task id = some u ∨ s.task id = some u) (hidle : u.state ≠ .running) :
    c.task id = some u ∧ s.task id = some u := by
  have hnot : ∀ cpu, ¬ s.Runs cpu id := by
    intro cpu hrun
    rcases hu with hu | hu
    · have hrun : c.Runs cpu id := by
        rw [Runs, h.current]
        exact hrun
      obtain ⟨v, hv, hrunning, -⟩ := (h.sound hs).running cpu id hrun
      rw [hu, some_inj] at hv
      exact hidle (hv ▸ hrunning)
    · obtain ⟨v, hv, hrunning, -⟩ := hs.running cpu id hrun
      rw [hu, some_inj] at hv
      exact hidle (hv ▸ hrunning)
  have hsame : c.task id = s.task id := (h.task id).trans (task_accountRuntime_of_idle nowNs hnot)
  rcases hu with hu | hu
  · exact ⟨hu, hsame ▸ hu⟩
  · exact ⟨hsame.trans hu, hu⟩

/-- A task that does not wait is not roused. -/
theorem rouse_of_quiet (hu : u.Ok) (hstate : u.state = .ready ∨ u.state = .running) :
    rouse nowNs u = u := by
  refine if_neg fun hexpired => ?_
  rcases hu.waits (Option.isSome_of_any hexpired) with h | h | h <;>
    rcases hstate with h' | h' <;> rw [h'] at h <;> cases h

theorem Holds.continues_iff (h : Clocked nowNs s c) (hs : s.Sound)
    (ht : Holds (c.tasks.map (rouse nowNs)) c t) :
    t.Continues cpu nowNs ↔ (s.accountRuntime nowNs).Continues cpu nowNs := by
  have hcurrent : t.currentOnCpu cpu = (s.accountRuntime nowNs).currentOnCpu cpu := by
    have haccount := (mild_accountRuntime (K := fun _ => True) trivial nowNs s).current
    unfold currentOnCpu
    rw [ht.current, h.current, haccount]
    refine Option.bind_congr fun id hid => ?_
    have hrun : c.Runs cpu id := by
      rw [Runs, h.current]
      exact Option.join_eq_some_iff.mp hid
    obtain ⟨u, hu, hrunning, -⟩ := (h.sound hs).running cpu id hrun
    have hlookup : t.task id = (c.task id).map (rouse nowNs) := by
      rw [Scheduler.task, ht.tasks]
      exact find?_map_key (k := fun u : SchedulerTask => u.id) id_rouse id c.tasks
    rw [hlookup, ← h.task, hu, map_some,
      rouse_of_quiet ((h.sound hs).ok id u hu) (.inr hrunning)]
  unfold Continues
  rw [hcurrent]

theorem Holds.hasDue_iff (h : Clocked nowNs s c) (hs : s.Sound)
    (ht : Holds (c.tasks.map (rouse nowNs)) c t) :
    t.HasDue cpu nowNs ↔ ∃ u ∈ s.tasks, (u.state = .ready ∨
      (u.state = .blocked ∨ u.state = .suspended) ∧
      u.blockReason.any (BlockReason.expired nowNs)) ∧ taskCanRunOnCpu u cpu ∧
      ∃ d ∈ u.deadline, d.Due nowNs := by
  have hc := h.sound hs
  unfold HasDue
  rw [ht.tasks]
  constructor
  · rintro ⟨v, hv, hready, hallowed, d, hd, hdue⟩
    obtain ⟨u, hu, rfl⟩ := mem_map.mp hv
    have htask := task_of_mem hc.ids hu
    have hok := hc.ok u.id u htask
    unfold rouse at hready hallowed hd
    split at hready
    · rename_i hexpired
      rw [if_pos hexpired] at hallowed hd
      have hmask := (wake_ok hok).2.2.1
      rw [taskCanRunOnCpu, hmask] at hallowed
      rw [deadline_wake] at hd
      have hstate : u.state = .blocked ∨ u.state = .suspended := by
        rcases hok.waits (Option.isSome_of_any hexpired) with hs | hs | hs
        · exact .inl hs
        · exact .inr hs
        · unfold wake at hready
          cases hstate : u.state <;> rw [hstate] at hs hready <;> cases hs <;> cases hready
      have hidle : u.state ≠ .running := by
        rcases hstate with hstate | hstate <;> rw [hstate] <;> decide
      have hold := (h.task_of_idle hs (.inl htask) hidle).2
      exact ⟨u, mem_of_find?_eq_some hold, .inr ⟨hstate, hexpired⟩, hallowed, d, hd, hdue⟩
    · rename_i hexpired
      rw [if_neg hexpired] at hallowed hd
      have hidle : u.state ≠ .running := by
        rw [hready]
        decide
      have hold := (h.task_of_idle hs (.inl htask) hidle).2
      exact ⟨u, mem_of_find?_eq_some hold, .inl hready, hallowed, d, hd, hdue⟩
  · rintro ⟨u, hu, hstate, hallowed, d, hd, hdue⟩
    have htask := task_of_mem hs.ids hu
    have hidle : u.state ≠ .running := by
      rcases hstate with hstate | ⟨hstate | hstate, -⟩ <;> rw [hstate] <;> decide
    have hnew := (h.task_of_idle hs (.inr htask) hidle).1
    refine ⟨rouse nowNs u, List.mem_map_of_mem (mem_of_find?_eq_some hnew), ?_⟩
    rcases hstate with hready | ⟨hstate, hexpired⟩
    · rw [rouse_of_quiet (hs.ok u.id u htask) (.inl hready)]
      exact ⟨hready, hallowed, d, hd, hdue⟩
    · unfold rouse
      rw [if_pos hexpired, deadline_wake, taskCanRunOnCpu,
        (wake_ok (hs.ok u.id u htask)).2.2.1]
      refine ⟨?_, hallowed, d, hd, hdue⟩
      unfold wake
      rcases hstate with hstate | hstate <;> rw [hstate]

/-- What is overlooked shows once the waits that are over have ended. -/
theorem Clocked.overlooks_iff (h : Clocked nowNs s c) (cpu) (hs : s.Sound)
    (hids : t.ids.Nodup) (hnow : t.nowNs = nowNs) (ht : (c.Stirs nowNs → t.Settled) ∧
      (¬ c.Stirs nowNs → Holds (c.tasks.map (rouse nowNs)) c t)) :
    t.Continues cpu nowNs ∧ t.HasDue cpu nowNs ↔ s.Overlooks cpu nowNs := by
  by_cases hstir : s.Stirs nowNs
  · -- a wake that fills a CPU refills the servers
    have hsettled := ht.1 ((h.stirs_iff hs).mpr hstir)
    have hnone : ¬ t.HasDue cpu t.nowNs := hsettled.not_hasDue hids
    rw [hnow] at hnone
    exact ⟨fun h => absurd h.2 hnone, fun h => absurd hstir h.2.1⟩
  · have hsame := ht.2 fun h' => hstir ((h.stirs_iff hs).mp h')
    rw [hsame.continues_iff h hs, hsame.hasDue_iff h hs, Overlooks, and_iff_right hstir]

/-- A task whose turn is over leaves the waits and the servers as they were. -/
theorem preempted (hids : s.ids.Nodup) (hvalid : s.AllValid) (hawake : s.Awake) {id}
    (ht : Calm (s.modifyTask id fun u => preempt (chargeTick s.nowNs u)) t) :
    t.ids.Nodup ∧ t.AllValid ∧ t.Awake := by
  have hid : ∀ v, (preempt (chargeTick s.nowNs v)).id = v.id := by
    intro v
    rw [← id_chargeTick s.nowNs v]
    unfold preempt
    split <;> rfl
  have hlookup : ∀ j w, t.task j = some w → ∃ u, s.task j = some u ∧
      w.blockReason = u.blockReason ∧ w.deadline = u.deadline := by
    intro j w hw
    rw [ht.task, task_modifyTask s _ j _ hid] at hw
    split at hw
    · obtain ⟨u, hu, rfl⟩ := map_eq_some_iff.mp hw
      have hreason : (chargeTick s.nowNs u).blockReason = u.blockReason :=
        congrArg (·.2.1) (origin_chargeTick s.nowNs u).2
      have hdeadline := deadline_chargeTick s.nowNs u
      unfold preempt
      split <;> exact ⟨u, hu, hreason, hdeadline⟩
    · exact ⟨w, hw, rfl, rfl⟩
  refine ⟨?_, fun j w hw d hd => ?_, hawake.of_same ht.now fun j w hw => ?_⟩
  · rw [ht.ids, ids_modifyTask s _ _ hid]
    exact hids
  · obtain ⟨u, hu, -, hsame⟩ := hlookup j w hw
    exact hvalid j u hu d (hsame ▸ hd)
  · obtain ⟨u, hu, hsame, -⟩ := hlookup j w hw
    exact ⟨u, hu, hsame⟩

theorem wp_tick_ticked (hs : s.Sound) (hvalid : s.AllValid) :
    wp (tickAtOnCpu cpu nowNs) (fun _ t => t.nowNs = nowNs ∧ t.Ticked cpu ∧
      (nowNs ≠ UInt64.maxValue → (t.TimerAhead cpu nowNs ↔ ¬ s.Overlooks cpu nowNs)))
      (fun _ _ => True) s := by
  simp only [tickAtOnCpu, ensureCpuId, wp_bind, wp_get, wp_check, wp_modify]
  refine ⟨fun hcpu => ⟨fun hle => ?_, fun _ => trivial⟩, fun _ => trivial⟩
  refine of_clock (P := wp _ _ _) (UInt64.not_lt.mp hle) fun c hclock _ _ => ?_
  have hc := hclock.sound hs
  have hcvalid : c.AllValid := hvalid.each (hclock.each Special.plain_spend)
  have hwakes := wp_wakeExpiredDeadlines hc hcvalid
  rw [hclock.now] at hwakes
  refine wp_mono hwakes fun _ u hu => ?_
  obtain ⟨⟨htracks, hawake⟩, hservers⟩ := hu
  have hids := htracks.sound.ids
  have huvalid : u.AllValid := hcvalid.each (htracks.mono fun _ h => h.elim).each
  have hunow : u.nowNs = nowNs := htracks.now.trans hclock.now
  have hoverlooks := fun hnow => hclock.overlooks_iff cpu hs hids hunow (hservers hnow)
  rw [wp_bind, wp_get]
  subst hunow
  split
  · rename_i current hcurrent
    obtain ⟨-, htask⟩ := task_of_current hcurrent
    have hcontinues : u.Continues cpu u.nowNs ↔ keepsCpu u.nowNs (chargeTick u.nowNs current) := by
      unfold Continues currentOnCpu
      simp [hcurrent]
    rw [wp_ite]
    -- only the task that keeps the CPU can leave a refill behind
    refine ⟨fun hkeeps => ?_, fun hends => ?_⟩
    · rw [wp_bind, wp_modify, modifyTask_const htask (chargeTick u.nowNs), wp_bind]
      refine wp_of_total (R := Calm) fun _ t ht => (wp_pure _).mpr ?_
      have hkept : Kept cpu current u t := ⟨hcurrent, ht⟩
      refine ⟨ht.now, hkept.ticked hids hawake hkeeps, fun hnow => ?_⟩
      have hahead := timerAhead_of_keeps hkept ⟨htracks.sound, huvalid, hnow⟩ hawake hkeeps
      rw [show t.nowNs = u.nowNs from ht.now] at hahead
      rw [← hoverlooks hnow, hahead, hcontinues, not_and]
      exact ⟨fun h _ => h, fun h => h hkeeps⟩
    · rw [wp_bind, wp_modify, modifyTask_const htask (fun v => preempt (chargeTick u.nowNs v)),
        wp_bind]
      refine wp_of_total (R := Calm) fun _ v hv => ?_
      obtain ⟨hvids, hvvalid, hquiet⟩ := preempted hids huvalid hawake hv
      have hvnow : v.nowNs = u.nowNs := hv.now
      rw [wp_bind]
      refine wp_scheduleNextOnCpu hvids fun next t ht => (wp_pure _).mpr ?_
      refine ⟨ht.now.trans hvnow, ht.ticked hvids hquiet, fun hnow => ?_⟩
      have hahead := ht.timerAhead hvvalid hvids (hvnow ▸ hnow) hquiet
      rw [ht.now, hvnow] at hahead
      exact iff_of_true hahead fun h => hends (hcontinues.mp ((hoverlooks hnow).mpr h).1)
  · rename_i hnone
    rw [wp_bind]
    refine wp_scheduleNextOnCpu hids fun next t ht => (wp_pure _).mpr ?_
    refine ⟨ht.now, ht.ticked hids hawake, fun hnow => ?_⟩
    have hahead := ht.timerAhead huvalid hids hnow hawake
    rw [ht.now] at hahead
    refine iff_of_true hahead fun h => ?_
    obtain ⟨⟨v, hv, -⟩, -⟩ := (hoverlooks hnow).mpr h
    unfold currentOnCpu at hv
    rw [hnone] at hv
    cases hv

end Ticks

/-- **The timer lies ahead after a tick** exactly if the tick overlooks no refill; in the last
nanosecond of the clock, exactly if the CPU is left idle and no exhausted server could run on it. -/
theorem timer_ahead_iff {s t : Scheduler} {cpu : ℕ} {nowNs : UInt64} {d : ScheduleDecision}
    (hs : Reaches (fun _ _ => True) s) (h : tickAtOnCpu cpu nowNs s = .ok d t) :
    t.TimerAhead cpu nowNs ↔
      if nowNs = UInt64.maxValue then t.currentOnCpu cpu = none ∧ ¬ t.HasDue cpu nowNs
      else ¬ s.Overlooks cpu nowNs := by
  obtain ⟨rfl, hticked, hahead⟩ := of_ok (wp_tick_ticked hs.sound hs.allValid) h
  split
  · rename_i hlast
    exact hticked.timerAhead_last hlast
  · rename_i hnow
    exact hahead hnow

/-- A fair task and a server with 1 ms of every 10 ms. The server uses its budget in the fifth
millisecond, and the timer is programmed from the scheduler after every tick. -/
def serverExhausted : List SchedOp :=
  [.addTask 1 1 1 16 [0x61] 1, .addTask 2 2 1 16 [0x62] 1,
    .setProfile 2 (.deadline ⟨1000000, 5000000, 10000000⟩),
    .tickAtOnCpu 0 4000000, .tickAtOnCpu 0 5000000, .tickAtOnCpu 0 9000000]

/-- When the server's budget is used up, the tick sets the timer ahead. -/
theorem timer_ahead_budget : ∃ (s t : Scheduler) (d : ScheduleDecision),
    Reaches (fun _ _ => True) s ∧ ¬ s.Overlooks 0 5000000 ∧
      tickAtOnCpu 0 5000000 s = .ok d t ∧ t.TimerAhead 0 5000000 := by
  have hrun : (runFrom 1 (fun _ _ => true) (serverExhausted.take 4)).any
      (fun s => decide (¬ s.Overlooks 0 5000000) &&
        (tickAtOnCpu 0 5000000 s).returned?.isSome) = true := by decide +kernel
  obtain ⟨s, hs, hfacts⟩ := (Option.any_eq_true _ _).mp hrun
  obtain ⟨hnot, hreturns⟩ := Bool.and_eq_true_iff.mp hfacts
  have hnot := of_decide_eq_true hnot
  obtain ⟨⟨d, t⟩, ht⟩ := Option.isSome_iff_exists.mp hreturns
  have hreaches : Reaches (fun _ _ => True) s := reaches_of_runFrom hs fun _ _ _ => trivial
  have htick := Outcome.eq_ok_of_returned? ht
  exact ⟨s, t, d, hreaches, hnot, htick, (timer_ahead_iff hreaches htick).mpr hnot⟩

/-- At 10 ms the server is due for a refill, and the timer was set for that. The fair task is in
the middle of its quantum and keeps the CPU, so the timer is set for 10 ms again. -/
theorem refill_overlooked : ∃ (s t : Scheduler) (d : ScheduleDecision),
    Reaches (fun _ _ => True) s ∧ s.nextDeadlineOnCpu 0 = .ok (some 10000000) ∧
      tickAtOnCpu 0 10000000 s = .ok d t ∧ t.nextDeadlineOnCpu 0 = .ok (some 10000000) := by
  have hrun : (runFrom 1 (fun _ _ => true) serverExhausted).any
      (fun s => decide ((s.nextDeadlineOnCpu 0).toOption = some (some 10000000) ∧
        ∃ r ∈ (tickAtOnCpu 0 10000000 s).returned?,
          (r.2.nextDeadlineOnCpu 0).toOption = some (some 10000000))) = true := by decide +kernel
  obtain ⟨s, hs, hfacts⟩ := (Option.any_eq_true _ _).mp hrun
  obtain ⟨hbefore, ⟨d, t⟩, ht, hafter⟩ := of_decide_eq_true hfacts
  exact ⟨s, t, d, reaches_of_runFrom hs fun _ _ _ => trivial, ok_of_toOption hbefore,
    Outcome.eq_ok_of_returned? ht, ok_of_toOption hafter⟩

end Scheduler

end Bexos
