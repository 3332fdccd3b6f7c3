/-
Admission of deadline servers.

A task with a deadline profile (C, D, T) is a server: it gets C nanoseconds of CPU time in
every period T.  Admission adds up C/T in parts per million, rounded *down* for each task.

* `Scheduler.utilization` — the exact sum of C/T over the tasks that have not exited;
* `Scheduler.utilization_le_one` — it stays at most one if at each admission the shares fit
  when they are rounded up.
-/
import Mathlib.Algebra.Order.BigOperators.Group.List
import Mathlib.Algebra.Order.Field.Rat
import Mathlib.Tactic.Linarith
import Bexos.SchedulerOps

namespace Bexos

open Prog
open List (map_cons sum_cons)

/-! ### Admission -/

/-- The share of a CPU that a profile asks for. -/
def DeadlineProfile.share (p : DeadlineProfile) : ℚ := p.capacityNs.toNat / p.periodNs.toNat

/-- The share in parts per million, rounded up. -/
def DeadlineProfile.ceilPpm (p : DeadlineProfile) : ℕ :=
  (p.capacityNs.toNat * 1000000 + (p.periodNs.toNat - 1)) / p.periodNs.toNat

/-- The share that a task holds. -/
def SchedulerTask.load (u : SchedulerTask) : ℚ :=
  if u.state = .exited then 0 else (u.deadline.map fun d => d.profile.share).getD 0

namespace Scheduler

variable {u v : SchedulerTask} {nowNs : UInt64} {s : Scheduler}

/-- The exact share of a CPU that all deadline servers hold together. -/
def utilization (s : Scheduler) : ℚ := (s.tasks.map SchedulerTask.load).sum

/-- The profiles of the other live servers, as `set_deadline_profile` collects them. -/
def otherProfiles (s : Scheduler) (id : ℕ) : List DeadlineProfile :=
  ((s.tasks.filter fun t => t.id != id && t.state != .exited).filterMap (·.deadline)).map (·.profile)

/-- Profiles that fit when each share is rounded down also fit when it is rounded up. -/
def FitsRoundedUp (s : Scheduler) : SchedOp → Prop
  | .setProfile id (.deadline p) =>
    ((p :: s.otherProfiles id).map utilizationPpm).sum ≤ 1000000 →
      ((p :: s.otherProfiles id).map DeadlineProfile.ceilPpm).sum ≤ 1000000
  | _ => True

instance (s : Scheduler) (op : SchedOp) : Decidable (s.FitsRoundedUp op) := by
  unfold FitsRoundedUp
  split <;> infer_instance

theorem share_nonneg (p : DeadlineProfile) : 0 ≤ p.share :=
  div_nonneg (Nat.cast_nonneg _) (Nat.cast_nonneg _)

/-- Rounding up does not lose anything. -/
theorem share_le_ceilPpm (p : DeadlineProfile) : p.share * 1000000 ≤ p.ceilPpm := by
  unfold DeadlineProfile.share DeadlineProfile.ceilPpm
  generalize p.capacityNs.toNat = c
  generalize p.periodNs.toNat = t
  rcases Nat.eq_zero_or_pos t with rfl | hpos
  · simp
  · have hmul : c * 1000000 ≤ (c * 1000000 + (t - 1)) / t * t := by
      have hdiv := Nat.div_add_mod (c * 1000000 + (t - 1)) t
      have hmod := Nat.mod_lt (c * 1000000 + (t - 1)) hpos
      rw [Nat.mul_comm] at hdiv
      omega
    have hq : (c : ℚ) * 1000000 ≤ ((c * 1000000 + (t - 1)) / t : ℕ) * (t : ℚ) := by
      exact_mod_cast hmul
    rw [div_mul_eq_mul_div, div_le_iff₀ (Nat.cast_pos.mpr hpos)]
    exact hq

theorem load_nonneg (u : SchedulerTask) : 0 ≤ u.load := by
  unfold SchedulerTask.load
  split
  · exact le_refl 0
  · cases u.deadline with
    | none => exact le_refl 0
    | some d => exact share_nonneg d.profile

/-- The loads of a list of tasks against the rounded shares of its live servers. -/
theorem sum_load_le (us : List SchedulerTask) : (us.map SchedulerTask.load).sum * 1000000 ≤
      ((((us.filter (·.state != .exited)).filterMap (·.deadline)).map (·.profile)).map
        DeadlineProfile.ceilPpm).sum := by
  induction us with
  | nil => simp
  | cons u us ih =>
    rw [map_cons, sum_cons, add_mul]
    by_cases hexited : u.state = .exited
    · rw [List.filter_cons_of_neg (by simp [hexited]), SchedulerTask.load, if_pos hexited, zero_mul,
        zero_add]
      exact ih
    · rw [List.filter_cons_of_pos (by simp [hexited]), SchedulerTask.load, if_neg hexited]
      cases hd : u.deadline with
      | none =>
        rw [List.filterMap_cons_none hd, Option.map_none, Option.getD_none, zero_mul, zero_add]
        exact ih
      | some d =>
        rw [List.filterMap_cons_some hd, map_cons, map_cons, sum_cons, Nat.cast_add]
        exact add_le_add (share_le_ceilPpm d.profile) ih

variable {K : Special → Prop} {t : Scheduler}

/-- Without `set_profile`, a load can only be dropped. -/
theorem load_of_changes (hK : ¬ K .profile) (h : SchedulerTask.Changes K nowNs u v) :
    v.load ≤ u.load := by
  by_cases hv : v.state = .exited
  · rw [SchedulerTask.load, if_pos hv]
    exact load_nonneg u
  · have hu : u.state ≠ .exited := fun hu => hv (exited_of_changes h hu)
    have hsame := congrArg (Option.map DeadlineProfile.share) (profile_of_changes hK h)
    rw [Option.map_map, Option.map_map] at hsame
    rw [SchedulerTask.load, SchedulerTask.load, if_neg hv, if_neg hu]
    exact le_of_eq (congrArg (Option.getD · 0) hsame)

theorem sum_le_of_forall₂ {α : Type} {R : α → α → Prop} {f : α → ℚ}
    (hf : ∀ a b, R a b → f b ≤ f a) {l l'} (h : List.Forall₂ R l l') :
    (l'.map f).sum ≤ (l.map f).sum := by
  induction h with
  | nil => exact le_refl _
  | cons hab _ ih =>
    rw [map_cons, sum_cons, map_cons, sum_cons]
    exact add_le_add (hf _ _ hab) ih

theorem utilization_of_each {R : SchedulerTask → SchedulerTask → Prop}
    (hR : ∀ u v, R u v → v.load ≤ u.load) (hids : s.ids.Nodup) (h : Each R s t) :
    t.utilization ≤ s.utilization :=
  sum_le_of_forall₂ hR (h.forall₂ hids)

theorem utilization_of_advance (hK : ¬ K .profile) {op} (hs : s.Sound) (h : Advance K op s t) :
    t.utilization ≤ s.utilization := by
  cases h with
  | tracks h => exact utilization_of_each (fun _ _ => load_of_changes hK) hs.ids h.each
  | clocked nowNs c _ hc h =>
    have hspend := hc.each (K := (· = .spend)) rfl
    exact (utilization_of_each (fun _ _ => load_of_changes hK) (hc.sound hs).ids h.each).trans
      (utilization_of_each (fun _ _ => load_of_changes (by simp)) hs.ids hspend)
  | added _ u hfresh _ h =>
    -- a new task has no profile
    have hsound := hs.append s.runtime h.new hfresh.ok hfresh.idle
    refine (utilization_of_each (fun _ _ => load_of_changes hK) hsound.ids
      (h.each_append s.runtime)).trans ?_
    have hload : u.load = 0 := by
      rw [SchedulerTask.load, hfresh.deadline]
      exact ite_self 0
    rw [utilization, utilization, List.map_append, List.sum_append, List.map_singleton,
      List.sum_singleton, hload, add_zero]
  | cleaned _ h =>
    rw [utilization, utilization, h.tasks]
    refine List.Sublist.sum_le_sum (List.filter_sublist.map _) fun load hload => ?_
    obtain ⟨u, -, rfl⟩ := List.mem_map.mp hload
    exact load_nonneg u

/-- Replacing the entry of a key that occurs once. -/
theorem sum_updateFirst (f : SchedulerTask → SchedulerTask) (load : SchedulerTask → ℚ) (id : ℕ)
    {us} (hids : (us.map (·.id)).Nodup) (hu : us.find? (·.id == id) = some u) :
    ((updateFirst (·.id == id) f us).map load).sum =
      load (f u) + ((us.filter (·.id != id)).map load).sum := by
  induction us with
  | nil => cases hu
  | cons v us ih =>
    rw [map_cons, List.nodup_cons] at hids
    rw [updateFirst_cons]
    by_cases hv : v.id = id
    · have hrest : us.filter (·.id != id) = us := by
        refine List.filter_eq_self.mpr fun w hw => ?_
        rw [bne_iff_ne]
        rintro rfl
        exact hids.1 (hv ▸ List.mem_map_of_mem hw)
      rw [List.find?_cons_of_pos (by simpa using hv), Option.some_inj] at hu
      rw [if_pos (by simpa using hv), map_cons, sum_cons,
        List.filter_cons_of_neg (by simpa using hv), hrest, hu]
    · rw [List.find?_cons_of_neg (by simpa using hv)] at hu
      rw [if_neg (by simpa using hv), map_cons, sum_cons, ih hids.2 hu,
        List.filter_cons_of_pos (by simpa using hv), map_cons, sum_cons]
      exact add_left_comm _ _ _

/-- Admission of a profile whose share, with the others, fits when rounded up. -/
theorem wp_setDeadlineProfile (hs : s.Sound) (hone : s.utilization ≤ 1) {id p}
    (hfits : s.FitsRoundedUp (.setProfile id (.deadline p))) :
    ends (setDeadlineProfile id p) (fun t => t.utilization ≤ 1) s := by
  simp only [setDeadlineProfile, wp_bind, wp_check, wp_get, wp_some?, wp_unwrap, wp_modify]
  refine ⟨fun _ => ⟨fun u hu allowed _ => ⟨fun _ => ⟨fun hfloor => ?_, fun _ => hone⟩,
    fun _ => hone⟩, fun _ => hone⟩, fun _ => hone⟩
  have hothers : ((s.otherProfiles id).map utilizationPpm).sum =
      (((s.tasks.filter fun t => t.id != id && t.state != .exited).filterMap (·.deadline)).map
        fun d => utilizationPpm d.profile).sum := by
    rw [otherProfiles, List.map_map]
    rfl
  -- the shares rounded down pass the check; rounded up they fit by hypothesis
  have hceil : ((p :: s.otherProfiles id).map DeadlineProfile.ceilPpm).sum ≤ 1000000 := by
    refine hfits ?_
    rw [map_cons, sum_cons, hothers, Nat.add_comm]
    exact hfloor
  generalize hf : (fun t : SchedulerTask =>
    { t with
      deadline := some ⟨p, s.nowNs.satAdd p.deadlineNs, p.capacityNs⟩
      effectivePriority := 255
      priority := 255
      quantumLeft := DEFAULT_QUANTUM_TICKS }) = f
  rw [utilization, (calm_rebuildRunnableIndexes _).tasks]
  show ((updateFirst (·.id == id) f s.tasks).map SchedulerTask.load).sum ≤ 1
  rw [sum_updateFirst f SchedulerTask.load id hs.ids hu]
  have hnew : (f u).load * 1000000 ≤ p.ceilPpm := by
    rw [← hf]
    unfold SchedulerTask.load
    split
    · rw [zero_mul]
      exact Nat.cast_nonneg _
    · exact share_le_ceilPpm p
  have hrest := sum_load_le (s.tasks.filter (·.id != id))
  rw [List.filter_filter] at hrest
  have hsame : (s.tasks.filter fun t => (t.state != .exited) && (t.id != id)) =
      s.tasks.filter fun t => t.id != id && t.state != .exited :=
    List.filter_congr fun t _ => Bool.and_comm _ _
  rw [hsame] at hrest
  rw [map_cons, sum_cons] at hceil
  have hceil : (p.ceilPpm : ℚ) +
      (((s.otherProfiles id).map DeadlineProfile.ceilPpm).sum : ℕ) ≤ 1000000 := by
    exact_mod_cast hceil
  rw [otherProfiles] at hceil
  linarith

/-- A fair profile gives up the share of its task. -/
theorem wp_setFairProfile (hs : s.Sound) (hone : s.utilization ≤ 1) (id p) :
    ends (setFairProfile id p) (fun t => t.utilization ≤ 1) s := by
  simp only [setFairProfile, wp_bind, wp_check, wp_get, wp_modify]
  refine ⟨fun _ => ⟨fun _ => ?_, fun _ => hone⟩, fun _ => hone⟩
  generalize hf : (fun t : SchedulerTask =>
    { t with
      priority := p.priority
      basePriority := p.priority
      effectivePriority := p.priority
      fairWeight := p.weight
      deadline := none
      quantumLeft := DEFAULT_QUANTUM_TICKS }) = f
  have hload : ∀ u, (f u).load ≤ u.load := by
    intro u
    rw [← hf, SchedulerTask.load]
    simp only [Option.map_none, Option.getD_none, ite_self]
    exact load_nonneg u
  have : Std.Refl fun u v : SchedulerTask => v.load ≤ u.load := ⟨fun u => le_refl u.load⟩
  have heach : Each (fun u v : SchedulerTask => v.load ≤ u.load) s (s.modifyTask id f) :=
    each_modifyTask s id f (fun u => by rw [← hf]) fun u _ => hload u
  rw [utilization, (calm_rebuildRunnableIndexes _).tasks]
  exact (utilization_of_each (fun _ _ h => h) hs.ids heach).trans hone

theorem wp_exec_utilization (hs : s.Sound) (hone : s.utilization ≤ 1) (op)
    (hfits : s.FitsRoundedUp op) :
    ends (exec op) (fun t => t.utilization ≤ 1) s := by
  by_cases hprofile : op.needs .profile
  · cases op with
    | setProfile id profile =>
      cases profile with
      | fair p => exact wp_setFairProfile hs hone id p
      | deadline p => exact wp_setDeadlineProfile hs hone hfits
    | _ => simp [SchedOp.needs] at hprofile
  · have hnext : ∀ t, Next (op.needs) op s t → t.utilization ≤ 1 := fun t ht =>
      (utilization_of_advance hprofile hs ht.2).trans hone
    exact wp_mono (wp_exec hs op fun _ h => h) (fun _ => hnext) fun _ => hnext

/-- **Deadline servers never hold more than one CPU**, if profiles that fit rounded down
also fit rounded up. -/
theorem utilization_le_one {s : Scheduler} (hs : Reaches FitsRoundedUp s) : s.utilization ≤ 1 := by
  have hinvariant : s.Sound ∧ s.utilization ≤ 1 := by
    refine hs.invariant (I := fun s => s.Sound ∧ s.utilization ≤ 1) (fun maxCpus s hnew => ?_)
      fun t op ht hfits => ?_
    · refine ⟨sound_of_withCpuCount hnew, ?_⟩
      rw [utilization, (tasks_of_withCpuCount hnew).1]
      exact zero_le_one
    · exact wp_mono (wp_and (wp_exec ht.1 op fun _ _ => trivial)
        (wp_exec_utilization ht.1 ht.2 op hfits)) (fun _ _ hu => ⟨hu.1.1, hu.2⟩)
        fun _ _ hu => ⟨hu.1.1, hu.2⟩
  exact hinvariant.2

/-- Two renderers of one millisecond and one of two in every eight. -/
def renderers : List SchedOp :=
  [.addTask 1 1 1 10 [97] UInt64.maxValue, .addTask 2 1 1 10 [98] UInt64.maxValue,
    .addTask 3 1 1 10 [99] UInt64.maxValue,
    .setProfile 1 (.deadline ⟨1000000, 8000000, 8000000⟩),
    .setProfile 2 (.deadline ⟨1000000, 8000000, 8000000⟩),
    .setProfile 3 (.deadline ⟨2000000, 8000000, 8000000⟩)]

theorem utilization_le_one_renderers :
    ∃ s, runFrom 1 (fun s op => decide (s.FitsRoundedUp op)) renderers = some s ∧
      s.utilization ≤ 1 := by
  have hrun : (runFrom 1 (fun s op => decide (s.FitsRoundedUp op)) renderers).isSome := by
    decide +kernel
  obtain ⟨s, hs⟩ := Option.isSome_iff_exists.mp hrun
  exact ⟨s, hs, utilization_le_one (reaches_of_runFrom hs fun _ _ h => of_decide_eq_true h)⟩

/-- Three tasks at 60 Hz that each ask for a little more than a third of the CPU. -/
def overbooked : List SchedOp :=
  [.addTask 1 1 1 10 [97] UInt64.maxValue, .addTask 2 1 1 10 [98] UInt64.maxValue,
    .addTask 3 1 1 10 [99] UInt64.maxValue,
    .setProfile 1 (.deadline ⟨5555556, 16666667, 16666667⟩),
    .setProfile 2 (.deadline ⟨5555556, 16666667, 16666667⟩),
    .setProfile 3 (.deadline ⟨5555556, 16666667, 16666667⟩)]

/-- All three are admitted, and together they hold more than one CPU. -/
theorem one_lt_utilization_overbooked :
    ∃ s, Reaches (fun _ _ => True) s ∧ runFrom 1 (fun _ _ => true) overbooked = some s ∧
      s.utilization = 16666668 / 16666667 ∧ 1 < s.utilization := by
  have hrun : (runFrom 1 (fun _ _ => true) overbooked).any fun s =>
      s.utilization == 16666668 / 16666667 := by decide +kernel
  obtain ⟨s, hs, hsum⟩ := (Option.any_eq_true _ _).mp hrun
  rw [beq_iff_eq] at hsum
  refine ⟨s, reaches_of_runFrom hs fun _ _ _ => trivial, hs, hsum, ?_⟩
  rw [hsum]
  norm_num

end Scheduler

end Bexos
