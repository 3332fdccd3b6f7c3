/-
Budgets of deadline servers.

A server (C, D, T) may use up to C nanoseconds until its budget is refilled; a refill moves
its absolute deadline by whole periods.  The scheduler gives a CPU only to servers with
budget, but a directed yield does not look at the budget of the task it names.

* `Scheduler.Serves` — how the server of a task changes while it keeps its profile;
* `Scheduler.wp_exec_isolates` — what one operation does to all servers;
* `Scheduler.budget_isolated` — budgets, refills and dispatch over runs, if no directed
  yield names a starved server and the clock stays in range.
-/
import Bexos.SchedulerOps

namespace Bexos

open Prog
open Option (map_some some_inj)

namespace Scheduler

variable {nowNs : UInt64} {u v : SchedulerTask}

/-! ### Budgets -/

/-- A deadline server in order: its budget is at most its capacity, and its deadline is not
further away than one relative deadline. -/
structure Orderly (nowNs : UInt64) (d : EffectiveDeadline) : Prop where
  valid : d.profile.valid
  capped : d.remainingBudgetNs ≤ d.profile.capacityNs
  room : nowNs.toNat + d.profile.deadlineNs.toNat < 2 ^ 64
  near : d.absoluteDeadlineNs.toNat ≤ nowNs.toNat + d.profile.deadlineNs.toNat

/-- What becomes of a server that keeps its profile: its deadline advances by whole periods,
and its budget is only refilled if it does. -/
structure Serves (d d' : EffectiveDeadline) : Prop where
  profile : d'.profile = d.profile
  periods : ∃ k, d'.absoluteDeadlineNs.toNat =
    d.absoluteDeadlineNs.toNat + k * d.profile.periodNs.toNat ∧
    (k = 0 → d'.remainingBudgetNs ≤ d.remainingBudgetNs)

theorem Serves.refl (d) : Serves d d :=
  ⟨rfl, 0, by rw [Nat.zero_mul, Nat.add_zero], fun _ => UInt64.le_refl _⟩

variable {d : EffectiveDeadline} {K : Special → Prop}

theorem Serves.trans {e f} (h₁ : Serves d e) (h₂ : Serves e f) : Serves d f := by
  obtain ⟨k, hk, hbudget⟩ := h₁.periods
  obtain ⟨l, hl, hbudget'⟩ := h₂.periods
  refine ⟨h₂.profile.trans h₁.profile, k + l, ?_, fun hzero => ?_⟩
  · rw [hl, hk, h₁.profile, Nat.add_mul, Nat.add_assoc]
  · obtain ⟨hk0, hl0⟩ := Nat.add_eq_zero_iff.mp hzero
    exact UInt64.le_trans (hbudget' hl0) (hbudget hk0)

theorem Orderly.refilled (h : Orderly nowNs d) :
    Orderly nowNs (refilled nowNs d) ∧ Serves d (refilled nowNs d) := by
  unfold Scheduler.refilled
  simp only
  split
  · rename_i hperiods
    have hroom := h.room
    have hpos : 0 < (nowNs.toNat - (d.absoluteDeadlineNs.toNat - d.profile.deadlineNs.toNat)) /
        d.profile.periodNs.toNat := by
      have hpos := UInt64.lt_iff_toNat_lt.mp hperiods
      rw [UInt64.toNat_div, UInt64.toNat_satSub, UInt64.toNat_satSub] at hpos
      exact hpos
    -- whole periods that have passed since the server's last release
    generalize hk : (nowNs.toNat - (d.absoluteDeadlineNs.toNat - d.profile.deadlineNs.toNat)) /
      d.profile.periodNs.toNat = k at hpos
    have hmul : k * d.profile.periodNs.toNat ≤
        nowNs.toNat - (d.absoluteDeadlineNs.toNat - d.profile.deadlineNs.toNat) :=
      hk ▸ Nat.div_mul_le_self _ _
    have hk' : (nowNs.satSub (d.absoluteDeadlineNs.satSub d.profile.deadlineNs) /
        d.profile.periodNs).toNat = k := by
      rw [UInt64.toNat_div, UInt64.toNat_satSub, UInt64.toNat_satSub, hk]
    have hstart : d.absoluteDeadlineNs.toNat - d.profile.deadlineNs.toNat < nowNs.toNat := by
      by_contra hlate
      rw [Nat.sub_eq_zero_of_le (Nat.not_lt.mp hlate), Nat.zero_div] at hk
      omega
    have hsatMul := UInt64.toNat_satMul_of_lt (a := nowNs.satSub (d.absoluteDeadlineNs.satSub
      d.profile.deadlineNs) / d.profile.periodNs) (b := d.profile.periodNs) (by rw [hk']; omega)
    rw [hk'] at hsatMul
    have hsatAdd := UInt64.toNat_satAdd_of_lt (a := d.absoluteDeadlineNs) (b := (nowNs.satSub
      (d.absoluteDeadlineNs.satSub d.profile.deadlineNs) / d.profile.periodNs).satMul
        d.profile.periodNs) (by rw [hsatMul]; omega)
    rw [hsatMul] at hsatAdd
    refine ⟨⟨h.valid, UInt64.le_refl _, hroom, ?_⟩, rfl, k, hsatAdd, fun hzero => ?_⟩
    · rw [hsatAdd]
      simp only
      omega
    · omega
  · exact ⟨h, .refl d⟩

theorem Orderly.spent (h : Orderly nowNs d) (elapsed) :
    Orderly nowNs { d with remainingBudgetNs := d.remainingBudgetNs.satSub elapsed } ∧
      Serves d { d with remainingBudgetNs := d.remainingBudgetNs.satSub elapsed } := by
  have hle : d.remainingBudgetNs.satSub elapsed ≤ d.remainingBudgetNs := by
    rw [UInt64.le_iff_toNat_le, UInt64.toNat_satSub]
    exact Nat.sub_le _ _
  exact ⟨⟨h.valid, UInt64.le_trans hle h.capped, h.room, h.near⟩, rfl, 0,
    by rw [Nat.zero_mul, Nat.add_zero], fun _ => hle⟩

/-- What a change does to the server of a task. -/
def Turns (nowNs : UInt64) (u v : SchedulerTask) : Prop :=
  ∃ f, v.deadline = u.deadline.map f ∧
    ∀ d, Orderly nowNs d → Orderly nowNs (f d) ∧ Serves d (f d)

theorem Turns.of_eq (h : v.deadline = u.deadline) : Turns nowNs u v :=
  ⟨id, by rw [h, Option.map_id_fun, id_eq], fun d hd => ⟨hd, .refl d⟩⟩

theorem Turns.trans {w} (h₁ : Turns nowNs u v) (h₂ : Turns nowNs v w) : Turns nowNs u w := by
  obtain ⟨f, hf, hf'⟩ := h₁
  obtain ⟨g, hg, hg'⟩ := h₂
  refine ⟨g ∘ f, by rw [hg, hf, Option.map_map], fun d hd => ?_⟩
  have hfirst := hf' d hd
  have hsecond := hg' (f d) hfirst.1
  exact ⟨hsecond.1, hfirst.2.trans hsecond.2⟩

theorem turns_of_change (hK : ¬ K .profile) (h : SchedulerTask.Change K nowNs u v) :
    Turns nowNs u v := by
  rcases server_of_change hK h with h | h | ⟨-, elapsed, h⟩
  · exact .of_eq h
  · exact ⟨_, h, fun d hd => hd.refilled⟩
  · exact ⟨_, h, fun d hd => hd.spent elapsed⟩

theorem turns_of_changes (hK : ¬ K .profile) (h : SchedulerTask.Changes K nowNs u v) :
    Turns nowNs u v := by
  induction h with
  | refl => exact .of_eq rfl
  | tail _ hchange ih => exact ih.trans (turns_of_change hK hchange)

/-! ### Starved servers -/

/-- A task that runs has budget. -/
def Fed (u : SchedulerTask) : Prop := u.state = .running → u.starved = false

theorem starved_of_budget (h : ∀ d ∈ u.deadline, 0 < d.remainingBudgetNs) : u.starved = false := by
  unfold SchedulerTask.starved
  cases hd : u.deadline with
  | none => rfl
  | some d =>
    rw [Option.any_some, beq_eq_false_iff_ne]
    intro hzero
    have hpos := h d hd
    rw [hzero] at hpos
    exact absurd hpos (UInt64.lt_irrefl 0)

/-- A task gets a CPU only with budget, unless a yield names a starved one. -/
theorem fed_of_change (hprofile : ¬ K .profile) (hspend : ¬ K .spend)
    (hdirect : ¬ K (.direct true)) (h : SchedulerTask.Change K nowNs u v) (hu : Fed u) : Fed v := by
  cases h with
  -- a running task is not refilled
  | refill =>
    intro hrunning
    have hstate : u.state = .running :=
      (congrArg Prod.fst (SchedulerTask.origin_replenish nowNs u).2).symm.trans hrunning
    unfold replenish
    rw [if_pos hstate]
    exact hu hstate
  | charge =>
    intro hrunning
    have hstate : u.state = .running :=
      (congrArg Prod.fst (SchedulerTask.origin_chargeTick nowNs u).2).symm.trans hrunning
    rw [SchedulerTask.starved, deadline_chargeTick]
    exact hu hstate
  | dispatch cpu hready hbudget => exact fun _ => starved_of_budget hbudget
  -- a directed yield may start a server without budget; that change is excluded
  | direct hready hK =>
    intro _
    cases hstarved : u.starved with
    | false => exact hstarved
    | true => rw [hstarved] at hK; exact absurd hK hdirect
  | wake =>
    obtain ⟨_, _, _, _, _, _, _, _, state⟩ := u
    cases state with
    | running => exact hu
    | _ => intro hrunning; cases hrunning
  | hold held fromStates processId hheld =>
    unfold SchedulerTask.hold
    split
    · rintro rfl
      cases hheld
    · exact hu
  | release held processId =>
    unfold SchedulerTask.release
    split
    · intro hrunning
      simp only at hrunning
      split at hrunning <;> cases hrunning
    · exact hu
  | suspend =>
    unfold suspend
    split
    · exact hu
    · intro hrunning
      cases hrunning
  | spend _ hK => exact absurd hK hspend
  | profile _ _ _ _ _ _ hK => exact absurd hK hprofile
  | priority | affinity => exact hu
  | preempt | exit | block => intro hrunning; cases hrunning

theorem fed_of_changes (hprofile : ¬ K .profile) (hspend : ¬ K .spend)
    (hdirect : ¬ K (.direct true)) (h : SchedulerTask.Changes K nowNs u v) (hu : Fed u) :
    Fed v := by
  induction h with
  | refl => exact hu
  | tail _ hchange ih => exact fed_of_change hprofile hspend hdirect hchange ih

/-- Every deadline server is in order. -/
def InOrder (s : Scheduler) : Prop :=
  ∀ id u, s.task id = some u → ∀ d ∈ u.deadline, Orderly s.nowNs d

/-- What happens to the servers of the tasks, apart from those whose profile is set. -/
structure Isolates (op : SchedOp) (s t : Scheduler) : Prop where
  order : t.InOrder
  serves : ∀ id u v, s.task id = some u → t.task id = some v → (∀ p, op ≠ .setProfile id p) →
    ∀ d, u.deadline = some d → ∃ d', v.deadline = some d' ∧ Serves d d'
  fed : ∀ id u v, s.task id = some u → t.task id = some v → (∀ p, op ≠ .setProfile id p) →
    u.state ≠ .running → Fed v

section Isolation

variable {op : SchedOp} {s c t : Scheduler}

theorem Turns.serves (h : Turns nowNs u v) (hd : u.deadline = some d) (horder : Orderly nowNs d) :
    ∃ d', v.deadline = some d' ∧ Serves d d' := by
  obtain ⟨f, hf, hf'⟩ := h
  exact ⟨f d, by rw [hf, hd, map_some], (hf' d horder).2⟩

theorem Turns.order (h : Turns nowNs u v) (hu : ∀ d ∈ u.deadline, Orderly nowNs d) :
    ∀ d ∈ v.deadline, Orderly nowNs d := by
  obtain ⟨f, hf, hf'⟩ := h
  intro d' hd'
  rw [Option.mem_def, hf] at hd'
  obtain ⟨d, hd, rfl⟩ := Option.map_eq_some_iff.mp hd'
  exact (hf' d (hu d hd)).1

theorem InOrder.each (hs : s.InOrder) (hnow : t.nowNs = s.nowNs)
    (h : Each (fun u v => Turns s.nowNs u v) s t) : t.InOrder := by
  intro id v hv
  obtain ⟨u, hu, hturns⟩ := exists_of_rel' (h.2 id) hv
  rw [hnow]
  exact hturns.order (hs id u hu)

theorem fed_of_idle (h : u.state ≠ .running) : Fed u :=
  fun hrunning => absurd hrunning h

/-- While the clock stands. -/
theorem isolates_of_each (hs : s.InOrder) (hprofile : ¬ K .profile) (hspend : ¬ K .spend)
    (hdirect : ¬ K (.direct true)) (hnow : t.nowNs = s.nowNs)
    (h : Each (SchedulerTask.Changes K s.nowNs) s t) : Isolates op s t := by
  refine ⟨hs.each hnow (h.mono fun _ _ => turns_of_changes hprofile), fun id u v hu hv _ d hd => ?_,
    fun id u v hu hv _ hidle => ?_⟩
  · obtain ⟨v', hv', hchanges⟩ := exists_of_rel (h.2 id) hu
    rw [hv, some_inj] at hv'
    subst hv'
    exact (turns_of_changes hprofile hchanges).serves hd (hs id u hu d hd)
  · obtain ⟨v', hv', hchanges⟩ := exists_of_rel (h.2 id) hu
    rw [hv, some_inj] at hv'
    subst hv'
    exact fed_of_changes hprofile hspend hdirect hchanges (fed_of_idle hidle)

theorem Orderly.later {nowNs'} (h : Orderly nowNs d) (hle : nowNs ≤ nowNs')
    (hroom : nowNs'.toNat + d.profile.deadlineNs.toNat < 2 ^ 64) : Orderly nowNs' d := by
  have hle := UInt64.le_iff_toNat_le.mp hle
  exact ⟨h.valid, h.capped, hroom, h.near.trans (Nat.add_le_add_right hle _)⟩

/-- The clock plus the relative deadline of every server fits a word. -/
def InTime (nowNs : UInt64) (s : Scheduler) : Prop :=
  ∀ u ∈ s.tasks, ∀ d ∈ u.deadline, nowNs.toNat + d.profile.deadlineNs.toNat < 2 ^ 64
  deriving Decidable

theorem Clocked.inOrder (hc : Clocked nowNs s c) (hs : s.InOrder) (htime : s.InTime nowNs) :
    c.InOrder := by
  intro id w hw
  obtain ⟨u, hu, hchanges⟩ := exists_of_rel' ((hc.each (K := (· = .spend)) rfl).2 id) hw
  have hturns : Turns s.nowNs u w := turns_of_changes (by simp) hchanges
  intro d hd
  rw [hc.now]
  refine (hturns.order (hs id u hu) d hd).later hc.le ?_
  obtain ⟨f, hf, hf'⟩ := hturns
  rw [Option.mem_def, hf] at hd
  obtain ⟨d₀, hd₀, rfl⟩ := Option.map_eq_some_iff.mp hd
  rw [(hf' d₀ (hs id u hu d₀ hd₀)).2.profile]
  exact htime u (List.mem_of_find?_eq_some hu) d₀ hd₀

/-- When the clock is set, the running tasks are charged first. -/
theorem isolates_of_clocked (hsound : s.Sound) (hs : s.InOrder) (htime : s.InTime nowNs)
    (hprofile : ¬ K .profile) (hspend : ¬ K .spend) (hdirect : ¬ K (.direct true))
    (hc : Clocked nowNs s c) (h : Tracks K c t) :
    Isolates op s t := by
  have hrest : Isolates op c t :=
    isolates_of_each (hc.inOrder hs htime) hprofile hspend hdirect h.now h.each
  refine ⟨hrest.order, fun id u v hu hv hop d hd => ?_, fun id u v hu hv hop hidle => ?_⟩
  · obtain ⟨w, hw, hchanges⟩ := exists_of_rel ((hc.each (K := (· = .spend)) rfl).2 id) hu
    have hturns : Turns s.nowNs u w := turns_of_changes (by simp) hchanges
    obtain ⟨d₁, hd₁, hserves⟩ := hturns.serves hd (hs id u hu d hd)
    obtain ⟨d₂, hd₂, hserves'⟩ := hrest.serves id w v hw hv hop d₁ hd₁
    exact ⟨d₂, hd₂, hserves.trans hserves'⟩
  · refine hrest.fed id u v ?_ hv hop hidle
    rw [hc.task, task_accountRuntime_of_idle nowNs (hsound.not_runs hu hidle), hu]

/-- A task that runs does not become ready while tasks are only woken. -/
theorem running_or_exited_of_changes (h : SchedulerTask.Changes (fun _ => False) nowNs u v)
    (hu : u.state = .running ∨ u.state = .exited) : v.state = .running ∨ v.state = .exited := by
  induction h with
  | refl => exact hu
  | @tail v w _ hchange ih =>
    rcases ih with ih | ih
    · cases hchange with
      | refill => exact .inl ((congrArg Prod.fst (SchedulerTask.origin_replenish nowNs v).2).trans ih)
      | charge => exact .inl ((congrArg Prod.fst (SchedulerTask.origin_chargeTick nowNs v).2).trans ih)
      | dispatch => exact .inl rfl
      | wake =>
        obtain ⟨_, _, _, _, _, _, _, _, state⟩ := v
        cases ih
        exact .inl rfl
      | exit => exact .inr rfl
      | priority | affinity => exact .inl ih
      | preempt _ _ hK | block _ _ hK | direct _ hK | spend _ hK | profile _ _ _ _ _ _ hK
      | hold _ _ _ _ _ hK | release _ _ _ hK | suspend hK => exact hK.elim
    · exact .inr (exited_of_change hchange ih)

/-- A server with budget keeps some while tasks are only woken. -/
theorem starved_of_changes (h : SchedulerTask.Changes (fun _ => False) nowNs u v)
    (horder : ∀ d ∈ u.deadline, Orderly nowNs d) (hu : u.starved = false) : v.starved = false := by
  -- a refill gives the whole capacity, which is not zero
  have hkeep : ∀ d, Orderly nowNs d → d.remainingBudgetNs ≠ 0 →
      (refilled nowNs d).remainingBudgetNs ≠ 0 := by
    intro d hd hbudget
    unfold refilled
    simp only
    split
    · have hvalid := hd.valid
      simp only [DeadlineProfile.valid, Bool.and_eq_true, decide_eq_true_eq] at hvalid
      intro hzero
      have hzero : d.profile.capacityNs = 0 := hzero
      have hpos := hvalid.1.1
      rw [gt_iff_lt, hzero] at hpos
      exact absurd hpos (UInt64.lt_irrefl 0)
    · exact hbudget
  have hboth : (∀ d ∈ v.deadline, Orderly nowNs d) ∧ v.starved = false := by
    induction h with
    | refl => exact ⟨horder, hu⟩
    | @tail v w _ hchange ih =>
      refine ⟨(turns_of_change id hchange).order ih.1, ?_⟩
      have hstarved := ih.2
      unfold SchedulerTask.starved at hstarved ⊢
      rcases server_of_change id hchange with h | h | ⟨hK, -⟩
      · rwa [h]
      · rw [h]
        cases hd : v.deadline with
        | none => rfl
        | some d =>
          rw [hd, Option.any_some, beq_eq_false_iff_ne] at hstarved
          rw [map_some, Option.any_some, beq_eq_false_iff_ne]
          exact hkeep d (ih.1 d hd) hstarved
      · exact hK.elim
  exact hboth.2

/-- The server of the task that a directed yield names has budget left. -/
def TargetFed (targetId : Option ℕ) (s : Scheduler) : Prop :=
  ∀ id ∈ targetId, ∀ u ∈ s.tasks, u.id = id → u.starved = false
  deriving Decidable

/-- No directed yield names a task whose budget is used up, and the clock stays in range. -/
def Isolating (s : Scheduler) (op : SchedOp) : Prop :=
  (∀ nowNs ∈ op.clock s, s.InTime nowNs) ∧
    match op with
    | .setProfile _ (.deadline p) => s.nowNs.toNat + p.deadlineNs.toNat < 2 ^ 64
    | .yieldCurrentToOnCpu _ targetId | .yieldCurrentToAtOnCpu _ targetId _ => s.TargetFed targetId
    | _ => True

/-- The special changes of a yield that names no starved task. -/
def Courteous (k : Special) : Prop := k = .preempt ∨ k = .direct false

theorem Directs.of_fed {targetId} (h : s.TargetFed targetId) : s.Directs Courteous targetId := by
  intro id hid u hu _
  rw [h id hid u (List.mem_of_find?_eq_some hu) (id_of_task hu)]
  exact .inr rfl

theorem isolates_of_next (hsound : s.Sound) (hs : s.InOrder)
    (htime : ∀ nowNs ∈ op.clock s, s.InTime nowNs) (hprofile : ¬ K .profile) (hspend : ¬ K .spend)
    (hdirect : ¬ K (.direct true)) (h : Advance K op s t) : Isolates op s t := by
  cases h with
  | tracks h => exact isolates_of_each hs hprofile hspend hdirect h.now h.each
  | clocked nowNs c hop hc h =>
    exact isolates_of_clocked hsound hs (htime nowNs hop) hprofile hspend hdirect hc h
  | added _ w hfresh hnow h =>
    -- a new task has no server
    have happend : ({ s with runtime := s.runtime, tasks := s.tasks ++ [w] } : Scheduler).InOrder := by
      intro id u hu d hd
      rw [task_append s s.runtime h.new] at hu
      split at hu
      · rw [← Option.some.inj hu, hfresh.deadline] at hd
        cases hd
      · exact hs id u hu d hd
    have hrest : Isolates op _ t :=
      isolates_of_each happend hprofile hspend hdirect hnow (h.each_append s.runtime)
    have hold : ∀ id u, s.task id = some u →
        ({ s with runtime := s.runtime, tasks := s.tasks ++ [w] } : Scheduler).task id = some u := by
      intro id u hu
      rw [task_append s s.runtime h.new, if_neg, hu]
      rintro rfl
      rw [h.new] at hu
      cases hu
    exact ⟨hrest.order, fun id u v hu => hrest.serves id u v (hold id u hu),
      fun id u v hu => hrest.fed id u v (hold id u hu)⟩
  | cleaned _ h =>
    have hnow : t.nowNs = s.nowNs := h.now
    have hsame : ∀ id v, t.task id = some v → s.task id = some v := by
      intro id v hv
      rw [h.task, task_removeExited hsound.ids] at hv
      exact (Option.filter_eq_some_iff.mp hv).1
    refine ⟨fun id v hv => hnow ▸ hs id v (hsame id v hv), fun id u v hu hv _ d hd => ?_,
      fun id u v hu hv _ hidle => ?_⟩
    · rw [hsame id v hv, some_inj] at hu
      exact ⟨d, hu ▸ hd, .refl d⟩
    · rw [hsame id v hv, some_inj] at hu
      exact fed_of_idle (hu ▸ hidle)

theorem Isolates.refl (hs : s.InOrder) : Isolates op s s :=
  isolates_of_each (K := fun _ => False) hs id id id rfl (.refl s)

/-- Setting the profile of a task leaves the others. -/
theorem isolates_of_setProfile (hs : s.InOrder) (id : ℕ) (p : SchedulingProfile)
    (f : SchedulerTask → SchedulerTask) (hf : ∀ u, (f u).id = u.id)
    (horder : ∀ u, ∀ d ∈ (f u).deadline, Orderly s.nowNs d) :
    Isolates (.setProfile id p) s (s.modifyTask id f).rebuildRunnableIndexes := by
  have hcalm := calm_rebuildRunnableIndexes (s.modifyTask id f)
  have hnow : (s.modifyTask id f).rebuildRunnableIndexes.nowNs = s.nowNs := hcalm.now
  have htask : ∀ j, (s.modifyTask id f).rebuildRunnableIndexes.task j =
      if j = id then (s.task j).map f else s.task j := fun j =>
    (hcalm.task j).trans (task_modifyTask s id j f hf)
  have hother : ∀ j, (∀ q, SchedOp.setProfile id p ≠ .setProfile j q) → j ≠ id := by
    rintro j hop rfl
    exact hop p rfl
  refine ⟨fun j v hv => ?_, fun j u v hu hv hop d hd => ?_, fun j u v hu hv hop hidle => ?_⟩
  · rw [htask] at hv
    rw [hnow]
    split at hv
    · obtain ⟨u, -, rfl⟩ := Option.map_eq_some_iff.mp hv
      exact horder u
    · exact hs j v hv
  · rw [htask, if_neg (hother j hop), hu, some_inj] at hv
    exact ⟨d, hv ▸ hd, .refl d⟩
  · rw [htask, if_neg (hother j hop), hu, some_inj] at hv
    exact fed_of_idle (hv ▸ hidle)

theorem wp_setProfile_isolates (hs : s.InOrder) (id profile)
    (hop : s.Isolating (.setProfile id profile)) :
    ends (setProfile id profile) (Isolates (.setProfile id profile) s) s := by
  cases profile with
  | fair p =>
    simp only [setProfile, setFairProfile, wp_bind, wp_check, wp_get, wp_modify]
    refine ⟨fun _ => ⟨fun _ => ?_, fun _ => .refl hs⟩, fun _ => .refl hs⟩
    refine isolates_of_setProfile hs id (.fair p) _ ?_ ?_
    · exact fun _ => rfl
    · intro u d hd
      cases hd
  | deadline p =>
    simp only [setProfile, setDeadlineProfile, wp_bind, wp_check, wp_get, wp_some?, wp_unwrap,
      wp_modify]
    refine ⟨fun hvalid => ⟨fun _ _ _ _ => ⟨fun _ => ⟨fun _ => ?_, fun _ => .refl hs⟩,
      fun _ => .refl hs⟩, fun _ => .refl hs⟩, fun _ => .refl hs⟩
    have hroom : s.nowNs.toNat + p.deadlineNs.toNat < 2 ^ 64 := hop.2
    refine isolates_of_setProfile hs id (.deadline p) _ ?_ ?_
    · exact fun _ => rfl
    · rintro u d ⟨⟩
      exact ⟨hvalid, UInt64.le_refl _, hroom, (UInt64.toNat_satAdd_of_lt hroom).le⟩

/-- Charging time leaves everyone where they stand. -/
theorem isolates_of_mild (hs : s.InOrder) (hprofile : ¬ K .profile) (h : Mild K s t) :
    Isolates op s t := by
  refine ⟨hs.each h.now (h.each.mono fun _ _ => turns_of_changes hprofile),
    fun id u v hu hv _ d hd => ?_, fun id u v hu hv _ hidle => ?_⟩
  · obtain ⟨v', hv', hchanges⟩ := exists_of_rel (h.each.2 id) hu
    rw [hv, some_inj] at hv'
    subst hv'
    exact (turns_of_changes hprofile hchanges).serves hd (hs id u hu d hd)
  · have hstance := h.stance id
    rw [hu, hv, map_some, map_some, some_inj] at hstance
    have hstate : v.state = u.state := congrArg Prod.fst hstance
    exact fed_of_idle (hstate ▸ hidle)

theorem wp_yieldAt_isolates (hsound : s.Sound) (hs : s.InOrder) (cpu targetId nowNs) (hop : s.Isolating
    (.yieldCurrentToAtOnCpu cpu targetId nowNs)) :
    ends (yieldCurrentToAtOnCpu cpu targetId nowNs)
      (Isolates (.yieldCurrentToAtOnCpu cpu targetId nowNs) s) s := by
  have htime : s.InTime nowNs := hop.1 nowNs rfl
  have hclocked : ∀ {c t}, Clocked nowNs s c → Tracks Courteous c t →
      Isolates (.yieldCurrentToAtOnCpu cpu targetId nowNs) s t := fun hc ht =>
    isolates_of_clocked hsound hs htime (by simp [Courteous]) (by simp [Courteous])
      (by simp [Courteous]) hc ht
  refine wp_yieldCurrentToAtOnCpu (.inl rfl) hsound (fun c t hc ht => ?_)
    (fun _ c t hc ht _ => hclocked hc ht) (fun _ => .refl hs) fun _ c t hc ht => hclocked hc ht
  -- a target that is ready now was not running, so it has not been charged
  intro id hid v hv hready
  obtain ⟨w, hw, hchanges⟩ := exists_of_rel' (ht.each.2 id) hv
  obtain ⟨u, hu, -⟩ := exists_of_rel' ((hc.each (K := (· = .spend)) rfl).2 id) hw
  have hidle : u.state ≠ .running := by
    intro hrunning
    have hstance := (mild_accountRuntime (K := fun _ => True) trivial nowNs s).stance id
    rw [← hc.task, hw, hu, map_some, map_some, some_inj] at hstance
    have hstate : w.state = .running := (congrArg Prod.fst hstance).trans hrunning
    have hend := running_or_exited_of_changes hchanges (.inl hstate)
    rw [hready] at hend
    simp at hend
  have hsame : w = u := by
    rw [hc.task, task_accountRuntime_of_idle nowNs (hsound.not_runs hu hidle), hu,
      some_inj] at hw
    exact hw.symm
  have hfed : u.starved = false := hop.2 id hid u (List.mem_of_find?_eq_some hu) (id_of_task hu)
  have horder := hc.inOrder hs htime id w hw
  rw [starved_of_changes hchanges horder (hsame ▸ hfed)]
  exact .inr rfl

/-- Every operation isolates the servers. -/
theorem wp_exec_isolates (hsound : s.Sound) (hs : s.InOrder) (hop : s.Isolating op) :
    ends (exec op) (Isolates op s) s := by
  have hothers : ¬ op.needs .profile → ¬ op.needs .spend → ¬ op.needs (.direct true) →
      ends (exec op) (Isolates op s) s := by
    intro hprofile hspend hdirect
    have hnext : ∀ t, Next op.needs op s t → Isolates op s t := fun t ht =>
      isolates_of_next hsound hs hop.1 hprofile hspend hdirect ht.2
    exact wp_mono (wp_exec hsound op fun _ h => h) (fun _ => hnext) fun _ => hnext
  cases op with
  | setProfile id profile => exact wp_setProfile_isolates hs id profile hop
  | accountRuntime nowNs =>
    exact (wp_modify _).mpr (isolates_of_mild (K := (· = .spend)) hs (by simp)
      (mild_accountRuntime (K := (· = .spend)) rfl nowNs s))
  | accountExecuting cpu thread nowNs =>
    exact (wp_modify _).mpr (isolates_of_mild (K := (· = .spend)) hs (by simp)
      (mild_accountExecuting (K := (· = .spend)) rfl cpu thread nowNs s))
  | yieldCurrentToOnCpu cpu targetId =>
    refine wp_discard (wp_yieldCurrentToOnCpu (.inl rfl) hsound (.of_fed hop.2)
      (fun _ t ht _ => ?_) fun _ => .refl hs)
    exact isolates_of_each (K := Courteous) hs (by simp [Courteous]) (by simp [Courteous])
      (by simp [Courteous]) ht.now ht.each
  | yieldCurrentToAtOnCpu cpu targetId nowNs =>
    exact wp_discard (wp_yieldAt_isolates hsound hs cpu targetId nowNs hop)
  | _ => exact hothers (by simp [SchedOp.needs]) (by simp [SchedOp.needs]) (by simp [SchedOp.needs])

end Isolation

theorem Reaches.inOrder {s} (hs : Reaches Isolating s) : s.InOrder := by
  have hinvariant : s.Sound ∧ s.InOrder := by
    refine hs.invariant (I := fun s => s.Sound ∧ s.InOrder) (fun maxCpus s hnew => ?_)
      fun t op ht hop => ?_
    · refine ⟨sound_of_withCpuCount hnew, fun id u hu => ?_⟩
      rw [Scheduler.task, (tasks_of_withCpuCount hnew).1] at hu
      cases hu
    · exact wp_mono (wp_and (wp_exec ht.1 op fun _ _ => trivial) (wp_exec_isolates ht.1 ht.2 hop))
        (fun _ _ hu => ⟨hu.1.1, hu.2.order⟩) fun _ _ hu => ⟨hu.1.1, hu.2.order⟩
  exact hinvariant.2

/-- What the next operation makes of a server (C, D, T) that keeps its profile. -/
structure BudgetKept (s t : Scheduler) (u v : SchedulerTask) (d : EffectiveDeadline) : Prop where
  capped : d.remainingBudgetNs ≤ d.profile.capacityNs
  next : ∃ d', v.deadline = some d' ∧ d'.profile = d.profile ∧
    d'.remainingBudgetNs ≤ d.profile.capacityNs ∧
    -- a refill comes with a positive number of periods, which never run ahead of the clock
    (∃ k, d'.absoluteDeadlineNs.toNat =
        d.absoluteDeadlineNs.toNat + k * d.profile.periodNs.toNat ∧
      (k = 0 → d'.remainingBudgetNs ≤ d.remainingBudgetNs)) ∧
    d'.absoluteDeadlineNs.toNat ≤ t.nowNs.toNat + d.profile.deadlineNs.toNat ∧
    (u.state ≠ .running → v.state = .running → 0 < d'.remainingBudgetNs)

/-- **Deadline servers are isolated** if no directed yield names a starved one. -/
theorem budget_isolated {s t : Scheduler} {op : SchedOp} (hs : Reaches Isolating s)
    (hop : s.Isolating op) (hstep : step op s = some t) {id : ℕ} {u v : SchedulerTask}
    {d : EffectiveDeadline} (hu : s.task id = some u) (hv : t.task id = some v)
    (hd : u.deadline = some d) (hkeep : ∀ p, op ≠ .setProfile id p) : BudgetKept s t u v d := by
  have hisolates : Isolates op s t := of_state (wp_exec_isolates hs.sound hs.inOrder hop) hstep
  obtain ⟨d', hd', hserves⟩ := hisolates.serves id u v hu hv hkeep d hd
  have horder := hisolates.order id v hv d' hd'
  refine ⟨(hs.inOrder id u hu d hd).capped, d', hd', hserves.profile, hserves.profile ▸ horder.capped,
    hserves.periods, hserves.profile ▸ horder.near, fun hidle hrunning => ?_⟩
  have hfed := hisolates.fed id u v hu hv hkeep hidle hrunning
  rw [SchedulerTask.starved, hd', Option.any_some, beq_eq_false_iff_ne] at hfed
  exact UInt64.pos_iff_ne_zero.mpr hfed

/-- A renderer of 3 ms in every 16 has used up its budget; the storage service runs. -/
def exhausted : List SchedOp :=
  [.accountRuntime 0, .addTask 1 1 1 10 [97] UInt64.maxValue, .addTask 2 1 1 10 [98] UInt64.maxValue,
    .setProfile 2 (.deadline ⟨3000000, 16000000, 16000000⟩), .yieldCurrentToAtOnCpu 0 (some 2) 0,
    .tickAtOnCpu 0 3000000]

instance (s : Scheduler) (op : SchedOp) : Decidable (s.Isolating op) := by
  unfold Isolating
  -- not by trying every time
  refine @instDecidableAnd _ _ (Option.decidableForallMem _) ?_
  cases op with
  | setProfile id profile =>
    cases profile with
    | fair => exact inferInstanceAs (Decidable True)
    | deadline p => exact inferInstanceAs (Decidable (_ < _))
  | yieldCurrentToOnCpu cpu targetId | yieldCurrentToAtOnCpu cpu targetId nowNs =>
    exact inferInstanceAs (Decidable (s.TargetFed targetId))
  | _ => exact inferInstanceAs (Decidable True)

/-- In its next period the renderer is refilled and runs again. -/
theorem budget_isolated_renderer :
    ∃ s t u v d, runFrom 1 (fun s op => decide (s.Isolating op)) exhausted = some s ∧
      step (.tickAtOnCpu 0 16000000) s = some t ∧ s.task 2 = some u ∧ t.task 2 = some v ∧
      u.deadline = some d ∧ u.state = .ready ∧ v.state = .running ∧ BudgetKept s t u v d := by
  have hrun : (runFrom 1 (fun s op => decide (s.Isolating op)) exhausted).any fun s =>
      decide (s.Isolating (.tickAtOnCpu 0 16000000)) &&
      (step (.tickAtOnCpu 0 16000000) s).any fun t => (s.task 2).any fun u =>
        u.deadline.isSome && (t.task 2).any fun v => u.state == .ready && v.state == .running := by
    decide +kernel
  simp only [Option.any_eq_true, Bool.and_eq_true, beq_iff_eq, decide_eq_true_eq,
    Option.isSome_iff_exists] at hrun
  obtain ⟨s, hs, hop, t, ht, u, hu, ⟨d, hd⟩, v, hv, hready, hrunning⟩ := hrun
  exact ⟨s, t, u, v, d, hs, ht, hu, hv, hd, hready, hrunning,
    budget_isolated (reaches_of_runFrom hs fun _ _ h => of_decide_eq_true h) hop ht hu hv hd
      fun _ h => by cases h⟩

/-- A directed yield makes it run without budget. -/
theorem runs_without_budget :
    ∃ s t u v, Reaches (fun _ _ => True) s ∧ runFrom 1 (fun _ _ => true) exhausted = some s ∧
      step (.yieldCurrentToOnCpu 0 (some 2)) s = some t ∧
      s.task 2 = some u ∧ t.task 2 = some v ∧ u.state = .ready ∧ v.state = .running ∧
      v.deadline.map (·.remainingBudgetNs) = some 0 := by
  have hrun : (runFrom 1 (fun _ _ => true) exhausted).any fun s =>
      (step (.yieldCurrentToOnCpu 0 (some 2)) s).any fun t => (s.task 2).any fun u =>
        (t.task 2).any fun v => u.state == .ready && v.state == .running &&
          v.deadline.map (·.remainingBudgetNs) == some 0 := by decide +kernel
  simp only [Option.any_eq_true, Bool.and_eq_true, beq_iff_eq] at hrun
  obtain ⟨s, hs, t, ht, u, hu, v, hv, ⟨hready, hrunning⟩, hbudget⟩ := hrun
  exact ⟨s, t, u, v, reaches_of_runFrom hs fun _ _ _ => trivial, hs, ht, hu, hv, hready, hrunning,
    hbudget⟩

end Scheduler

end Bexos
