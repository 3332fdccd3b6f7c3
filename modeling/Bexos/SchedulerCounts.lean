/-
Who runs where, and how many tasks each group could run.

The cached count of a group's runnable tasks is rebuilt from the tasks by most operations;
between two rebuilds tasks only pass from ready to running and back.

* `Scheduler.Counted` — every cached count is right, up to its saturation at 65535;
* `Scheduler.Tally` — the preorder of the operations that keep the counts right, and
  `Scheduler.Settles`, the programs that make them right;
* `Scheduler.ownership_of_reaches` — tasks, CPUs and counts agree after every run.
-/
import Bexos.SchedulerOps

-- programs are walked by instance search, one node for each of their steps
namespace Bexos

open Prog

/-- Ready or running. -/
def SchedulerTask.runnable (u : SchedulerTask) : Bool := u.state == .ready || u.state == .running

namespace Scheduler

theorem countP_eq_of_forall₂ {α : Type} {R : α → α → Prop} {p : α → Bool}
    (hp : ∀ a b, R a b → p b = p a) {l l'} (h : List.Forall₂ R l l') :
    l'.countP p = l.countP p := by
  induction h with
  | nil => rfl
  | cons hab _ ih => rw [List.countP_cons, List.countP_cons, ih, hp _ _ hab]

/-! ### Right counts -/

/-- How many tasks a group could run. -/
def runnableIn (s : Scheduler) (group : UInt32) : ℕ :=
  s.tasks.countP fun u => u.resourceGroupId == group && u.runnable

/-- The cached counts are right. -/
def Counted (s : Scheduler) : Prop :=
  ∀ id g, s.resourceGroup id = some g → g.runnableTasks.toNat = min (s.runnableIn id) 65535

/-- Tasks and groups have their own identifiers, and every task has a group. -/
structure Keyed (s : Scheduler) : Prop where
  ids : s.ids.Nodup
  groups : (s.groups.map (·.id)).Nodup
  housed : ∀ u ∈ s.tasks, u.resourceGroupId ∈ s.groups.map (·.id)

/-- Two tasks count alike. -/
def Alike (u v : SchedulerTask) : Prop :=
  v.resourceGroupId = u.resourceGroupId ∧ v.runnable = u.runnable

instance : Std.Refl Alike := ⟨fun _ => ⟨rfl, rfl⟩⟩

instance : IsTrans SchedulerTask Alike :=
  ⟨fun _ _ _ h₁ h₂ => ⟨h₂.1.trans h₁.1, h₂.2.trans h₁.2⟩⟩

/-- What the counts of a group table depend on. -/
def tallies (groups : List ResourceGroup) : List (UInt32 × UInt16) :=
  groups.map fun g => (g.id, g.runnableTasks)

/-- Operations that leave the tables of identifiers. -/
def Keys (s t : Scheduler) : Prop := s.Keyed → t.Keyed

/-- Operations that keep right counts right. -/
def Tally (s t : Scheduler) : Prop := s.Keyed → t.Keyed ∧ (s.Counted → t.Counted)

/-- Nothing that is counted has changed. -/
structure Even (s t : Scheduler) : Prop where
  groups : tallies t.groups = tallies s.groups
  each : Each Alike s t

instance : Std.Refl Keys := ⟨fun _ h => h⟩

instance : IsTrans Scheduler Keys := ⟨fun _ _ _ h₁ h₂ h => h₂ (h₁ h)⟩

instance : Std.Refl Tally := ⟨fun _ h => ⟨h, id⟩⟩

instance : IsTrans Scheduler Tally :=
  ⟨fun _ _ _ h₁ h₂ h => ⟨(h₂ (h₁ h).1).1, fun hcounted => (h₂ (h₁ h).1).2 ((h₁ h).2 hcounted)⟩⟩

instance : Std.Refl Even := ⟨fun s => ⟨rfl, .refl s⟩⟩

variable {groups groups' : List ResourceGroup} {s t : Scheduler}

theorem tallies_of_shape (h : groups'.map shape = groups.map shape) :
    tallies groups' = tallies groups :=
  map_of_map_eq h fun p => (p.1, p.2.2)

theorem ids_of_tallies (h : tallies groups' = tallies groups) :
    groups'.map (·.id) = groups.map (·.id) :=
  map_of_map_eq h Prod.fst

/-- The tasks keep their groups. -/
theorem Keyed.of_each (hs : s.Keyed) (hgroups : t.groups.map (·.id) = s.groups.map (·.id))
    (h : Each (fun u v => v.resourceGroupId = u.resourceGroupId) s t) : t.Keyed := by
  refine ⟨h.1 ▸ hs.ids, hgroups ▸ hs.groups, fun v hv => ?_⟩
  have hfound := task_of_mem (h.1 ▸ hs.ids : t.ids.Nodup) hv
  obtain ⟨u, hu, hsame⟩ := exists_of_rel' (h.2 v.id) hfound
  rw [hgroups, hsame]
  exact hs.housed u (List.mem_of_find?_eq_some hu)

theorem resourceGroup_tally (s : Scheduler) (id : UInt32) :
    (s.resourceGroup id).map (·.runnableTasks) =
      ((tallies s.groups).find? (·.1 == id)).map (·.2) := by
  rw [tallies, List.find?_map, Option.map_map]
  rfl

theorem Even.tally (h : Even s t) : Tally s t := by
  intro hs
  refine ⟨hs.of_each (ids_of_tallies h.groups) (h.each.mono fun _ _ hsame => hsame.1),
    fun hcounted id g hg => ?_⟩
  have hsame : (t.resourceGroup id).map (·.runnableTasks) =
      (s.resourceGroup id).map (·.runnableTasks) := by
    rw [resourceGroup_tally, resourceGroup_tally, h.groups]
  obtain ⟨g', hg', hcount⟩ := exists_of_map_eq hsame hg
  have hcountP : t.runnableIn id = s.runnableIn id :=
    countP_eq_of_forall₂ (fun u v huv => by rw [huv.1, huv.2]) (h.each.forall₂ hs.ids)
  rw [hcountP, ← hcount]
  exact hcounted id g' hg'

/-! ### Rebuilding the counts -/

/-- One more runnable task. -/
def bump (g : ResourceGroup) : ResourceGroup :=
  { g with runnableTasks := if g.runnableTasks = 0xffff then 0xffff else g.runnableTasks + 1 }

theorem toNat_bump (g) : (bump g).runnableTasks.toNat = min (g.runnableTasks.toNat + 1) 65535 := by
  unfold bump
  have hlt := g.runnableTasks.toNat_lt
  simp only
  split
  · rename_i hmax
    rw [hmax]
    rfl
  · rename_i hmax
    have hne : g.runnableTasks.toNat ≠ 65535 := fun h => hmax (UInt16.toNat_inj.mp h)
    rw [UInt16.toNat_add]
    have hone : (1 : UInt16).toNat = 1 := rfl
    omega

theorem groups_indexTask (s u id) :
    (indexTask s u).resourceGroup id =
      if u.resourceGroupId == id && u.runnable then (s.resourceGroup id).map bump
      else s.resourceGroup id := by
  unfold indexTask resourceGroup SchedulerTask.runnable
  simp only
  by_cases hrunnable : u.state = .ready ∨ u.state = .running
  · rw [if_pos hrunnable]
    have hlookup := find?_updateFirst (k := fun g : ResourceGroup => g.id) (f := bump)
      (fun _ => rfl) u.resourceGroupId id s.groups
    have hbool : (u.state == .ready || u.state == .running) = true := by
      simpa only [Bool.or_eq_true, beq_iff_eq] using hrunnable
    rw [hbool, Bool.and_true]
    refine Eq.trans hlookup ?_
    by_cases hid : id = u.resourceGroupId
    · rw [if_pos hid, if_pos (by rw [hid, beq_self_eq_true])]
    · rw [if_neg hid, if_neg fun h => hid (beq_iff_eq.mp h).symm]
  · rw [if_neg hrunnable]
    have hbool : (u.state == .ready || u.state == .running) = false := by
      rw [not_or] at hrunnable
      rw [Bool.or_eq_false_iff, beq_eq_false_iff_ne, beq_eq_false_iff_ne]
      exact hrunnable
    rw [hbool, Bool.and_false, if_neg (by decide)]

theorem ids_indexTask (s u) : (indexTask s u).groups.map (·.id) = s.groups.map (·.id) := by
  unfold indexTask
  simp only
  split
  · exact map_updateFirst (f := bump) (g := fun g => g.id) _ (fun _ => rfl) s.groups
  · rfl

/-- The loop of `rebuild_runnable_indexes` counts the tasks it has seen. -/
theorem counted_foldl (us : List SchedulerTask) (id : UInt32) : ∀ (s : Scheduler) (g : ResourceGroup),
    (us.foldl indexTask s).resourceGroup id = some g → ∃ g₀, s.resourceGroup id = some g₀ ∧
      g.runnableTasks.toNat = min (g₀.runnableTasks.toNat +
        us.countP fun u => u.resourceGroupId == id && u.runnable) 65535 := by
  induction us with
  | nil =>
    intro s g hg
    refine ⟨g, hg, ?_⟩
    have hlt := g.runnableTasks.toNat_lt
    simp only [List.countP_nil]
    omega
  | cons u us ih =>
    intro s g hg
    obtain ⟨g₁, hg₁, hcount⟩ := ih (indexTask s u) g hg
    rw [groups_indexTask] at hg₁
    rw [List.countP_cons]
    split at hg₁
    · rename_i hcounts
      obtain ⟨g₀, hg₀, rfl⟩ := Option.map_eq_some_iff.mp hg₁
      refine ⟨g₀, hg₀, ?_⟩
      rw [hcount, toNat_bump, if_pos hcounts]
      omega
    · rename_i hskips
      rw [if_neg hskips, Nat.add_zero]
      exact ⟨g₁, hg₁, hcount⟩

theorem ids_foldl (us : List SchedulerTask) : ∀ s : Scheduler,
    (us.foldl indexTask s).groups.map (·.id) = s.groups.map (·.id) := by
  induction us with
  | nil => exact fun _ => rfl
  | cons u us ih => exact fun s => (ih (indexTask s u)).trans (ids_indexTask s u)

theorem counted_rebuild (s : Scheduler) : s.rebuildRunnableIndexes.Counted := by
  intro id g hg
  obtain ⟨g₀, hg₀, hcount⟩ := counted_foldl s.tasks id _ g hg
  have hzero : g₀.runnableTasks = 0 := by
    have hmem := List.mem_of_find?_eq_some hg₀
    obtain ⟨_, _, rfl⟩ := List.mem_map.mp hmem
    rfl
  rw [hzero] at hcount
  rw [runnableIn, (calm_rebuildRunnableIndexes s).tasks, hcount]
  exact congrArg (min · 65535) (Nat.zero_add _)

theorem keyed_rebuild (hs : s.Keyed) : s.rebuildRunnableIndexes.Keyed := by
  have hcalm := calm_rebuildRunnableIndexes s
  refine hs.of_each ?_ ⟨hcalm.ids, fun id => ?_⟩
  · refine (ids_foldl s.tasks _).trans ?_
    exact List.map_map
  · rw [hcalm.task]
    cases s.task id with
    | none => exact .none
    | some u => exact .some rfl

/-! ### Programs that make the counts right -/

section Walk

variable {α β ε : Type}

/-- A program that does not fail and leaves right counts, whatever they were. -/
class Settles (x : Prog Scheduler ε α) : Prop where
  run : ∀ s, s.Keyed → wp x (fun _ t => t.Keyed ∧ t.Counted) (fun _ _ => False) s

variable {x : Prog Scheduler ε α} {K : Special → Prop} {g : ResourceGroup}

theorem Settles.tally (h : Settles x) : Moves Tally x := by
  refine .of_pre (R := fun s t : Scheduler => t.Keyed ∧ (s.Counted → t.Counted)) fun s hs => ?_
  exact wp_mono (h.run s hs) fun _ _ ht => ⟨ht.1, fun _ => ht.2⟩

theorem Settles.andThen {f : α → Prog Scheduler ε β} (hx : Moves Keys x) [hfail : NoFail x]
    (hf : ∀ a, Settles (f a)) : Settles (x >>= f) := by
  refine ⟨fun s hs => ?_⟩
  rw [wp_bind]
  exact wp_mono (wp_and (hx.run s) (hfail.run s)) (fun a t ht => (hf a).run t (ht.1 hs))
    fun _ _ ht => ht.2

instance Settles.after {x} {f : α → Prog Scheduler ε β} [hx : Moves Keys x] [NoFail x]
    [hf : ∀ a, Settles (f a)] : Settles (x >>= f) :=
  andThen hx hf

instance (priority := high) Settles.rebuild {f : Unit → Prog Scheduler ε β} [hf : Moves Tally (f ())]
    [hfail : NoFail (f ())] : Settles (modify rebuildRunnableIndexes >>= f) := by
  refine ⟨fun s hs => ?_⟩
  rw [wp_bind, wp_modify]
  refine wp_mono (wp_and (hf.run _) (hfail.run _)) (fun _ t ht => ?_) fun _ _ ht => ht.2
  have htally := ht.1 (keyed_rebuild hs)
  exact ⟨htally.1, htally.2 (counted_rebuild s)⟩

instance Settles.last : Settles (modify rebuildRunnableIndexes : Prog Scheduler ε Unit) :=
  ⟨fun s hs => (wp_modify _).mpr ⟨keyed_rebuild hs, counted_rebuild s⟩⟩

variable (cpu id : ℕ) (nowNs : UInt64) (yielded targetId : Option ℕ)

instance (priority := low) keys_of_tally (x : Prog Scheduler ε α) [h : Moves Tally x] :
    Moves Keys x :=
  h.mono fun _ _ ht hs => (ht hs).1

theorem tally_modify {f : Scheduler → Scheduler} (h : ∀ s, Even s (f s)) :
    Moves Tally (modify f : Prog Scheduler ε Unit) :=
  .modify fun s => (h s).tally

/-- A change of one task that leaves its group. -/
theorem keys_modifyTask (id : ℕ) (f : SchedulerTask → SchedulerTask)
    (hf : ∀ u, (f u).origin = u.origin) :
    Moves Keys (modify (modifyTask id f) : Prog Scheduler ε Unit) := by
  refine .modify fun s hs => hs.of_each rfl ?_
  have : Std.Refl fun u v : SchedulerTask => v.resourceGroupId = u.resourceGroupId := ⟨fun _ => rfl⟩
  refine each_modifyTask s id f (fun u => id_of_origin (hf u)) fun u _ => ?_
  exact congrArg (·.2.2) (hf u)

theorem keys_mapTasks (f : SchedulerTask → SchedulerTask) (hf : ∀ u, (f u).origin = u.origin) :
    Moves Keys (modify fun s => { s with tasks := s.tasks.map f } : Prog Scheduler ε Unit) := by
  refine .modify fun s hs => hs.of_each rfl ?_
  exact each_mapTasks s (fun u => id_of_origin (hf u)) fun u => congrArg (·.2.2) (hf u)

/-- A change of one task that counts it alike. -/
theorem even_modifyTask (s : Scheduler) (id : ℕ) (f : SchedulerTask → SchedulerTask)
    (hf : ∀ u, (f u).id = u.id) (halike : ∀ u, Alike u (f u)) : Even s (s.modifyTask id f) :=
  ⟨rfl, each_modifyTask s id f hf fun u _ => halike u⟩

instance tally_setCurrent (next) :
    Moves Tally (modify (setCurrent cpu next) : Prog Scheduler ε Unit) :=
  tally_modify fun s => ⟨rfl, .refl s⟩

instance tally_vacate (p : Scheduler → ℕ → Bool) :
    Moves Tally (modify fun s => s.vacate (p s) : Prog Scheduler ε Unit) :=
  tally_modify fun s => ⟨rfl, .refl s⟩

instance (p : ℕ → Bool) : Moves Tally (modify (vacate p) : Prog Scheduler ε Unit) :=
  tally_modify fun s => ⟨rfl, .refl s⟩

/-! ### Groups -/

/-- The groups are left. -/
def SameGroups (s t : Scheduler) : Prop := t.groups = s.groups

instance : Std.Refl SameGroups := ⟨fun _ => rfl⟩

instance : IsTrans Scheduler SameGroups := ⟨fun _ _ _ h₁ h₂ => h₂.trans h₁⟩

instance (cursors : Scheduler → List FairCursor) : Moves SameGroups
    (modify fun s => { s with fairTaskCursors := cursors s } : SchedM Unit) :=
  .modify fun _ => rfl

instance : Moves SameGroups (scheduleNextOnCpu cpu) := by
  unfold scheduleNextOnCpu
  refine .andThen (.modify fun _ => rfl) fun _ => .next fun s => .next fun _ => .next fun next =>
    .andThen (.modify fun t => ?_) inferInstance
  unfold dispatch
  split <;> rfl

/-- Tasks that change and stay runnable, or not, count alike. -/
theorem alike_of_changes {nowNs} (h : Each (SchedulerTask.Changes K nowNs) s t)
    (hrun : ∀ id u v, s.task id = some u → t.task id = some v → v.runnable = u.runnable) :
    Each Alike s t := by
  refine ⟨h.1, fun id => ?_⟩
  have hrel := h.2 id
  cases hu : s.task id with
  | none =>
    rw [hu] at hrel
    cases hv : t.task id with
    | none => exact .none
    | some v => rw [hv] at hrel; cases hrel
  | some u =>
    rw [hu] at hrel
    obtain ⟨v, hv, hchanges⟩ := exists_of_rel hrel rfl
    rw [hv]
    exact .some ⟨congrArg (·.2.2) (SchedulerTask.Changes.origin hchanges), hrun id u v hu hv⟩

/-- Giving a CPU to a ready task leaves it runnable. -/
theorem Handed.alike {cpu next} (h : Handed K cpu next s t) : Each Alike s t := by
  refine alike_of_changes h.each fun id u v hu hv => ?_
  have hstance := h.stance id
  rw [hu, hv, Option.map_some, Option.map_some, Option.some_inj] at hstance
  unfold SchedulerTask.runnable
  split at hstance
  · rename_i hnext
    obtain ⟨u', hu', hready, -⟩ := h.chosen id hnext
    rw [hu, Option.some_inj] at hu'
    subst hu'
    have hstate : v.state = .running := congrArg Prod.fst hstance
    rw [hready, hstate]
    rfl
  · have hstate : v.state = u.state := congrArg Prod.fst hstance
    rw [hstate]

instance : Moves Tally (scheduleNextOnCpu cpu) := by
  refine .of_pre (R := fun s t : Scheduler => t.Keyed ∧ (s.Counted → t.Counted)) fun s hs => ?_
  have hchoose : wp (scheduleNextOnCpu cpu) (fun next => Handed (fun _ => True) cpu next s)
      (fun _ _ => False) s :=
    wp_scheduleNextOnCpu hs.ids fun _ _ ht => ht.handed
  have hgroups : Moves SameGroups (scheduleNextOnCpu cpu) := inferInstance
  refine wp_mono (wp_and hchoose (hgroups.run s)) (fun next t ht => ?_) fun _ _ ht => ht.1.elim
  have hsame : t.groups = s.groups := ht.2
  exact Even.tally ⟨by rw [hsame], ht.1.alike⟩ hs

instance : Weighs Tally where
  le h := Even.tally ⟨tallies_of_shape h, .refl _⟩

theorem mem_ids_of_resourceGroup {id} (h : s.resourceGroup id = some g) :
    id ∈ s.groups.map (·.id) := by
  have hid := List.find?_some h
  exact List.mem_map.mpr ⟨g, List.mem_of_find?_eq_some h, beq_iff_eq.mp hid⟩

theorem not_mem_ids_of_resourceGroup {id} (h : s.resourceGroup id = none) :
    id ∉ s.groups.map (·.id) := by
  intro hmem
  obtain ⟨g, hg, rfl⟩ := List.mem_map.mp hmem
  exact absurd (beq_self_eq_true g.id) (List.find?_eq_none.mp h g hg)

/-- A new group has no tasks. -/
theorem tally_append (hnew : s.resourceGroup g.id = none) (hzero : g.runnableTasks = 0)
    (cursors : List FairCursor) :
    Tally s { s with groups := s.groups ++ [g], fairTaskCursors := cursors } := by
  intro hs
  have hfree := not_mem_ids_of_resourceGroup hnew
  refine ⟨⟨hs.ids, ?_, fun u hu => ?_⟩, fun hcounted id g' hg' => ?_⟩
  · show ((s.groups ++ [g]).map (·.id)).Nodup
    rw [List.map_append, List.map_singleton]
    refine List.nodup_append.mpr ⟨hs.groups, List.nodup_singleton _, ?_⟩
    rintro id hid _ hid' rfl
    rw [List.mem_singleton] at hid'
    exact hfree (hid' ▸ hid)
  · show u.resourceGroupId ∈ (s.groups ++ [g]).map (·.id)
    rw [List.map_append]
    exact List.mem_append_left _ (hs.housed u hu)
  · have hlookup : (s.resourceGroup id).or ([g].find? (·.id == id)) = some g' := by
      rw [resourceGroup, ← List.find?_append]
      exact hg'
    cases hold : s.resourceGroup id with
    | some old =>
      rw [hold, Option.some_or, Option.some_inj] at hlookup
      rw [← hlookup]
      exact hcounted id old hold
    | none =>
      rw [hold, Option.none_or, List.find?_singleton] at hlookup
      split at hlookup
      · rw [← Option.some.inj hlookup, hzero]
        have hnone : s.tasks.countP (fun u => u.resourceGroupId == id && u.runnable) = 0 := by
          refine List.countP_eq_zero.mpr fun u hu hcounts => ?_
          have hgroup := (Bool.and_eq_true_iff.mp hcounts).1
          refine not_mem_ids_of_resourceGroup hold ?_
          rw [← beq_iff_eq.mp hgroup]
          exact hs.housed u hu
        show 0 = min (s.tasks.countP _) 65535
        rw [hnone]
        rfl
      · cases hlookup

instance (id parentId cpuShares permille allowRealtime) :
    Moves Tally (ensureResourceGroupWithLimits id parentId cpuShares permille allowRealtime) := by
  refine ⟨fun s => ?_⟩
  simp only [ensureResourceGroupWithLimits, wp_bind, wp_get, wp_check]
  refine ⟨fun _ => ⟨fun _ => ?_, fun _ => refl_of Tally s⟩, fun _ => refl_of Tally s⟩
  split
  · rename_i group _
    rw [wp_bind, wp_check]
    refine ⟨fun _ => (wp_modify _).mpr (Even.tally ⟨?_, .refl s⟩), fun _ => refl_of Tally s⟩
    refine map_updateFirst (f := fun g : ResourceGroup =>
      { g with parentId, cpuShares, maxUtilizationPermille := permille, allowRealtime }) _ ?_ _
    exact fun _ => rfl
  · rename_i hnew
    exact (wp_modify _).mpr (tally_append hnew rfl _)

instance (id) : Moves Tally (ensureResourceGroup id) := by
  unfold ensureResourceGroup
  infer_instance

/-- The group exists afterwards. -/
theorem wp_ensureResourceGroup (s id) :
    wp (ensureResourceGroup id) (fun _ t => id ∈ t.groups.map (·.id)) (fun _ _ => True) s := by
  simp only [ensureResourceGroup, wp_bind, wp_get, wp_ite, wp_pure]
  refine ⟨fun hsome => ?_, fun hnone => ?_⟩
  · obtain ⟨g, hg⟩ := Option.isSome_iff_exists.mp hsome
    exact mem_ids_of_resourceGroup hg
  · simp only [ensureResourceGroupWithLimits, wp_bind, wp_get, wp_check]
    refine ⟨fun _ => ⟨fun _ => ?_, fun _ => trivial⟩, fun _ => trivial⟩
    rw [Option.not_isSome_iff_eq_none.mp hnone]
    rw [wp_modify]
    simp only [List.map_append, List.map_singleton]
    exact List.mem_append_right _ (List.mem_singleton_self id)

/-! ### Operations on tasks -/

instance : Moves Keys (modify (modifyTask id wake) : Prog Scheduler ε Unit) :=
  keys_modifyTask id wake SchedulerTask.origin_wake

instance : Moves Tally (wakeTask id) := by
  unfold wakeTask
  exact .next fun _ => .next fun _ => Settles.tally inferInstance

instance (reason) : Moves Tally (blockCurrentOnCpu cpu reason) := by
  have hblock : ∀ id, Moves Keys (modify (modifyTask id (blockOn reason)) : SchedM Unit) :=
    fun id => keys_modifyTask id _ fun _ => rfl
  unfold blockCurrentOnCpu
  exact .next fun _ => .next fun _ => .next fun id => .next fun _ => (Settles.andThen (hblock id)
    inferInstance).tally

instance (exitCode : Int32) : Moves Tally (exitTask id exitCode) := by
  have hexit : Moves Keys (modify (modifyTask id (exitWith exitCode)) : SchedM Unit) :=
    keys_modifyTask id _ fun _ => rfl
  unfold exitTask
  exact .next fun _ => .next fun _ => (Settles.andThen hexit inferInstance).tally

instance (exitCode) : Moves Tally (exitCurrentOnCpu cpu exitCode) := by
  unfold exitCurrentOnCpu
  refine .next fun _ => .next fun _ => .next fun id => .next fun _ => (Settles.andThen ?_
    inferInstance).tally
  exact keys_modifyTask id (fun u =>
    { u with state := .exited, exitCode := exitCode, quantumLeft := 0 }) fun _ => rfl

set_option synthInstance.maxSize 100000 in
instance : Moves Tally (suspendTask id) := by
  unfold suspendTask
  refine .next fun _ => .next fun _ => (Settles.andThen ?_ inferInstance).tally
  exact keys_modifyTask id suspend SchedulerTask.origin_suspend

instance : Moves Tally cleanupExited := by
  unfold cleanupExited
  refine .next fun _ => (Settles.andThen (.modify fun s hs => ?_) inferInstance).tally
  refine ⟨hs.ids.sublist (List.filter_sublist.map _), hs.groups, fun u hu => ?_⟩
  exact hs.housed u (List.mem_filter.mp hu).1

/-! ### Profiles -/

/-- An operation that changes one task and rebuilds the counts. -/
theorem settles_modifyTask (id : ℕ) (f : SchedulerTask → SchedulerTask)
    (hf : ∀ u, (f u).origin = u.origin) : Settles (do
      modify (modifyTask id f)
      modify rebuildRunnableIndexes : Prog Scheduler ε Unit) :=
  .andThen (keys_modifyTask id f hf) fun _ => inferInstance

instance (profile) : Moves Tally (setFairProfile id profile) := by
  unfold setFairProfile
  refine .next fun _ => .next fun _ => .next fun _ => Settles.tally (settles_modifyTask id _ ?_)
  exact fun _ => rfl

instance (profile) : Moves Tally (setDeadlineProfile id profile) := by
  unfold setDeadlineProfile
  refine .next fun _ => .next fun _ => .next fun _ => .next fun _ => .next fun _ => .next fun _ =>
    Settles.tally (settles_modifyTask id _ ?_)
  exact fun _ => rfl

instance (profile) : Moves Tally (setProfile id profile) := by
  unfold setProfile
  split <;> infer_instance

instance (ownerId priority) : Moves Tally (donatePriority ownerId priority) := by
  unfold donatePriority
  refine .next fun _ => .next fun _ => Settles.tally (settles_modifyTask ownerId _ ?_)
  intro u
  split <;> rfl

instance : Moves Tally (restoreBasePriority id) := by
  unfold restoreBasePriority
  refine .next fun _ => .next fun _ => Settles.tally (settles_modifyTask id _ ?_)
  intro u
  split <;> rfl

set_option synthInstance.maxSize 100000 in
instance (affinityMask : UInt64) : Moves Tally (setCpuAffinity id affinityMask) := by
  have hready : Moves Keys
      (modify (modifyTask id fun u => { u with state := .ready }) : SchedM Unit) :=
    keys_modifyTask id (fun u => { u with state := .ready }) fun _ => rfl
  unfold setCpuAffinity
  refine .next fun _ => .next fun _ => .next fun _ => (Settles.andThen ?_ fun _ => Settles.andThen
    ?_ inferInstance).tally
  · exact keys_modifyTask id (fun u => { u with cpuAffinityMask := affinityMask }) fun _ => rfl
  · infer_instance

/-! ### Process control -/

theorem origin_hold (held : TaskState) (fromStates : List TaskState) (processId : ℕ)
    (u : SchedulerTask) : (u.hold held fromStates processId).origin = u.origin := by
  unfold SchedulerTask.hold
  split <;> rfl

theorem origin_release (held : TaskState) (processId : ℕ) (u : SchedulerTask) :
    (u.release held processId).origin = u.origin := by
  unfold SchedulerTask.release
  split <;> rfl

instance (held : TaskState) (fromStates : List TaskState) (processId : ℕ) :
    Moves Tally (holdProcess held fromStates processId) := by
  unfold holdProcess
  refine (Settles.andThen ?_ inferInstance).tally
  exact keys_mapTasks _ (origin_hold held fromStates processId)

instance (held processId) : Moves Tally (releaseProcess held processId) := by
  unfold releaseProcess
  refine (Settles.andThen ?_ inferInstance).tally
  exact keys_mapTasks _ (origin_release held processId)

/-! ### The clock -/

theorem Mild.alike (h : Mild K s t) : Each Alike s t := by
  refine alike_of_changes h.each fun id u v hu hv => ?_
  have hstance := h.stance id
  rw [hu, hv, Option.map_some, Option.map_some, Option.some_inj] at hstance
  have hstate : v.state = u.state := congrArg Prod.fst hstance
  rw [SchedulerTask.runnable, hstate]
  rfl

theorem even_accountRuntime (nowNs s) : Even s (s.accountRuntime nowNs) :=
  ⟨by rw [groups_accountRuntime],
    (mild_accountRuntime (K := fun _ => True) trivial nowNs s).alike⟩

instance : Moves Tally (modify (accountRuntime nowNs) : Prog Scheduler ε Unit) :=
  tally_modify (even_accountRuntime nowNs)

instance (thread) :
    Moves Tally (modify (accountExecuting cpu thread nowNs) : Prog Scheduler ε Unit) := by
  refine tally_modify fun s =>
    ⟨?_, (mild_accountExecuting (K := fun _ => True) trivial cpu thread nowNs s).alike⟩
  unfold accountExecuting
  split
  · rfl
  · exact congrArg tallies (groups_accountRuntime nowNs _)

theorem alike_chargeTick (nowNs u) : Alike u (chargeTick nowNs u) := by
  obtain ⟨horigin, hstance⟩ := SchedulerTask.origin_chargeTick nowNs u
  have hstate : (chargeTick nowNs u).state = u.state := congrArg Prod.fst hstance
  refine ⟨congrArg (·.2.2) horigin, ?_⟩
  rw [SchedulerTask.runnable, hstate]
  rfl

theorem alike_preempt (u) : Alike u (preempt u) := by
  unfold preempt
  split
  · rename_i hrunning
    refine ⟨rfl, ?_⟩
    rw [SchedulerTask.runnable, SchedulerTask.runnable, hrunning]
    rfl
  · exact refl_of Alike u

theorem id_preempt (u) : (preempt u).id = u.id := by
  unfold preempt
  split <;> rfl

instance : Moves Tally (tickAtOnCpu cpu nowNs) := by
  have hclock : Moves Tally (modify fun s =>
      { s with nowNs := nowNs, totalTicks := s.totalTicks.satAdd 1 } : SchedM Unit) :=
    tally_modify fun s => ⟨rfl, .refl s⟩
  unfold tickAtOnCpu
  refine .next fun _ => .next fun s => .next fun _ => .next fun _ => .andThen hclock fun _ =>
    .next fun _ => ⟨fun t => ?_⟩
  rw [wp_bind, wp_get]
  -- the rest, once the task that ran has been charged
  have hrest : ∀ {u : Scheduler} (heven : Even t u) (x : SchedM ScheduleDecision) [hx : Moves Tally x],
      ends x (Tally t) u := fun heven x hx =>
    Moves.after heven.tally hx
  dsimp only
  split
  · rename_i current hcurrent
    obtain ⟨-, htask⟩ := task_of_current hcurrent
    rw [wp_ite]
    constructor
    · intro _
      rw [wp_bind, wp_modify, modifyTask_const htask (chargeTick nowNs)]
      exact hrest (even_modifyTask t _ _ (id_chargeTick nowNs) (alike_chargeTick nowNs)) _
    · intro _
      rw [wp_bind, wp_modify, modifyTask_const htask (fun v => preempt (chargeTick nowNs v))]
      refine hrest (even_modifyTask t _ _ (fun v => ?_) fun v => ?_) _
      · rw [id_preempt, id_chargeTick]
      · exact trans_of Alike (alike_chargeTick nowNs v) (alike_preempt _)
  · exact hrest (refl_of Even t) _

/-! ### Yields -/

theorem keys_setState (id : ℕ) (state : TaskState) :
    Moves Keys (modify (modifyTask id fun u => { u with state := state }) : Prog Scheduler ε Unit) :=
  keys_modifyTask id (fun u => { u with state := state }) fun _ => rfl

instance : Moves Keys (yieldToAny cpu yielded) := by
  cases yielded with
  | none =>
    unfold yieldToAny
    exact .andThen (.modify fun _ h => h) fun _ => .next fun next => .andThen (.modify fun _ h =>
      h) fun _ => inferInstance
  | some id =>
    unfold yieldToAny
    exact .andThen (keys_setState id .suspended) fun _ => .next fun next => .andThen
      (keys_setState id .ready) fun _ => inferInstance

instance : Moves Keys (yieldNext cpu yielded targetId) := by
  unfold yieldNext
  split
  · rename_i id
    unfold yieldTo
    refine .next fun _ => .andThen ?_ fun _ => inferInstance
    exact keys_modifyTask id
      (fun u => { u with state := .running, quantumLeft := DEFAULT_QUANTUM_TICKS }) fun _ => rfl
  · infer_instance

instance : NoFail (yieldNext cpu yielded targetId) := by
  unfold yieldNext
  split
  · unfold yieldTo
    infer_instance
  · unfold yieldToAny
    infer_instance

instance : Moves Tally (yieldCurrentToOnCpu cpu targetId) := by
  unfold yieldCurrentToOnCpu
  refine .next fun _ => .next fun _ => .next fun s => (Settles.andThen ?_ fun _ => ?_).tally
  · generalize (((s.currentTaskIds[cpu]?).join.bind s.task).filter (·.state == .running)).map
      (·.id) = yielded
    cases yielded with
    | none => exact .modify fun _ h => h
    | some id => exact keys_setState id .ready
  · infer_instance

set_option synthInstance.maxSize 100000 in
instance : Moves Tally (yieldCurrentToAtOnCpu cpu targetId nowNs) := by
  have hclock : Moves Tally (modify fun s => { s with nowNs := nowNs } : SchedM Unit) :=
    tally_modify fun s => ⟨rfl, .refl s⟩
  unfold yieldCurrentToAtOnCpu
  infer_instance

/-! ### Adding a task -/

instance (task) : Moves Tally (addTask task) := by
  refine .of_pre (R := fun s t : Scheduler => t.Keyed ∧ (s.Counted → t.Counted)) fun s hs => ?_
  have hfirst : Even s (if s.currentTaskIds = [] then { s with currentTaskIds := [none] } else s) := by
    split
    · exact ⟨rfl, .refl s⟩
    · exact refl_of Even s
  simp only [addTask, wp_bind, wp_get, wp_check, wp_modify]
  refine ⟨fun hnew => ⟨fun _ => ?_, fun _ => hfirst.tally hs⟩, fun _ => ⟨hs, fun h => h⟩⟩
  generalize (if s.currentTaskIds = [] then { s with currentTaskIds := [none] } else s) = s₁
    at hfirst ⊢
  have hgroup : Moves Tally (ensureResourceGroup task.resourceGroupId) := inferInstance
  have hcalm : Moves Calm (ensureResourceGroup task.resourceGroupId) := inferInstance
  refine wp_mono (wp_and (wp_and (hgroup.run s₁) (hcalm.run s₁)) (wp_ensureResourceGroup s₁ _))
    (fun _ u hu => ?_) fun _ u hu => trans_of Tally hfirst.tally hu.1.1 hs
  obtain ⟨⟨htally, hsame⟩, hmem⟩ := hu
  have hlevel : Moves Tally (modify (levelGroup task.resourceGroupId) : SchedM Unit) := inferInstance
  have hcalm' : Moves Calm (modify (levelGroup task.resourceGroupId) : SchedM Unit) := inferInstance
  have hlevelled : Tally u (u.levelGroup task.resourceGroupId) := (wp_modify _).mp (hlevel.run u)
  have hsame' : Calm u (u.levelGroup task.resourceGroupId) := (wp_modify _).mp (hcalm'.run u)
  have hids : (u.levelGroup task.resourceGroupId).groups.map (·.id) = u.groups.map (·.id) := by
    unfold levelGroup
    split
    · rfl
    · rename_i baseline _
      exact map_updateFirst (f := fun g : ResourceGroup => { g with fairVruntime := baseline })
        (g := fun g => g.id) _ (fun _ => rfl) _
  rw [wp_bind, wp_modify]
  generalize u.levelGroup task.resourceGroupId = v at hlevelled hsame' hids ⊢
  have hv := trans_of Tally (trans_of Tally hfirst.tally htally) hlevelled hs
  rw [wp_bind, wp_get, wp_bind, wp_lift]
  refine ⟨fun runtime _ => ?_, fun _ _ => hv⟩
  rw [wp_bind, wp_modify, wp_bind, wp_modify]
  -- the new task has its own identifier and a group
  generalize htask : ({ task with
    cpuAffinityMask := task.cpuAffinityMask &&& s₁.activeCpuMask } : SchedulerTask) = task'
  have hid : task'.id = task.id := htask ▸ rfl
  have hgroup : task'.resourceGroupId = task.resourceGroupId := htask ▸ rfl
  have hkeyed : ({ v with runtime := runtime, tasks := v.tasks ++ [task'] } : Scheduler).Keyed := by
    refine ⟨?_, hv.1.groups, fun w hw => ?_⟩
    · show ((v.tasks ++ [task']).map (·.id)).Nodup
      rw [List.map_append, List.map_singleton]
      refine List.nodup_append.mpr ⟨hv.1.ids, List.nodup_singleton _, ?_⟩
      rintro j hj _ hj' rfl
      rw [List.mem_singleton] at hj'
      have hvids : v.ids = s.ids :=
        (hsame'.ids.trans hsame.ids).trans hfirst.each.1
      have hj : task.id ∈ s.ids := by
        rw [← hvids, ← hid, ← hj']
        exact hj
      obtain ⟨w, hw, hwid⟩ := List.mem_map.mp hj
      exact hnew (List.any_eq_true.mpr ⟨w, hw, beq_iff_eq.mpr hwid⟩)
    · rcases List.mem_append.mp hw with hold | hnew
      · exact hv.1.housed w hold
      · rw [List.mem_singleton.mp hnew, hgroup]
        show _ ∈ v.groups.map (·.id)
        rw [hids]
        exact hmem
  have hfill : Moves Tally fillIdleCpus := inferInstance
  refine wp_mono (hfill.run _) (fun _ w hw => ?_) fun _ w hw => ?_
  · exact ⟨(hw (keyed_rebuild hkeyed)).1, fun _ => (hw (keyed_rebuild hkeyed)).2 (counted_rebuild _)⟩
  · exact ⟨(hw (keyed_rebuild hkeyed)).1, fun _ => (hw (keyed_rebuild hkeyed)).2 (counted_rebuild _)⟩

/-- Every operation keeps right counts right. -/
theorem tally_exec (op : SchedOp) : Moves Tally (exec op) := by
  cases op with
  | ensureResourceGroupWithShares id cpuShares =>
    exact inferInstanceAs
      (Moves Tally (ensureResourceGroupWithLimits id none cpuShares 0 true))
  | quiesceProcess processId | stopProcess processId =>
    exact inferInstanceAs (Moves Tally (holdProcess _ _ processId))
  | resumeQuiescedProcess processId | resumeStoppedProcess processId =>
    exact inferInstanceAs (Moves Tally (releaseProcess _ processId))
  | _ =>
    unfold exec
    infer_instance

end Walk

/-! ### Ownership -/

/-- Only a cleanup forgets tasks that have exited. -/
theorem exited_of_exec (hs : s.Sound) {op} (hop : op ≠ .cleanupExited) :
    ends (exec op) (fun t => ∀ id u, s.task id = some u → u.state = .exited → ∃ v,
      t.task id = some v ∧ v.state = .exited) s := by
  have hkept : ∀ t, Next (fun _ => True) op s t → ∀ id u, s.task id = some u →
      u.state = .exited → ∃ v, t.task id = some v ∧ v.state = .exited := by
    rintro t ⟨-, hadvance⟩ id u hu hexited
    have heach : ∀ {nowNs : UInt64} {a b : Scheduler} {w : SchedulerTask},
        Each (SchedulerTask.Changes (fun _ => True) nowNs) a b → a.task id = some w →
        w.state = .exited → ∃ v, b.task id = some v ∧ v.state = .exited := by
      intro nowNs a b w h hw hexited
      obtain ⟨v, hv, hchanges⟩ := exists_of_rel (h.2 id) hw
      exact ⟨v, hv, exited_of_changes hchanges hexited⟩
    cases hadvance with
    | tracks h => exact heach h.each hu hexited
    | clocked nowNs c _ hc h =>
      obtain ⟨w, hw, hstate⟩ := heach (hc.each trivial) hu hexited
      exact heach h.each hw hstate
    | added _ w hfresh _ h =>
      refine heach (h.each_append s.runtime) ?_ hexited
      rw [task_append s s.runtime h.new, if_neg, hu]
      rintro rfl
      rw [h.new] at hu
      cases hu
    | cleaned hcleanup => exact absurd hcleanup hop
  exact wp_mono (wp_exec hs op fun _ _ => trivial) (fun _ => hkept) fun _ => hkept

/-- What the scheduler promises about tasks, CPUs and groups. -/
structure Ownership (s : Scheduler) : Prop where
  ids : (s.tasks.map (·.id)).Nodup
  /-- Running tasks are those that exactly one CPU runs, and they may run there. -/
  running : ∀ u ∈ s.tasks, u.state = .running ↔
    ∃ cpu, (∀ cpu', s.Runs cpu' u.id ↔ cpu' = cpu) ∧ taskCanRunOnCpu u cpu
  current : ∀ cpu id, s.Runs cpu id → ∃ u ∈ s.tasks, u.id = id ∧ u.state = .running
  runnable : ∀ u ∈ s.tasks, u.state = .ready ∨ u.state = .running → u.blockReason = none
  blocked : ∀ u ∈ s.tasks, u.state = .blocked → u.blockReason.isSome
  exited : ∀ op t, step op s = some t → op ≠ .cleanupExited →
    ∀ u ∈ s.tasks, u.state = .exited → ∃ v ∈ t.tasks, v.id = u.id ∧ v.state = .exited
  counts : ∀ g ∈ s.groups, s.runnableIn g.id < 65536 → g.runnableTasks.toNat = s.runnableIn g.id

theorem Sound.running_iff (hs : s.Sound) {u} (hu : u ∈ s.tasks) :
    u.state = .running ↔
      ∃ cpu, (∀ cpu', s.Runs cpu' u.id ↔ cpu' = cpu) ∧ taskCanRunOnCpu u cpu := by
  have htask := task_of_mem hs.ids hu
  have hsame : ∀ cpu, s.Runs cpu u.id → u.state = .running ∧ taskCanRunOnCpu u cpu := by
    intro cpu hrun
    obtain ⟨v, hv, hrunning, hcpu⟩ := hs.running cpu u.id hrun
    rw [htask, Option.some_inj] at hv
    exact hv ▸ ⟨hrunning, hcpu⟩
  constructor
  · intro hrunning
    obtain ⟨cpu, hrun⟩ := hs.occupied u.id u htask hrunning
    refine ⟨cpu, fun cpu' => ⟨fun hrun' => hs.apart cpu' cpu u.id hrun' hrun, ?_⟩, (hsame cpu hrun).2⟩
    rintro rfl
    exact hrun
  · rintro ⟨cpu, honly, -⟩
    exact (hsame cpu ((honly cpu).mpr rfl)).1

theorem Sound.ownership (hs : s.Sound) (hkeyed : s.Keyed) (hcounted : s.Counted) : s.Ownership where
  ids := hs.ids
  running _ hu := hs.running_iff hu
  current cpu id hrun := by
    obtain ⟨u, hu, hrunning, -⟩ := hs.running cpu id hrun
    exact ⟨u, List.mem_of_find?_eq_some hu, id_of_task hu, hrunning⟩
  runnable u hu hstate := by
    have hok := hs.ok u.id u (task_of_mem hs.ids hu)
    by_contra hwait
    have hwaits := hok.waits (Option.isSome_iff_ne_none.mpr hwait)
    rcases hstate with hstate | hstate <;> simp [hstate, TaskState.held] at hwaits
  blocked u hu := (hs.ok u.id u (task_of_mem hs.ids hu)).blocked
  exited op t ht hop u hu hexited := by
    obtain ⟨v, hv, hstate⟩ :=
      of_state (exited_of_exec hs hop) ht u.id u (task_of_mem hs.ids hu) hexited
    exact ⟨v, List.mem_of_find?_eq_some hv, id_of_task hv, hstate⟩
  counts g hg hsmall := by
    have hfound : s.resourceGroup g.id = some g :=
      find?_of_mem (k := fun g : ResourceGroup => g.id) hkeyed.groups hg
    rw [hcounted g.id g hfound]
    omega

theorem keyed_of_withCpuCount {maxCpus} (h : withCpuCount maxCpus = .ok s) : s.Keyed := by
  obtain ⟨htasks, hgroups, -⟩ := tasks_of_withCpuCount h
  refine ⟨(sound_of_withCpuCount h).ids, ?_, fun u hu => ?_⟩
  · rw [hgroups]
    exact List.nodup_nil
  · rw [htasks] at hu
    cases hu

/-- **Tasks, CPUs and group counts agree after every run.** -/
theorem ownership_of_reaches {s : Scheduler} (hs : Reaches (fun _ _ => True) s) : s.Ownership := by
  have hinvariant : s.Sound ∧ s.Keyed ∧ s.Counted := by
    refine hs.invariant (I := fun s => s.Sound ∧ s.Keyed ∧ s.Counted) (fun maxCpus s hs => ?_)
      fun t op ht _ => ?_
    · refine ⟨sound_of_withCpuCount hs, keyed_of_withCpuCount hs, fun id g hg => ?_⟩
      rw [resourceGroup, (tasks_of_withCpuCount hs).2.1] at hg
      cases hg
    · have hnext : ∀ u, Next (fun _ => True) op t u ∧ Tally t u → u.Sound ∧ u.Keyed ∧ u.Counted :=
        fun u hu => ⟨hu.1.1, (hu.2 ht.2.1).1, (hu.2 ht.2.1).2 ht.2.2⟩
      exact wp_mono (wp_and (wp_exec ht.1 op fun _ _ => trivial) ((tally_exec op).run t))
        (fun _ => hnext) fun _ => hnext
  exact hinvariant.1.ownership hinvariant.2.1 hinvariant.2.2

/-- Two CPUs, a group with two tasks: one blocks, one yields, a third task is stopped. -/
def ownershipRun : List SchedOp :=
  [.addTask 1 1 7 100 [97] UInt64.maxValue, .addTask 2 1 7 100 [98] UInt64.maxValue,
    .addTask 3 2 8 120 [99] 1, .tickAtOnCpu 0 5000000, .blockCurrentOnCpu 1 (.futex 64),
    .yieldCurrentToOnCpu 0 none, .stopProcess 2, .exitTask 1 0, .wakeTask 2]

theorem ownership_of_run :
    ∃ s, runFrom 2 (fun _ _ => true) ownershipRun = some s ∧ s.Ownership := by
  have hrun : (runFrom 2 (fun _ _ => true) ownershipRun).isSome := by decide +kernel
  obtain ⟨s, hs⟩ := Option.isSome_iff_exists.mp hrun
  exact ⟨s, hs, ownership_of_reaches (reaches_of_runFrom hs fun _ _ _ => trivial)⟩

end Scheduler

end Bexos
