/-
Two accounts of CPU time.

The *ledger* (`account_runtime`) charges every running task with the time since it was last
brought up to date.  A tick also charges the *groups*, but only those of the task on the
ticking CPU, with the time since the last tick on any CPU.

* `Scheduler.consumed` — what the ledger has for the tasks of a group and of its descendants;
* `Scheduler.Steady` — a tick at which both accounts see the same time: only the ticking CPU
  runs a task, and the ledger has been opened;
* `Scheduler.cpuTime_eq_consumed` — in a run whose ticks are steady the accounts agree;
* `Scheduler.cpuTime_ne_consumed` — with two busy CPUs they do not.
-/
import Mathlib.Algebra.Order.BigOperators.Group.List
import Bexos.SchedulerCounts

namespace Bexos

open Prog
open List (map_append map_congr_left map_map mem_map mem_map_of_mem)

namespace Scheduler

/-- `b` is the parent of `a`. -/
def Parent (groups : List ResourceGroup) (a b : UInt32) : Prop :=
  ∃ g ∈ groups, g.id = a ∧ g.parentId = some b

/-- The task belongs to the group or to one of its descendants. -/
def Within (s : Scheduler) (group : UInt32) (u : SchedulerTask) : Prop :=
  Relation.ReflTransGen (Parent s.groups) u.resourceGroupId group

/-- The run time that the ledger has for a task. -/
def ledger (s : Scheduler) (id : ℕ) : ℕ :=
  ((s.runtime.threads.find? (·.id == id)).map (·.cpuNs.toNat)).getD 0

open Classical in
/-- What the ledger has for the tasks of a group and of its descendants. -/
noncomputable def consumed (s : Scheduler) (group : UInt32) : ℕ :=
  (s.tasks.map fun u => if s.Within group u then s.ledger u.id else 0).sum

/-! ### Walks up the groups -/

section Walks

variable {groups groups' : List ResourceGroup} {nowNs elapsedNs : UInt64} {fair : Bool}

/-- The walk ends within `n` steps. -/
def Walk (groups : List ResourceGroup) : ℕ → Option UInt32 → Prop
  | _, none => True
  | 0, some _ => False
  | n + 1, some id => ∀ g ∈ groups, g.id = id → Walk groups n g.parentId

theorem walk_none : ∀ n, Walk groups n none
  | 0 => trivial
  | _ + 1 => trivial

theorem Walk.succ : ∀ {n : ℕ} {o : Option UInt32}, Walk groups n o → Walk groups (n + 1) o
  | _, none, _ => trivial
  | 0, some _, h => h.elim
  | _ + 1, some _, h => fun g hg hid => (h g hg hid).succ

variable {a : UInt32} {o : Option UInt32} {g : ResourceGroup}

theorem Walk.up {n b} (h : Walk groups n (some a))
    (hab : Relation.ReflTransGen (Parent groups) a b) : Walk groups n (some b) := by
  induction hab with
  | refl => exact h
  | tail _ hparent ih =>
    obtain ⟨g, hg, hid, hp⟩ := hparent
    cases n with
    | zero => exact ih.elim
    | succ n => exact hp ▸ (ih g hg hid).succ

/-- A walk that ends does not come back. -/
theorem Walk.not_cyclic {p} (hparent : Parent groups a p)
    (hback : Relation.ReflTransGen (Parent groups) p a) : ∀ n, ¬ Walk groups n (some a)
  | 0, h => h
  | n + 1, h => by
    obtain ⟨g, hg, hid, hp⟩ := hparent
    have hrest : Walk groups n (some p) := hp ▸ h g hg hid
    exact not_cyclic ⟨g, hg, hid, hp⟩ hback n (hrest.up hback)

/-- The tree of the groups. -/
def links (groups : List ResourceGroup) : List (UInt32 × Option UInt32) :=
  groups.map fun g => (g.id, g.parentId)

theorem mem_links : (a, o) ∈ links groups ↔ ∃ g ∈ groups, g.id = a ∧ g.parentId = o := by
  rw [links, mem_map]
  exact exists_congr fun g => and_congr_right fun _ => Prod.mk.injEq .. ▸ Iff.rfl

theorem parent_congr (h : links groups' = links groups) : Parent groups' = Parent groups := by
  funext a b
  rw [Parent, ← mem_links, h, mem_links, Parent]

theorem walk_congr (h : links groups' = links groups) :
    ∀ (n : ℕ) (o : Option UInt32), Walk groups' n o → Walk groups n o
  | n, none, _ => walk_none n
  | 0, some _, hw => hw
  | n + 1, some id, hw => fun g hg hid => by
    obtain ⟨g', hg', hid', hp⟩ := mem_links.mp (h ▸ mem_links.mpr ⟨g, hg, rfl, rfl⟩)
    exact hp ▸ walk_congr h n g'.parentId (hw g' hg' (hid'.trans hid))

theorem ids_of_links (h : links groups' = links groups) :
    groups'.map (·.id) = groups.map (·.id) :=
  map_of_map_eq h Prod.fst

/-- The group is met on the walk. -/
def Above (groups : List ResourceGroup) (o : Option UInt32) (group : UInt32) : Prop :=
  ∃ id, o = some id ∧ Relation.ReflTransGen (Parent groups) id group

theorem above_iff (hids : (groups.map (·.id)).Nodup) (hg : g ∈ groups) (group) :
    Above groups (some g.id) group ↔ group = g.id ∨ Above groups g.parentId group := by
  refine ⟨?_, ?_⟩
  · rintro ⟨_, hid, hup⟩
    cases hid
    rcases hup.cases_head with rfl | ⟨p, ⟨g', hg', hid, hp⟩, hrest⟩
    · exact .inl rfl
    · obtain rfl : g' = g := List.inj_on_of_nodup_map hids hg' hg hid
      exact .inr ⟨p, hp, hrest⟩
  · rintro (rfl | ⟨p, hp, hrest⟩)
    · exact ⟨_, rfl, .refl⟩
    · exact ⟨_, rfl, .head ⟨g, hg, rfl, hp⟩ hrest⟩

open Classical in
/-- A group with the time charged to it if it is met on the walk. -/
noncomputable def billed (groups : List ResourceGroup) (elapsedNs : UInt64) (o : Option UInt32)
    (g : ResourceGroup) : UInt32 × Option UInt32 × UInt64 :=
  (g.id, g.parentId, if Above groups o g.id then g.cpuTimeNs.satAdd elapsedNs else g.cpuTimeNs)

/-- What the accounts have about a group. -/
def account (g : ResourceGroup) : UInt32 × Option UInt32 × UInt64 := (g.id, g.parentId, g.cpuTimeNs)

theorem billed_congr (h : links groups' = links groups) (o) :
    billed groups' elapsedNs o = billed groups elapsedNs o := by
  have habove : Above groups' o = Above groups o := by
    unfold Above
    rw [parent_congr h]
  funext g
  unfold billed
  rw [habove]

theorem billed_of_not_above (h : ¬ Above groups o g.id) :
    billed groups elapsedNs o g = account g := by
  rw [billed, if_neg h, account]

theorem not_above_none (group) : ¬ Above groups none group := by
  rintro ⟨_, h, -⟩
  cases h

open Classical in
/-- The loop of `add_group_tick` charges each group it meets once. -/
theorem account_tickFrom : ∀ (n : ℕ) (o : Option UInt32) (groups groups' : List ResourceGroup),
    (groups.map (·.id)).Nodup → tickFrom nowNs fair elapsedNs n o groups = some groups' →
    groups'.map account = groups.map (billed groups elapsedNs o) ∧ Walk groups n o
  | n, none, groups, groups', _, h => by
    have hsame : groups' = groups := by cases n <;> exact (Option.some.inj h).symm
    rw [hsame]
    refine ⟨map_congr_left fun g _ => ?_, walk_none n⟩
    rw [billed_of_not_above (not_above_none _)]
  | 0, some _, _, _, _, h => by cases h
  | n + 1, some id, groups, groups', hids, h => by
    rw [tickFrom] at h
    split at h
    · rename_i hmissing
      have hmissing : ∀ g ∈ groups, g.id ≠ id := fun g hg hid =>
        List.find?_eq_none.mp hmissing g hg (beq_iff_eq.mpr hid)
      rw [← Option.some.inj h]
      refine ⟨map_congr_left fun g hg => ?_, fun g hg hid => absurd hid (hmissing g hg)⟩
      rw [billed_of_not_above]
      rintro ⟨_, hid, hup⟩
      cases hid
      rcases hup.cases_head with hself | ⟨_, ⟨g', hg', hid, -⟩, -⟩
      · exact hmissing g hg hself.symm
      · exact hmissing g' hg' hid
    · rename_i g hfound
      have hg := List.mem_of_find?_eq_some hfound
      have hgid := List.find?_some hfound
      have hgid : g.id = id := beq_iff_eq.mp hgid
      have hlinks : links (updateFirst (·.id == id) (chargeGroup nowNs fair elapsedNs) groups) =
          links groups :=
        map_updateFirst (f := chargeGroup nowNs fair elapsedNs) _ (fun _ => rfl) _
      have hids' : ((updateFirst (·.id == id) (chargeGroup nowNs fair elapsedNs) groups).map
          (·.id)).Nodup := by
        rw [map_updateFirst (f := chargeGroup nowNs fair elapsedNs) _ fun _ => rfl]
        exact hids
      obtain ⟨haccounts, hwalk⟩ := account_tickFrom n g.parentId _ groups' hids' h
      have hends : Walk groups (n + 1) (some id) := fun g' hg' hid => by
        obtain rfl : g' = g := List.inj_on_of_nodup_map hids hg' hg (hid.trans hgid.symm)
        exact walk_congr hlinks n _ hwalk
      refine ⟨haccounts.trans ?_, hends⟩
      rw [billed_congr hlinks, updateFirst_eq_map (k := fun g : ResourceGroup => g.id) id hids,
        map_map]
      refine map_congr_left fun x hx => ?_
      have habove := above_iff hids hg x.id
      rw [hgid] at habove
      rw [Function.comp_apply]
      by_cases hxid : x.id = id
      · obtain rfl : x = g := List.inj_on_of_nodup_map hids hx hg (hxid.trans hgid.symm)
        -- the walk above the group does not meet it again
        have honce : ¬ Above groups x.parentId x.id := by
          rintro ⟨p, hp, hback⟩
          exact Walk.not_cyclic ⟨x, hg, rfl, hp⟩ hback (n + 1) (hgid ▸ hends)
        rw [if_pos hxid, billed, billed, if_pos (habove.mpr (.inl hxid))]
        exact if_neg honce ▸ rfl
      · rw [if_neg hxid, billed, billed]
        refine congrArg (fun time => (x.id, x.parentId, time)) (if_congr ?_ rfl rfl)
        rw [habove]
        exact ⟨.inr, fun h => h.resolve_left hxid⟩

end Walks

/-! ### What is booked -/

/-- What the accounts have about a task, and what its next tick depends on. -/
def booked (u : SchedulerTask) : ℕ × UInt32 × Option BlockReason :=
  (u.id, u.resourceGroupId, u.blockReason)

/-- Nothing that is booked changes. -/
structure Undisturbed (s t : Scheduler) : Prop where
  tasks : t.tasks.map booked = s.tasks.map booked
  groups : t.groups.map account = s.groups.map account
  runtime : t.runtime = s.runtime
  now : t.nowNs = s.nowNs

instance : Std.Refl Undisturbed := ⟨fun _ => ⟨rfl, rfl, rfl, rfl⟩⟩

instance : IsTrans Scheduler Undisturbed :=
  ⟨fun _ _ _ h₁ h₂ => ⟨h₂.tasks.trans h₁.tasks, h₂.groups.trans h₁.groups,
    h₂.runtime.trans h₁.runtime, h₂.now.trans h₁.now⟩⟩

section Frames

variable {ε : Type}

theorem undisturbed_modifyTask (s id) {f : SchedulerTask → SchedulerTask}
    (hf : ∀ u, booked (f u) = booked u) : Undisturbed s (s.modifyTask id f) :=
  ⟨map_updateFirst _ hf _, rfl, rfl, rfl⟩

theorem undisturbed_updateGroups (s) (p : ResourceGroup → Bool)
    {f : ResourceGroup → ResourceGroup} (hf : ∀ g, account (f g) = account g) :
    Undisturbed s { s with groups := updateFirst p f s.groups } :=
  ⟨rfl, map_updateFirst _ hf _, rfl, rfl⟩

instance (cursors : Scheduler → List FairCursor) : Moves Undisturbed
    (modify fun s => { s with fairTaskCursors := cursors s } : SchedM Unit) :=
  .modify fun _ => ⟨rfl, rfl, rfl, rfl⟩

theorem booked_replenish (nowNs u) : booked (replenish nowNs u) = booked u := by
  obtain ⟨horigin, hstance⟩ := SchedulerTask.origin_replenish nowNs u
  have hid : (replenish nowNs u).id = u.id := congrArg Prod.fst horigin
  have hgroup : (replenish nowNs u).resourceGroupId = u.resourceGroupId :=
    congrArg (·.2.2) horigin
  have hwait : (replenish nowNs u).blockReason = u.blockReason := congrArg (·.2.1) hstance
  rw [booked, hid, hgroup, hwait, booked]

instance (cpu) : Moves Undisturbed (scheduleNextOnCpu cpu) := by
  unfold scheduleNextOnCpu
  refine .andThen (.modify fun s => ⟨?_, rfl, rfl, rfl⟩) fun _ => .next fun s => .next fun _ =>
    .next fun next => .andThen (.modify fun t => ?_) inferInstance
  · rw [map_map]
    exact map_congr_left fun u _ => booked_replenish _ u
  · unfold dispatch
    split
    · exact ⟨rfl, rfl, rfl, rfl⟩
    · rename_i id
      have hcurrent : Undisturbed t (t.setCurrent cpu (some id)) := ⟨rfl, rfl, rfl, rfl⟩
      refine trans_of Undisturbed hcurrent (undisturbed_modifyTask _ id ?_)
      exact fun _ => rfl

instance : Moves Undisturbed fillIdleCpus := by
  unfold fillIdleCpus
  infer_instance

instance : Moves Undisturbed (modify clampRunnableGroupLag : Prog Scheduler ε Unit) := by
  refine .modify fun s => ?_
  unfold clampRunnableGroupLag
  split
  · exact refl_of Undisturbed s
  · refine ⟨rfl, ?_, rfl, rfl⟩
    rw [map_map]
    refine map_congr_left fun g _ => ?_
    rw [Function.comp_apply]
    split <;> rfl

instance (id) : Moves Undisturbed (modify (levelGroup id) : Prog Scheduler ε Unit) := by
  refine .modify fun s => ?_
  unfold levelGroup
  split
  · exact refl_of Undisturbed s
  · exact undisturbed_updateGroups s _ fun _ => rfl

theorem undisturbed_indexTask (s u) : Undisturbed s (indexTask s u) := by
  unfold indexTask
  refine ⟨rfl, ?_, rfl, rfl⟩
  simp only
  split
  · exact map_updateFirst (f := bump) _ (fun _ => rfl) _
  · rfl

theorem undisturbed_foldl (us : List SchedulerTask) : ∀ s : Scheduler,
    Undisturbed s (us.foldl indexTask s) := by
  induction us with
  | nil => exact fun s => refl_of Undisturbed s
  | cons u us ih => exact fun s => trans_of Undisturbed (undisturbed_indexTask s u) (ih _)

instance : Moves Undisturbed (modify rebuildRunnableIndexes : Prog Scheduler ε Unit) := by
  refine .modify fun s => ?_
  have hzero : Undisturbed s
      { s with
        groups := s.groups.map fun g => { g with runnableTasks := 0 }
        fairReadyBitmap := List.Vector.replicate _ 0 } := ⟨rfl, map_map, rfl, rfl⟩
  exact trans_of Undisturbed hzero (undisturbed_foldl s.tasks _)

end Frames

/-! ### The accounts agree -/

/-- The accounts agree, and the ledger is up to date. -/
structure Audited (s : Scheduler) : Prop where
  ids : s.runtime.threads.map (·.id) = s.ids
  clock : ∀ last, s.runtime.lastNs = some last → last = s.nowNs
  awake : ∀ u ∈ s.tasks, u.blockReason = none
  parents : ∀ g ∈ s.groups, ∀ p, g.parentId = some p → p ∈ s.groups.map (·.id)
  total : (s.tasks.map fun u => s.ledger u.id).sum ≤ s.nowNs.toNat
  balanced : ∀ g ∈ s.groups, g.cpuTimeNs.toNat = s.consumed g.id

section Balance

variable {s t : Scheduler}

theorem ids_of_booked (h : t.tasks.map booked = s.tasks.map booked) : t.ids = s.ids :=
  map_of_map_eq h Prod.fst

theorem awake_of_booked (h : t.tasks.map booked = s.tasks.map booked)
    (hs : ∀ u ∈ s.tasks, u.blockReason = none) : ∀ u ∈ t.tasks, u.blockReason = none := by
  intro u hu
  obtain ⟨v, hv, hsame⟩ := mem_map.mp (h ▸ mem_map_of_mem hu)
  exact (congrArg (·.2.2) hsame).symm.trans (hs v hv)

theorem parents_of_links (h : links t.groups = links s.groups)
    (hs : ∀ g ∈ s.groups, ∀ p, g.parentId = some p → p ∈ s.groups.map (·.id)) :
    ∀ g ∈ t.groups, ∀ p, g.parentId = some p → p ∈ t.groups.map (·.id) := by
  intro g hg p hp
  obtain ⟨g', hg', -, hp'⟩ := mem_links.mp (h ▸ mem_links.mpr ⟨g, hg, rfl, hp⟩)
  exact ids_of_links h ▸ hs g' hg' p hp'

theorem total_eq (s : Scheduler) : (s.tasks.map fun u => s.ledger u.id).sum =
    ((s.tasks.map booked).map fun b => s.ledger b.1).sum := by
  rw [map_map]
  rfl

open Classical in
theorem consumed_eq (s : Scheduler) (group : UInt32) : s.consumed group =
    ((s.tasks.map booked).map fun b =>
      if Relation.ReflTransGen (Parent s.groups) b.2.1 group then s.ledger b.1 else 0).sum := by
  rw [map_map]
  rfl

theorem consumed_le_total (s : Scheduler) (group : UInt32) :
    s.consumed group ≤ (s.tasks.map fun u => s.ledger u.id).sum := by
  refine List.sum_le_sum fun u _ => ?_
  split
  · exact le_refl _
  · exact Nat.zero_le _

theorem links_of_accounts {groups groups'} (h : groups'.map account = groups.map account) :
    links groups' = links groups :=
  map_of_map_eq h fun a => (a.1, a.2.1)

theorem Audited.undisturbed (hs : s.Audited) (h : Undisturbed s t) : t.Audited := by
  have hlinks := links_of_accounts h.groups
  have hledger : t.ledger = s.ledger := by
    funext id
    rw [ledger, h.runtime, ledger]
  refine ⟨?_, ?_, awake_of_booked h.tasks hs.awake, parents_of_links hlinks hs.parents, ?_,
    fun g hg => ?_⟩
  · rw [h.runtime, ids_of_booked h.tasks, hs.ids]
  · rw [h.runtime, h.now]
    exact hs.clock
  · rw [total_eq, h.tasks, hledger, h.now, ← total_eq]
    exact hs.total
  · obtain ⟨g', hg', hsame⟩ := mem_map.mp (h.groups ▸ mem_map_of_mem hg)
    rw [account, account, Prod.mk.injEq, Prod.mk.injEq] at hsame
    rw [consumed_eq, h.tasks, hledger, parent_congr hlinks, ← consumed_eq, ← hsame.1, ← hsame.2.2]
    exact hs.balanced g' hg'

theorem sum_map_single {α κ : Type} [DecidableEq κ] {k : α → κ} {as : List α}
    (hkeys : (as.map k).Nodup) {a : α} (ha : a ∈ as) (n) :
    (as.map fun b => if k b = k a then n else 0).sum = n := by
  induction as with
  | nil => cases ha
  | cons b as ih =>
    rw [List.map_cons, List.nodup_cons] at hkeys
    rw [List.map_cons, List.sum_cons]
    rcases List.mem_cons.mp ha with rfl | hmem
    · have hrest : (as.map fun b => if k b = k a then n else 0).sum = 0 := by
        refine List.sum_eq_zero fun m hm => ?_
        obtain ⟨c, hc, rfl⟩ := mem_map.mp hm
        exact if_neg fun hca : k c = k a => hkeys.1 (hca ▸ mem_map_of_mem hc)
      rw [if_pos rfl, hrest, Nat.add_zero]
    · have hne : k b ≠ k a := fun hba => hkeys.1 (hba ▸ mem_map_of_mem hmem)
      rw [if_neg hne, ih hkeys.2 hmem, Nat.zero_add]

/-- More run time of a thread. -/
def extend (elapsedNs : UInt64) (r : ThreadRuntime) : ThreadRuntime :=
  { r with cpuNs := r.cpuNs.satAdd elapsedNs }

/-- More run time in the ledger, for a task that runs. -/
def spend (elapsedNs : UInt64) (threads : List ThreadRuntime) : Option ℕ → List ThreadRuntime
  | none => threads
  | some id => updateFirst (·.id == id) (extend elapsedNs) threads

/-- Time passes, and both accounts charge it to the same task. -/
structure Charged (o : Option SchedulerTask) (elapsedNs : UInt64) (s t : Scheduler) : Prop where
  tasks : t.tasks.map booked = s.tasks.map booked
  threads : t.runtime.threads = spend elapsedNs s.runtime.threads (o.map (·.id))
  groups : t.groups.map account = s.groups.map (billed s.groups elapsedNs (o.map (·.resourceGroupId)))
  last : t.runtime.lastNs = some t.nowNs
  now : s.nowNs.toNat + elapsedNs.toNat ≤ t.nowNs.toNat

/-- What the ledger has for a task is part of the whole. -/
theorem ledger_le_total {u} (hu : u ∈ s.tasks) :
    s.ledger u.id ≤ (s.tasks.map fun u => s.ledger u.id).sum :=
  List.single_le_sum (fun _ _ => Nat.zero_le _) _ (mem_map_of_mem hu)

theorem Charged.ledger {o elapsedNs} (h : Charged o elapsedNs s t) (hs : s.Audited)
    (ho : ∀ u ∈ o, u ∈ s.tasks) (id) :
    t.ledger id = s.ledger id + if o.any (·.id == id) then elapsedNs.toNat else 0 := by
  rw [Scheduler.ledger, Scheduler.ledger, h.threads]
  cases o with
  | none => rfl
  | some u =>
    have hu := ho u rfl
    rw [Option.map_some, spend, find?_updateFirst (k := fun r : ThreadRuntime => r.id)
      (f := extend elapsedNs) fun _ => rfl, Option.any_some]
    by_cases hid : id = u.id
    · subst hid
      have hmem : u.id ∈ s.runtime.threads.map (·.id) := hs.ids ▸ mem_map_of_mem hu
      obtain ⟨r, hr, hrid⟩ := mem_map.mp hmem
      have hbound := (ledger_le_total hu).trans hs.total
      rw [Scheduler.ledger] at hbound
      obtain ⟨r', hr'⟩ := Option.isSome_iff_exists.mp
        ((List.find?_isSome (p := (·.id == u.id))).mpr ⟨r, hr, beq_iff_eq.mpr hrid⟩)
      rw [hr'] at hbound ⊢
      rw [if_pos rfl, if_pos (beq_self_eq_true _)]
      have hlt := t.nowNs.toNat_lt
      have hnow := h.now
      refine UInt64.toNat_satAdd_of_lt ?_
      simp only [Option.map_some, Option.getD_some] at hbound
      omega
    · rw [if_neg hid, if_neg fun h => hid (beq_iff_eq.mp h).symm, Nat.add_zero]

open Classical in
/-- **Charging both accounts alike keeps them in agreement.** -/
theorem Charged.audited {o : Option SchedulerTask} {elapsedNs : UInt64} (h : Charged o elapsedNs s t)
    (hids : s.ids.Nodup) (hs : s.Audited) (ho : ∀ u ∈ o, u ∈ s.tasks) : t.Audited := by
  have hlinks : links t.groups = links s.groups := map_of_map_eq h.groups fun a => (a.1, a.2.1)
  have hledger := h.ledger hs ho
  -- the charge goes to one task; summed over any set of tasks it counts once or not at all
  have hmore : ∀ p : SchedulerTask → Bool,
      (s.tasks.map fun v => if p v && o.any (·.id == v.id) then elapsedNs.toNat else 0).sum =
        if o.any p then elapsedNs.toNat else 0 := by
    intro p
    cases o with
    | none => simp
    | some u =>
      have hu := ho u rfl
      rw [← sum_map_single hids hu (if (some u).any p then elapsedNs.toNat else 0)]
      refine congrArg List.sum (map_congr_left fun v hv => ?_)
      by_cases hvu : v.id = u.id
      · obtain rfl : v = u := List.inj_on_of_nodup_map hids hv hu hvu
        simp
      · simp [hvu, Ne.symm hvu]
  have htotal : (t.tasks.map fun u => t.ledger u.id).sum ≤ t.nowNs.toNat := by
    have hsplit : (t.tasks.map fun u => t.ledger u.id).sum = (s.tasks.map fun u => s.ledger u.id).sum +
        if o.any fun _ => true then elapsedNs.toNat else 0 := by
      rw [total_eq, h.tasks, ← hmore fun _ => true, ← List.sum_map_add, map_map]
      exact congrArg List.sum (map_congr_left fun v _ => hledger v.id)
    have hnow := h.now
    have htotal := hs.total
    rw [hsplit]
    split <;> omega
  refine ⟨?_, fun last hlast => ?_, awake_of_booked h.tasks hs.awake,
    parents_of_links hlinks hs.parents, htotal, fun g hg => ?_⟩
  · rw [ids_of_booked h.tasks, ← hs.ids, h.threads]
    cases o with
    | none => rfl
    | some u => exact map_updateFirst (f := extend elapsedNs) _ (fun _ => rfl) _
  · rw [h.last, Option.some_inj] at hlast
    exact hlast.symm
  · obtain ⟨g', hg', hsame⟩ := mem_map.mp (h.groups ▸ mem_map_of_mem hg)
    rw [billed, account, Prod.mk.injEq, Prod.mk.injEq] at hsame
    -- the group and the tasks under it grow by the same amount
    have hconsumed : t.consumed g.id = s.consumed g.id +
        if o.any fun u => decide (s.Within g.id u) then elapsedNs.toNat else 0 := by
      rw [consumed_eq, h.tasks, parent_congr hlinks, ← hmore fun u => decide (s.Within g.id u),
        consumed, ← List.sum_map_add, map_map]
      refine congrArg List.sum (map_congr_left fun v _ => ?_)
      by_cases hwithin : s.Within g.id v
      · rw [if_pos hwithin, decide_eq_true hwithin, Bool.true_and, ← hledger]
        exact if_pos hwithin
      · rw [if_neg hwithin, decide_eq_false hwithin, Bool.false_and]
        exact if_neg hwithin
    have habove : Above s.groups (o.map (·.resourceGroupId)) g'.id ↔
        o.any fun u => decide (s.Within g.id u) := by
      rw [hsame.1]
      cases o with
      | none => exact ⟨fun h => absurd h (not_above_none _), fun h => absurd h Bool.false_ne_true⟩
      | some u =>
        rw [Option.any_some, decide_eq_true_iff]
        refine ⟨?_, fun hup => ⟨_, rfl, hup⟩⟩
        rintro ⟨_, hid, hup⟩
        cases hid
        exact hup
    -- the sum cannot saturate: it is at most the time that has passed
    have hbound := (consumed_le_total s g.id).trans hs.total
    have hbalanced := hs.balanced g' hg'
    have hlt := t.nowNs.toNat_lt
    have hnow := h.now
    rw [hsame.1] at hbalanced
    rw [hconsumed, ← hbalanced, ← hsame.2.2]
    by_cases hcharged : o.any fun u => decide (s.Within g.id u)
    · rw [if_pos hcharged, if_pos (habove.mpr hcharged)]
      exact UInt64.toNat_satAdd_of_lt (by omega)
    · rw [if_neg hcharged, if_neg (mt habove.mp hcharged), Nat.add_zero]

end Balance

/-! ### Ticks -/

/-- Both accounts see the same time: if time has passed, then no other CPU runs a task, and
the ledger was opened before the task on this CPU was given the time. -/
def Steady (s : Scheduler) (cpu : ℕ) (nowNs : UInt64) : Prop :=
  s.nowNs < nowNs →
    (∀ c < s.currentTaskIds.length, c ≠ cpu → (s.currentTaskIds[c]?).join = none) ∧
      ((s.currentTaskIds[cpu]?).join = none ∨ s.runtime.lastNs.isSome)

section Ticks

variable {s : Scheduler} {cpu : ℕ} {nowNs : UInt64}

theorem foldl_only {α β : Type} {f : β → Option α → β} (hf : ∀ b, f b none = b) :
    ∀ (os : List (Option α)) (i : ℕ) (b : β),
      (∀ c < os.length, c ≠ i → (os[c]?).join = none) → os.foldl f b = f b (os[i]?).join
  | [], _, b, _ => (hf b).symm
  | o :: os, 0, b, h => by
    have hrest := foldl_only hf os os.length (f b o) fun c hc _ =>
      h (c + 1) (Nat.succ_lt_succ hc) (Nat.succ_ne_zero c)
    rw [List.foldl_cons, hrest, List.getElem?_eq_none (le_refl _)]
    exact hf _
  | o :: os, i + 1, b, h => by
    have ho : o = none := h 0 (Nat.succ_pos _) (Nat.succ_ne_zero i).symm
    rw [List.foldl_cons, ho, hf]
    exact foldl_only hf os i b fun c hc hne =>
      h (c + 1) (Nat.succ_lt_succ hc) fun heq => hne (Nat.succ.inj heq)

theorem spend_zero (threads o) : spend 0 threads o = threads := by
  cases o with
  | none => rfl
  | some thread =>
    have hzero : ∀ r, extend 0 r = r := by
      intro r
      have hsame : r.cpuNs.satAdd 0 = r.cpuNs := by
        have hlt := r.cpuNs.toNat_lt
        exact UInt64.toNat_inj.mp (UInt64.toNat_satAdd_of_lt hlt)
      rw [extend, hsame]
    have hmap := map_updateFirst (f := extend 0) (g := id) (·.id == thread) hzero threads
    rwa [List.map_id, List.map_id] at hmap

theorem foldl_spend_zero (threads : List ThreadRuntime) :
    ∀ os : List (Option ℕ), os.foldl (spend 0) threads = threads
  | [] => rfl
  | o :: os => by rw [List.foldl_cons, spend_zero, foldl_spend_zero]

theorem runtime_foldl (elapsedNs budgetNs : UInt64) : ∀ (os : List (Option ℕ)) (s : Scheduler),
      (os.foldl (chargeRunning elapsedNs budgetNs) s).runtime =
        { s.runtime with threads := os.foldl (spend elapsedNs) s.runtime.threads }
  | [], _ => rfl
  | o :: os, s => by
    rw [List.foldl_cons, runtime_foldl elapsedNs budgetNs os]
    cases o <;> rfl

/-- What a steady tick writes into the ledger. -/
theorem runtime_accountRuntime (hs : s.Audited) (hsteady : s.Steady cpu nowNs)
    (hlater : s.nowNs ≤ nowNs) :
    (s.accountRuntime nowNs).runtime.lastNs = some nowNs ∧
      (s.accountRuntime nowNs).runtime.threads =
        spend (nowNs.satSub s.nowNs) s.runtime.threads (s.currentTaskIds[cpu]?).join := by
  have hstill : ¬ s.nowNs < nowNs → nowNs.satSub s.nowNs = 0 := by
    intro h
    have hsame : nowNs = s.nowNs := UInt64.le_antisymm (UInt64.not_lt.mp h) hlater
    rw [hsame, ← UInt64.toNat_inj, UInt64.toNat_satSub, Nat.sub_self]
    rfl
  unfold accountRuntime
  cases hlast : s.runtime.lastNs with
  | some last =>
    obtain rfl := hs.clock last hlast
    have helapsed : nowNs - s.nowNs = nowNs.satSub s.nowNs := by
      rw [UInt64.satSub, UInt64.checkedSub, if_pos hlater, Option.getD_some]
    simp only [if_neg (UInt64.not_lt.mpr hlater), runtime_foldl, helapsed, true_and]
    by_cases h : s.nowNs < nowNs
    · exact foldl_only (fun _ => rfl) _ cpu _ (hsteady h).1
    · rw [hstill h, foldl_spend_zero, spend_zero]
  | none =>
    simp only [runtime_foldl, foldl_spend_zero, true_and]
    by_cases h : s.nowNs < nowNs
    · obtain hidle | hopen := (hsteady h).2
      · rw [hidle]
        rfl
      · rw [hlast] at hopen
        cases hopen
    · rw [hstill h, spend_zero]

theorem booked_accountRuntime (s : Scheduler) (nowNs : UInt64) :
    (s.accountRuntime nowNs).tasks.map booked = s.tasks.map booked := by
  refine accountRuntime_eq (·.tasks.map booked) nowNs s (fun _ => rfl) fun o _ _ budget t => ?_
  cases o with
  | none => rfl
  | some id =>
    refine map_updateFirst (f := fun u : SchedulerTask => { u with
      deadline := u.deadline.map fun d =>
        { d with remainingBudgetNs := d.remainingBudgetNs.satSub budget } }) _ ?_ _
    exact fun _ => rfl

theorem booked_chargeTick (nowNs u) : booked (chargeTick nowNs u) = booked u := by
  unfold chargeTick
  simp only
  split <;> rfl

theorem booked_preempt (u) : booked (preempt u) = booked u := by
  unfold preempt
  split <;> rfl

/-- Charging the groups of the running task, after the ledger. -/
theorem wp_addGroupTick (c) (hgroups : (c.groups.map (·.id)).Nodup) (group fair elapsedNs) :
    wp (addGroupTickIfPresent (some (group, fair)) elapsedNs)
      (fun _ t => ∃ groups', groups'.map account =
          c.groups.map (billed c.groups elapsedNs (some group)) ∧
            Undisturbed { c with groups := groups' } t)
      (fun _ _ => False) c := by
  simp only [addGroupTickIfPresent, wp_bind, wp_get, wp_unwrap, wp_modify]
  intro groups' htick
  have haccounts := (account_tickFrom _ _ _ _ hgroups htick).1
  rw [wp_ite]
  refine ⟨fun _ => ?_, fun _ => (wp_pure _).mpr ⟨groups', haccounts, refl_of Undisturbed _⟩⟩
  have hclamp : Moves Undisturbed (modify clampRunnableGroupLag : SchedM Unit) := inferInstance
  exact (wp_modify _).mpr ⟨groups', haccounts, (wp_modify _).mp (hclamp.run _)⟩

/-- **A steady tick keeps the accounts in agreement.** -/
theorem Audited.tick (ha : s.Audited) (hs : s.Sound) (hkeyed : s.Keyed)
    (hsteady : s.Steady cpu nowNs) :
    ends (tickAtOnCpu cpu nowNs) Audited s := by
  simp only [tickAtOnCpu, ensureCpuId, wp_bind, wp_get, wp_check, wp_modify]
  refine ⟨fun _ => ⟨fun hle => ?_, fun _ => ha⟩, fun _ => ha⟩
  have hlater : s.nowNs ≤ nowNs := UInt64.not_lt.mp hle
  obtain ⟨hlast, hthreads⟩ := runtime_accountRuntime ha hsteady hlater
  have hnow : s.nowNs.toNat + (nowNs.satSub s.nowNs).toNat ≤ nowNs.toNat := by
    have hle := UInt64.le_iff_toNat_le.mp hlater
    rw [UInt64.toNat_satSub]
    omega
  generalize nowNs.satSub s.nowNs = elapsedNs at hthreads hnow ⊢
  refine of_clock (P := wp _ _ _) hlater fun c hclock hgroups hruntime => ?_
  rw [← hruntime] at hlast hthreads
  rw [← hclock.now] at hlast hnow
  have hbooked : c.tasks.map booked = s.tasks.map booked :=
    hclock.tasks ▸ booked_accountRuntime s nowNs
  have hgroups : c.groups = s.groups := hgroups.trans (groups_accountRuntime nowNs s)
  -- nobody waits, so nobody is woken
  have hnone : ∀ u ∈ c.tasks, ¬ u.blockReason.any (BlockReason.expired c.nowNs) := by
    intro u hu
    rw [awake_of_booked hbooked ha.awake u hu]
    exact Bool.false_ne_true
  simp only [wakeExpiredDeadlines, wp_bind, wp_get, List.filter_eq_nil_iff.mpr hnone, List.map_nil,
    wakeTasks, forEach, wp_pure]
  split
  · rename_i current hfound
    obtain ⟨hrun, htask⟩ := task_of_current hfound
    obtain ⟨u, hu, hsame⟩ := mem_map.mp (hbooked ▸ mem_map_of_mem
      (List.mem_of_find?_eq_some htask) : booked current ∈ s.tasks.map booked)
    rw [booked, booked, Prod.mk.injEq, Prod.mk.injEq] at hsame
    have hjoin : (s.currentTaskIds[cpu]?).join = some u.id := by
      rw [hsame.1, ← hclock.current]
      exact Option.join_eq_some_iff.mpr hrun
    -- both accounts are charged for `u`
    have hcharged : ∀ (f : SchedulerTask → SchedulerTask) groups', (∀ v, booked (f v) = booked v) →
        groups'.map account = c.groups.map (billed c.groups elapsedNs (some current.resourceGroupId)) →
        Audited { c.modifyTask current.id f with groups := groups' } := by
      intro f groups' hf hbilled
      have hboth : Charged (some u) elapsedNs s
        { c.modifyTask current.id f with groups := groups' } := by
        refine ⟨(map_updateFirst _ hf _).trans hbooked, ?_, ?_, hlast, hnow⟩
        · exact hthreads.trans (by rw [hjoin]; rfl)
        · rw [hgroups, ← hsame.2.1] at hbilled
          exact hbilled
      refine hboth.audited hs.ids ha fun v hv => ?_
      rw [← Option.some.inj hv]
      exact hu
    have hnodup : (c.groups.map (·.id)).Nodup := hgroups ▸ hkeyed.groups
    rw [wp_ite]
    constructor
    · -- the task keeps its CPU
      intro _
      rw [wp_bind, wp_modify, modifyTask_const htask (chargeTick nowNs), wp_bind]
      refine wp_mono (wp_addGroupTick (c.modifyTask _ _) hnodup _ _ _) (fun _ t ht => ?_)
      obtain ⟨groups', hbilled, hrest⟩ := ht
      exact (wp_pure _).mpr ((hcharged _ groups' (booked_chargeTick nowNs) hbilled).undisturbed hrest)
    · -- the task is preempted
      intro _
      rw [wp_bind, wp_modify, modifyTask_const htask fun v => preempt (chargeTick nowNs v), wp_bind]
      refine wp_mono (wp_addGroupTick (c.modifyTask _ _) hnodup _ _ _) (fun _ t ht => ?_)
      obtain ⟨groups', hbilled, hrest⟩ := ht
      have hfirst := (hcharged (fun v => preempt (chargeTick nowNs v)) groups' (fun v =>
        (booked_preempt _).trans (booked_chargeTick nowNs v)) hbilled).undisturbed hrest
      rw [wp_bind]
      refine wp_of_total (R := Undisturbed) fun _ v hv => ?_
      exact (wp_pure _).mpr (hfirst.undisturbed hv)
  · rename_i hfree
    have hjoin : (s.currentTaskIds[cpu]?).join = none := by
      cases hentry : (s.currentTaskIds[cpu]?).join with
      | none => rfl
      | some id =>
        rw [← hclock.current] at hentry
        exact absurd (Option.join_eq_some_iff.mp hentry)
          ((hclock.sound hs).idle_of_none hfree id)
    have hneither : Charged none elapsedNs s c := by
      refine ⟨hbooked, hthreads.trans (by rw [hjoin]; rfl), ?_, hlast, hnow⟩
      rw [hgroups]
      exact map_congr_left fun g _ => (billed_of_not_above (not_above_none _)).symm
    have hcharged : c.Audited := hneither.audited hs.ids ha fun v hv => by cases hv
    rw [wp_bind]
    refine wp_of_total (R := Undisturbed) fun _ v hv => ?_
    exact (wp_pure _).mpr (hcharged.undisturbed hv)

end Ticks

/-! ### Groups and tasks -/

section Additions

variable {s : Scheduler}

/-- A new group is no ancestor of the old ones. -/
theorem up_append_iff {groups g}
    (hparents : ∀ g ∈ groups, ∀ p, g.parentId = some p → p ∈ groups.map (·.id))
    (hnew : g.id ∉ groups.map (·.id)) {a x} (ha : a ∈ groups.map (·.id)) :
    Relation.ReflTransGen (Parent (groups ++ [g])) a x ↔
      Relation.ReflTransGen (Parent groups) a x ∧ x ∈ groups.map (·.id) := by
  have hmore : ∀ a b, Parent groups a b → Parent (groups ++ [g]) a b := fun _ _ ⟨g', hg', hrest⟩ =>
    ⟨g', List.mem_append_left _ hg', hrest⟩
  refine ⟨fun h => ?_, fun h => Relation.ReflTransGen.mono hmore a x h.1⟩
  induction h with
  | refl => exact ⟨.refl, ha⟩
  | tail _ hstep ih =>
    obtain ⟨g', hg', hid, hp⟩ := hstep
    rcases List.mem_append.mp hg' with hold | hsame
    · exact ⟨ih.1.tail ⟨g', hold, hid, hp⟩, hparents g' hold _ hp⟩
    · rw [List.mem_singleton.mp hsame] at hid
      exact absurd (hid ▸ ih.2) hnew

open Classical in
theorem Audited.newGroup (hs : s.Audited) (hkeyed : s.Keyed) {g}
    (hnew : g.id ∉ s.groups.map (·.id)) (hzero : g.cpuTimeNs = 0)
    (hparent : ∀ p, g.parentId = some p → p ∈ s.groups.map (·.id)) (cursors) :
    Audited { s with groups := s.groups ++ [g], fairTaskCursors := cursors } := by
  have hids : ∀ p ∈ s.groups.map (·.id), p ∈ (s.groups ++ [g]).map (·.id) := fun p hp => by
    rw [map_append]
    exact List.mem_append_left _ hp
  have hconsumed : ∀ x, Scheduler.consumed
      { s with groups := s.groups ++ [g], fairTaskCursors := cursors } x =
        if x ∈ s.groups.map (·.id) then s.consumed x else 0 := by
    intro x
    have hwithin : ∀ u ∈ s.tasks, Within
        { s with groups := s.groups ++ [g], fairTaskCursors := cursors } x u ↔
          s.Within x u ∧ x ∈ s.groups.map (·.id) := fun u hu =>
      up_append_iff hs.parents hnew (hkeyed.housed u hu)
    split
    · rename_i hx
      refine congrArg List.sum (map_congr_left fun u hu => if_congr ?_ rfl rfl)
      rw [hwithin u hu]
      exact and_iff_left hx
    · rename_i hx
      refine List.sum_eq_zero fun n hn => ?_
      obtain ⟨u, hu, rfl⟩ := mem_map.mp hn
      exact if_neg fun h => hx ((hwithin u hu).mp h).2
  refine { hs with parents := fun g' hg' p hp => ?_, balanced := fun g' hg' => ?_ }
  · rcases List.mem_append.mp hg' with hold | hsame
    · exact hids p (hs.parents g' hold p hp)
    · rw [List.mem_singleton.mp hsame] at hp
      exact hids p (hparent p hp)
  · rw [hconsumed]
    rcases List.mem_append.mp hg' with hold | hsame
    · rw [if_pos (mem_map_of_mem hold)]
      exact hs.balanced g' hold
    · rw [List.mem_singleton.mp hsame, if_neg hnew, hzero]
      rfl

/-- A group may be moved while there are no tasks. -/
theorem Audited.regroup (hs : s.Audited) (hempty : s.tasks = []) (id : UInt32)
    {f : ResourceGroup → ResourceGroup} (hf : ∀ g, (f g).id = g.id)
    (htime : ∀ g, (f g).cpuTimeNs = g.cpuTimeNs)
    (hparent : ∀ g p, (f g).parentId = some p → p ∈ s.groups.map (·.id)) :
    Audited { s with groups := updateFirst (·.id == id) f s.groups } := by
  have hzero : ∀ (t : Scheduler) x, t.tasks = [] → t.consumed x = 0 := by
    intro t x ht
    rw [consumed, ht]
    rfl
  have hids : (updateFirst (·.id == id) f s.groups).map (·.id) = s.groups.map (·.id) :=
    map_updateFirst _ hf _
  refine { hs with parents := fun g hg p hp => ?_, balanced := fun g hg => ?_ }
  · show p ∈ (updateFirst (·.id == id) f s.groups).map (·.id)
    rw [hids]
    obtain hold | ⟨g', -, rfl⟩ := mem_updateFirst hg
    · exact hs.parents g hold p hp
    · exact hparent g' p hp
  · rw [hzero { s with groups := updateFirst (·.id == id) f s.groups } g.id hempty]
    obtain hold | ⟨g', hg', rfl⟩ := mem_updateFirst hg
    · rw [hs.balanced g hold, hzero _ _ hempty]
    · rw [htime, hs.balanced g' hg', hzero _ _ hempty]

theorem Audited.ensureGroup (hs : s.Audited) (hkeyed :
    s.Keyed) (id parentId cpuShares permille allowRealtime)
    (hfree : s.tasks = [] ∨ s.resourceGroup id = none) :
    ends (ensureResourceGroupWithLimits id parentId cpuShares permille allowRealtime) Audited s := by
  simp only [ensureResourceGroupWithLimits, wp_bind, wp_get, wp_check]
  refine ⟨fun _ => ⟨fun hparent => ?_, fun _ => hs⟩, fun _ => hs⟩
  have hparent : ∀ p, parentId = some p → p ∈ s.groups.map (·.id) := by
    intro p hp
    cases hgroup : s.resourceGroup p with
    | none => exact absurd (.inr ⟨p, hp, by rw [hgroup]; rfl⟩) hparent
    | some g => exact mem_ids_of_resourceGroup hgroup
  split
  · rename_i group hgroup
    rw [wp_bind, wp_check]
    refine ⟨fun _ => (wp_modify _).mpr ?_, fun _ => hs⟩
    refine hs.regroup (hfree.resolve_right fun h => by rw [h] at hgroup; cases hgroup) id ?_ ?_ ?_
    · exact fun _ => rfl
    · exact fun _ => rfl
    · exact fun _ p hp => hparent p hp
  · rename_i hnew
    exact (wp_modify _).mpr
      (hs.newGroup hkeyed (not_mem_ids_of_resourceGroup hnew) rfl hparent _)

variable {task : SchedulerTask}

/-- A new task has not run. -/
theorem Audited.newTask (hs : s.Audited) (hwaits : task.blockReason = none)
    (hnew : task.id ∉ s.ids) :
    Audited { s with
      runtime := { s.runtime with threads := s.runtime.threads ++ [⟨task.id, task.processId, 0⟩] }
      tasks := s.tasks ++ [task] } := by
  have hfree : s.ledger task.id = 0 := by
    have hmissing : s.runtime.threads.find? (·.id == task.id) = none := by
      refine List.find?_eq_none.mpr fun r hr hid => hnew ?_
      rw [← hs.ids, ← beq_iff_eq.mp hid]
      exact mem_map_of_mem hr
    rw [ledger, hmissing]
    rfl
  have hledger : ∀ id, Scheduler.ledger { s with
      runtime := { s.runtime with threads := s.runtime.threads ++ [⟨task.id, task.processId, 0⟩] }
      tasks := s.tasks ++ [task] } id = s.ledger id := by
    intro id
    unfold ledger
    simp only [List.find?_append]
    cases s.runtime.threads.find? (·.id == id) with
    | some r => rfl
    | none =>
      rw [Option.none_or, List.find?_singleton]
      split <;> rfl
  refine ⟨?_, hs.clock, fun u hu => ?_, hs.parents, ?_, fun g hg => ?_⟩
  · show (s.runtime.threads ++ [_]).map _ = (s.tasks ++ [task]).map _
    rw [map_append, map_append, hs.ids]
    rfl
  · rcases List.mem_append.mp hu with hold | hsame
    · exact hs.awake u hold
    · rw [List.mem_singleton.mp hsame, hwaits]
  · simp only [hledger, map_append, List.map_singleton, List.sum_append, List.sum_singleton, hfree]
    exact hs.total
  · refine (hs.balanced g hg).trans (Eq.symm ?_)
    rw [consumed]
    simp only [hledger, map_append, List.map_singleton, List.sum_append, List.sum_singleton, hfree,
      ite_self, Nat.add_zero]
    rfl

theorem Audited.addTask (ha : s.Audited) (hkeyed : s.Keyed) (hwaits : task.blockReason = none) :
    ends (addTask task) Audited s := by
  have hfirst : Undisturbed s
    (if s.currentTaskIds = [] then { s with currentTaskIds := [none] } else s) ∧
      Keyed (if s.currentTaskIds = [] then { s with currentTaskIds := [none] } else s) := by
    split
    · exact ⟨⟨rfl, rfl, rfl, rfl⟩, hkeyed.ids, hkeyed.groups, hkeyed.housed⟩
    · exact ⟨refl_of Undisturbed s, hkeyed⟩
  simp only [Scheduler.addTask, wp_bind, wp_get, wp_check, wp_modify]
  refine ⟨fun hnew => ⟨fun _ => ?_, fun _ => ha.undisturbed hfirst.1⟩, fun _ => ha⟩
  generalize (if s.currentTaskIds = [] then { s with currentTaskIds := [none] } else s) = s₁
    at hfirst ⊢
  have ha₁ := ha.undisturbed hfirst.1
  -- a group that is made for the task starts with an account of zero
  have hgroup : ends (ensureResourceGroup task.resourceGroupId) Audited s₁ := by
    simp only [ensureResourceGroup, wp_bind, wp_get, wp_ite, wp_pure]
    refine ⟨fun _ => ha₁, fun hnone => ?_⟩
    exact ha₁.ensureGroup hfirst.2 _ _ _ _ _ (.inr (Option.not_isSome_iff_eq_none.mp hnone))
  have hcalm : Moves Calm (ensureResourceGroup task.resourceGroupId) := inferInstance
  refine wp_mono (wp_and hgroup (hcalm.run s₁)) (fun _ u hu => ?_) fun _ u hu => hu.1
  have hlevel : Moves Undisturbed (modify (levelGroup task.resourceGroupId) : SchedM Unit) :=
    inferInstance
  have hlevelled := (wp_modify _).mp (hlevel.run u)
  rw [wp_bind, wp_modify]
  generalize u.levelGroup task.resourceGroupId = v at hlevelled ⊢
  have hv := hu.1.undisturbed hlevelled
  rw [wp_bind, wp_get, wp_bind, wp_lift]
  refine ⟨fun runtime hruntime => ?_, fun _ _ => hv⟩
  rw [wp_bind, wp_modify, wp_bind, wp_modify]
  generalize htask : ({ task with
    cpuAffinityMask := task.cpuAffinityMask &&& s₁.activeCpuMask } : SchedulerTask) = task'
    at hruntime ⊢
  have hid : task'.id = task.id := htask ▸ rfl
  have hfree : task'.id ∉ v.ids := by
    rw [ids_of_booked hlevelled.tasks, hu.2.ids, ids_of_booked hfirst.1.tasks, hid]
    intro hmem
    obtain ⟨w, hw, hwid⟩ := mem_map.mp hmem
    exact hnew (List.any_eq_true.mpr ⟨w, hw, beq_iff_eq.mpr hwid⟩)
  -- the ledger of the new task starts at zero
  have hadded : Audited { v with runtime := runtime, tasks := v.tasks ++ [task'] } := by
    unfold Accounting.register at hruntime
    split at hruntime
    · cases hruntime
    · have hprocess : task'.processId = task.processId := htask ▸ rfl
      rw [← Except.ok.inj hruntime, ← hid, ← hprocess]
      exact hv.newTask (htask ▸ hwaits) hfree
  have hrebuild : Moves Undisturbed (modify rebuildRunnableIndexes : SchedM Unit) := inferInstance
  have hfill : Moves Undisturbed fillIdleCpus := inferInstance
  have hrebuilt := hadded.undisturbed ((wp_modify _).mp (hrebuild.run _))
  exact wp_mono (hfill.run _) (fun _ w hw => hrebuilt.undisturbed hw)
    fun _ w hw => hrebuilt.undisturbed hw

end Additions

/-! ### Runs -/

instance (s : Scheduler) (cpu : ℕ) (nowNs : UInt64) : Decidable (s.Steady cpu nowNs) := by
  unfold Steady
  infer_instance

/-- The runs in question: groups are set up before there are tasks, then tasks are added and
time passes in steady ticks. -/
def accountable (s : Scheduler) : SchedOp → Bool
  | .addTask _ _ _ _ _ _ => true
  | .tickAtOnCpu cpu nowNs => s.Steady cpu nowNs
  | .ensureResourceGroup _ => s.tasks.isEmpty
  | .ensureResourceGroupWithShares _ _ => s.tasks.isEmpty
  | .ensureResourceGroupWithLimits _ _ _ _ _ => s.tasks.isEmpty
  | .setResourceGroupShares _ _ => s.tasks.isEmpty
  | .setResourceGroupLimits _ _ _ _ => s.tasks.isEmpty
  | _ => false

variable {s : Scheduler}

theorem Audited.exec (ha : s.Audited) (hs : s.Sound) (hkeyed : s.Keyed) {op}
    (hop : s.accountable op) : ends (exec op) Audited s := by
  have hlimits : ∀ id parentId shares permille realtime, s.tasks.isEmpty →
      ends (ensureResourceGroupWithLimits id parentId shares permille realtime) Audited s :=
        fun id parentId shares permille realtime h =>
    ha.ensureGroup hkeyed id parentId shares permille realtime (.inl (List.isEmpty_iff.mp h))
  cases op with
  | addTask id processId resourceGroupId priority name mask =>
    simp only [Scheduler.exec, wp_bind, wp_lift]
    exact ⟨fun u hu => ha.addTask hkeyed (fresh_of_new hu).waits, fun _ _ => ha⟩
  | tickAtOnCpu cpu nowNs => exact wp_discard (ha.tick hs hkeyed (of_decide_eq_true hop))
  | ensureResourceGroup id =>
    simp only [Scheduler.exec, ensureResourceGroup, wp_bind, wp_get, wp_ite, wp_pure]
    exact ⟨fun _ => ha, fun _ => hlimits id none 1024 0 true hop⟩
  | ensureResourceGroupWithShares id shares => exact hlimits id none shares 0 true hop
  | ensureResourceGroupWithLimits id parentId shares permille realtime =>
    exact hlimits id parentId shares permille realtime hop
  | setResourceGroupShares id shares | setResourceGroupLimits id shares permille realtime =>
    simp only [Scheduler.exec, setResourceGroupShares, setResourceGroupLimits, wp_bind, wp_check,
      wp_get, wp_modify]
    refine ⟨fun _ => ⟨fun _ => ha.undisturbed (undisturbed_updateGroups s _ ?_), fun _ => ha⟩,
      fun _ => ha⟩
    exact fun _ => rfl
  | _ => cases hop

theorem audited_of_withCpuCount {maxCpus} (h : withCpuCount maxCpus = .ok s) : s.Audited := by
  unfold withCpuCount at h
  split at h
  · cases h
  · cases h
    exact {
      ids := rfl
      clock := fun _ hlast => absurd hlast (by simp [Accounting.new])
      awake := fun _ hu => absurd hu List.not_mem_nil
      parents := fun _ hg => absurd hg List.not_mem_nil
      total := Nat.zero_le _
      balanced := fun _ hg => absurd hg List.not_mem_nil }

/-- **In a run with steady ticks every group is charged what its tasks consumed.** -/
theorem cpuTime_eq_consumed {s : Scheduler} (hs : Reaches (fun s op => s.accountable op) s)
    {g : ResourceGroup} (hg : g ∈ s.groups) : g.cpuTimeNs.toNat = s.consumed g.id := by
  have hinvariant : s.Sound ∧ s.Keyed ∧ s.Audited := by
    refine hs.invariant (I := fun s => s.Sound ∧ s.Keyed ∧ s.Audited) (fun maxCpus s hs => ?_)
      fun t op ht hop => ?_
    · exact ⟨sound_of_withCpuCount hs, keyed_of_withCpuCount hs, audited_of_withCpuCount hs⟩
    · have hnext : ∀ u, (Next (fun _ => True) op t u ∧ Tally t u) ∧ u.Audited →
          u.Sound ∧ u.Keyed ∧ u.Audited := fun u hu => ⟨hu.1.1.1, (hu.1.2 ht.2.1).1, hu.2⟩
      exact wp_mono (wp_and (wp_and (wp_exec ht.1 op fun _ _ => trivial) ((tally_exec op).run t))
        (ht.2.2.exec ht.1 ht.2.1 hop)) (fun _ => hnext) fun _ => hnext
  exact hinvariant.2.2.balanced g hg

/-- Two CPUs, a nested group whose only task runs for 30 ms, and one more task that is not
yet added. -/
def nestedRun : List SchedOp :=
  [.ensureResourceGroupWithLimits 1 none 1024 500 true,
    .ensureResourceGroupWithLimits 2 (some 1) 1024 0 true, .tickAtOnCpu 1 1000000,
    .addTask 1 1 2 100 [97] 1, .tickAtOnCpu 0 11000000, .tickAtOnCpu 0 31000000]

theorem cpuTime_eq_consumed_nested :
    ∃ s g, runFrom 2 accountable nestedRun = some s ∧ g ∈ s.groups ∧ g.id = 1 ∧
      g.cpuTimeNs = 30000000 ∧ s.consumed 1 = 30000000 := by
  have hrun : (runFrom 2 accountable nestedRun).any fun s =>
      s.groups.any fun g => g.id == 1 && g.cpuTimeNs == 30000000 := by decide +kernel
  simp only [Option.any_eq_true, List.any_eq_true, Bool.and_eq_true, beq_iff_eq] at hrun
  obtain ⟨s, hs, g, hg, hid, htime⟩ := hrun
  have hconsumed := cpuTime_eq_consumed (reaches_of_runFrom hs fun _ _ h => h) hg
  rw [hid, htime] at hconsumed
  exact ⟨s, g, hs, hg, hid, htime, hconsumed.symm⟩

/-- Two tasks of one group run for 10 ms on two CPUs. -/
def parallelRun : List SchedOp :=
  [.addTask 1 1 1 100 [97] UInt64.maxValue, .addTask 2 1 1 100 [98] UInt64.maxValue,
    .tickAtOnCpu 0 0, .tickAtOnCpu 0 10000000]

/-- The ledger has 20 ms for the two tasks; their group is charged with 10 ms. -/
theorem cpuTime_ne_consumed :
    ∃ s g, runFrom 2 (fun _ _ => true) parallelRun = some s ∧ g ∈ s.groups ∧
      g.cpuTimeNs = 10000000 ∧ s.consumed g.id = 20000000 := by
  have hrun : (runFrom 2 (fun _ _ => true) parallelRun).any fun s =>
      s.groups.any fun g => g.cpuTimeNs == 10000000 &&
        (s.tasks.all fun u => u.resourceGroupId == g.id) &&
        (s.tasks.map fun u => s.ledger u.id).sum == 20000000 := by decide +kernel
  simp only [Option.any_eq_true, List.any_eq_true, Bool.and_eq_true, beq_iff_eq,
    List.all_eq_true] at hrun
  obtain ⟨s, hs, g, hg, ⟨htime, hgroup⟩, hsum⟩ := hrun
  refine ⟨s, g, hs, hg, htime, ?_⟩
  have hall : ∀ u ∈ s.tasks, s.Within g.id u := fun u hu => by
    rw [Within, hgroup u hu]
  rw [← hsum]
  exact congrArg List.sum (map_congr_left fun u hu => if_pos (hall u hu))

end Scheduler

end Bexos
