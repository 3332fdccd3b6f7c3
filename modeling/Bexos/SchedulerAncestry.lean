/-
The ancestors of a resource group.

Charging a tick, the quota test and the realtime test follow the parents of a group until
there is none.  `ensure_resource_group_with_limits` asks that a new parent exists and is not the
group itself; `read_snapshot` asks nothing.

* `Scheduler.Rooted` — following parents from a group leads to one without;
* `Scheduler.Forest` — every parent is in the table and no group is its own ancestor;
* `Scheduler.Ascends` — the new parent of a group is no descendant of it;
* `Scheduler.walks_end` — if that is so of every operation and of the snapshot the scheduler
  starts from, every group is rooted and every walk ends;
* `Scheduler.parents_close` — a group becomes the parent of its own parent, and the next tick
  does not end.

Design notes: group identifiers are words of 32 bits, so a relation of them without cycles is
well founded.
-/
import Mathlib.Data.Fintype.Card
import Mathlib.Data.Fintype.EquivFin
import Bexos.SchedulerAccounts
import Bexos.SchedulerSnapshot

namespace Bexos

open Prog

/-! ### One more edge -/

section Relations

variable {α : Type} {r r' : α → α → Prop} {a b : α}

/-- A path with one more edge either does without it, or leads to its start and from its end. -/
theorem path_of_insert (hr : ∀ x y, r' x y → r x y ∨ x = a ∧ y = b) {x y}
    (h : Relation.TransGen r' x y) : Relation.TransGen r x y ∨
      Relation.ReflTransGen r x a ∧ Relation.ReflTransGen r b y := by
  induction h with
  | single hxy =>
    rcases hr _ _ hxy with hold | ⟨rfl, rfl⟩
    · exact .inl (.single hold)
    · exact .inr ⟨.refl, .refl⟩
  | tail _ hyz ih =>
    rcases hr _ _ hyz with hold | ⟨rfl, rfl⟩
    · rcases ih with hpath | ⟨hto, hfrom⟩
      · exact .inl (hpath.tail hold)
      · exact .inr ⟨hto, hfrom.tail hold⟩
    · rcases ih with hpath | ⟨hto, -⟩
      · exact .inr ⟨hpath.to_reflTransGen, .refl⟩
      · exact .inr ⟨hto, .refl⟩

/-- One more edge closes a cycle only if there was a path back. -/
theorem acyclic_insert (hr : ∀ x y, r' x y → r x y ∨ x = a ∧ y = b)
    (hacyclic : ∀ x, ¬ Relation.TransGen r x x) (hback : ¬ Relation.ReflTransGen r b a) (x : α) :
    ¬ Relation.TransGen r' x x := by
  intro hcycle
  rcases path_of_insert hr hcycle with hold | ⟨hto, hfrom⟩
  · exact hacyclic x hold
  · exact hback (hfrom.trans hto)

/-- On a finite type a relation without cycles is well founded. -/
theorem wellFounded_of_acyclic [Finite α] (h : ∀ x, ¬ Relation.TransGen r x x) :
    WellFounded (fun x y => r y x) := by
  have htrans : IsTrans α (fun x y => Relation.TransGen r y x) :=
    ⟨fun _ _ _ hxy hyz => hyz.trans hxy⟩
  have hirrefl : Std.Irrefl (fun x y => Relation.TransGen r y x) := ⟨h⟩
  exact Subrelation.wf (fun hxy => .single hxy)
    (Finite.wellFounded_of_trans_of_irrefl fun x y => Relation.TransGen r y x)

end Relations

/-- The group to which an operation gives a parent, and the parent. -/
def SchedOp.attaches : SchedOp → Option (UInt32 × UInt32)
  | .ensureResourceGroupWithLimits id (some parent) _ _ _ => some (id, parent)
  | _ => none

namespace Scheduler

/-! ### Rooted groups -/

section Rooted

variable {groups groups' : List ResourceGroup}

/-- Following parents from a group leads to a group without parent. -/
inductive Rooted (groups : List ResourceGroup) : UInt32 → Prop
  | root {g : ResourceGroup} (hg : g ∈ groups) (hroot : g.parentId = none) : Rooted groups g.id
  | up {g : ResourceGroup} {parent : UInt32} (hg : g ∈ groups) (hparent : g.parentId = some parent)
      (h : Rooted groups parent) : Rooted groups g.id

/-- Every parent is in the table, and no group is its own ancestor. -/
structure Forest (groups : List ResourceGroup) : Prop where
  closed : ∀ a b, Parent groups a b → b ∈ groups.map (·.id)
  acyclic : ∀ a, ¬ Relation.TransGen (Parent groups) a a

theorem Forest.rooted (h : Forest groups) {g} (hg : g ∈ groups) : Rooted groups g.id := by
  have hfinite : Finite UInt32 := Finite.of_injective UInt32.toFin fun _ _ => UInt32.toFin_inj.mp
  have hwf := wellFounded_of_acyclic h.acyclic
  have hall : ∀ id, id ∈ groups.map (·.id) → Rooted groups id := by
    intro id
    induction id using hwf.induction with
    | _ id ih =>
      intro hid
      obtain ⟨g, hg, rfl⟩ := List.mem_map.mp hid
      cases hparent : g.parentId with
      | none => exact .root hg hparent
      | some p =>
        have hlink : Parent groups g.id p := ⟨g, hg, rfl, hparent⟩
        exact .up hg hparent (ih p hlink (h.closed _ _ hlink))
  exact hall _ (List.mem_map_of_mem hg)

theorem Forest.congr (h : Forest groups) (hlinks : links groups' = links groups) :
    Forest groups' := by
  have hparent := parent_congr hlinks
  have hids := ids_of_links hlinks
  exact ⟨hparent ▸ hids ▸ h.closed, hparent ▸ h.acyclic⟩

theorem Rooted.walk (hids : (groups.map (·.id)).Nodup) {id} (h : Rooted groups id) :
    ∃ n, Walk groups n (some id) := by
  induction h with
  | @root g hg hroot =>
    refine ⟨1, fun g' hg' hid => ?_⟩
    obtain rfl : g' = g := List.inj_on_of_nodup_map hids hg' hg hid
    rw [hroot]
    exact walk_none 0
  | @up g p hg hparent _ ih =>
    obtain ⟨n, hn⟩ := ih
    refine ⟨n + 1, fun g' hg' hid => ?_⟩
    obtain rfl : g' = g := List.inj_on_of_nodup_map hids hg' hg hid
    rw [hparent]
    exact hn

/-- A walk meets each group at most once. -/
theorem Walk.short (hids : (groups.map (·.id)).Nodup) : ∀ {n : ℕ} {o : Option UInt32},
    Walk groups n o → ∃ met : List ResourceGroup, met ⊆ groups ∧ met.Nodup ∧
      (∀ g ∈ met, Above groups o g.id) ∧ Walk groups (met.length + 1) o
  | _, none, _ => ⟨[], List.nil_subset _, List.nodup_nil, by simp, walk_none _⟩
  | 0, some _, h => h.elim
  | n + 1, some id, h => by
    by_cases hfound : ∃ g ∈ groups, g.id = id
    · obtain ⟨g, hg, rfl⟩ := hfound
      obtain ⟨met, hsub, hnodup, habove, hwalk⟩ := Walk.short hids (h g hg rfl)
      -- the walk above the group does not come back to it
      have hnew : g ∉ met := by
        intro hmem
        obtain ⟨p, hp, hback⟩ := habove g hmem
        exact Walk.not_cyclic ⟨g, hg, rfl, hp⟩ hback (n + 1) h
      refine ⟨g :: met, List.cons_subset.mpr ⟨hg, hsub⟩, List.nodup_cons.mpr ⟨hnew, hnodup⟩,
        fun x hx => ?_, fun g' hg' hid => ?_⟩
      · refine (above_iff hids hg x.id).mpr ?_
        rcases List.mem_cons.mp hx with rfl | hx
        · exact .inl rfl
        · exact .inr (habove x hx)
      · obtain rfl : g' = g := List.inj_on_of_nodup_map hids hg' hg hid
        exact hwalk
    · refine ⟨[], List.nil_subset _, List.nodup_nil, by simp, fun g hg hid => ?_⟩
      exact absurd ⟨g, hg, hid⟩ hfound

variable {o : Option UInt32}

theorem Walk.mono {m n} (h : Walk groups m o) (hmn : m ≤ n) : Walk groups n o := by
  induction hmn with
  | refl => exact h
  | step _ ih => exact ih.succ

/-- A walk that ends does so after one round for each group. -/
theorem Walk.bound (hids : (groups.map (·.id)).Nodup) {n} (h : Walk groups n o) :
    Walk groups (groups.length + 1) o := by
  obtain ⟨met, hsub, hnodup, -, hwalk⟩ := h.short hids
  exact hwalk.mono (Nat.succ_le_succ (hnodup.subperm hsub).length_le)

theorem Forest.walk (h : Forest groups) (hids : (groups.map (·.id)).Nodup) (id) :
    Walk groups (groups.length + 1) (some id) := by
  by_cases hfound : ∃ g ∈ groups, g.id = id
  · obtain ⟨g, hg, rfl⟩ := hfound
    obtain ⟨n, hn⟩ := (h.rooted hg).walk hids
    exact hn.bound hids
  · exact fun g hg hid => absurd ⟨g, hg, hid⟩ hfound

/-! ### Walks that end -/

theorem hasQuotaFrom_isSome : ∀ {n : ℕ} {o : Option UInt32}, Walk groups n o →
    (hasQuotaFrom groups n o).isSome
  | 0, none, _ => rfl
  | _ + 1, none, _ => rfl
  | 0, some _, h => h.elim
  | n + 1, some id, h => by
    rw [hasQuotaFrom]
    split
    · rfl
    · rename_i g hg
      simp only
      split
      · rfl
      · exact hasQuotaFrom_isSome
          (h g (List.mem_of_find?_eq_some hg) (beq_iff_eq.mp (List.find?_some hg :)))

theorem allowsRealtimeFrom_isSome : ∀ {n : ℕ} {o : Option UInt32}, Walk groups n o →
    (allowsRealtimeFrom groups n o).isSome
  | 0, none, _ => rfl
  | _ + 1, none, _ => rfl
  | 0, some _, h => h.elim
  | n + 1, some id, h => by
    rw [allowsRealtimeFrom]
    split
    · rfl
    · rename_i g hg
      split
      · exact allowsRealtimeFrom_isSome
          (h g (List.mem_of_find?_eq_some hg) (beq_iff_eq.mp (List.find?_some hg :)))
      · rfl

theorem tickFrom_isSome (nowNs fair elapsedNs) :
    ∀ {n : ℕ} {o : Option UInt32} {groups : List ResourceGroup}, Walk groups n o →
      (tickFrom nowNs fair elapsedNs n o groups).isSome
  | 0, none, _, _ => rfl
  | _ + 1, none, _, _ => rfl
  | 0, some _, _, h => h.elim
  | n + 1, some id, groups, h => by
    rw [tickFrom]
    split
    · rfl
    · rename_i g hg
      have hlinks : links groups =
          links (updateFirst (·.id == id) (chargeGroup nowNs fair elapsedNs) groups) :=
        (map_updateFirst (f := chargeGroup nowNs fair elapsedNs) _ (fun _ => rfl) _).symm
      refine tickFrom_isSome nowNs fair elapsedNs (walk_congr hlinks n _ ?_)
      exact h g (List.mem_of_find?_eq_some hg) (beq_iff_eq.mp (List.find?_some hg :))

end Rooted

/-! ### Operations that leave the tree -/

section Frames

variable {ε : Type}

/-- The tree of the groups is left. -/
def SameTree (s t : Scheduler) : Prop := links t.groups = links s.groups

variable (cpu id : ℕ) (nowNs : UInt64) (targetId : Option ℕ)

instance : Std.Refl SameTree := ⟨fun _ => rfl⟩

instance : IsTrans Scheduler SameTree := ⟨fun _ _ _ h₁ h₂ => h₂.trans h₁⟩

theorem sameTree_of_undisturbed {α : Type} {x : Prog Scheduler ε α} (h : Moves Undisturbed x) :
    Moves SameTree x :=
  h.mono fun _ _ hst => links_of_accounts hst.groups

instance : Moves SameTree (scheduleNextOnCpu cpu) := sameTree_of_undisturbed inferInstance

instance : Moves SameTree (fillIdleCpu cpu) := sameTree_of_undisturbed inferInstance

instance : Moves SameTree (modify rebuildRunnableIndexes : Prog Scheduler ε Unit) :=
  sameTree_of_undisturbed inferInstance

theorem sameTree_modify {f : Scheduler → Scheduler} (h : ∀ s, (f s).groups = s.groups) :
    Moves SameTree (modify f : Prog Scheduler ε Unit) :=
  .modify fun s => congrArg links (h s)

instance (f : SchedulerTask → SchedulerTask) :
    Moves SameTree (modify (modifyTask id f) : Prog Scheduler ε Unit) :=
  sameTree_modify fun _ => rfl

instance (next) : Moves SameTree (modify (setCurrent cpu next) : Prog Scheduler ε Unit) :=
  sameTree_modify fun _ => rfl

instance (p : ℕ → Bool) : Moves SameTree (modify (vacate p) : Prog Scheduler ε Unit) :=
  sameTree_modify fun _ => rfl

instance : Moves SameTree (modify (accountRuntime nowNs) : Prog Scheduler ε Unit) :=
  sameTree_modify (groups_accountRuntime nowNs)

instance (thread) :
    Moves SameTree (modify (accountExecuting cpu thread nowNs) : Prog Scheduler ε Unit) := by
  refine sameTree_modify fun s => ?_
  unfold accountExecuting
  split
  · rfl
  · exact groups_accountRuntime nowNs _

instance : Weighs SameTree where
  le h := map_of_map_eq h fun p => (p.1, p.2.1)

instance : Moves SameTree (wakeTask id) := by
  unfold wakeTask
  infer_instance

set_option synthInstance.maxSize 100000 in
instance (reason) : Moves SameTree (blockCurrentOnCpu cpu reason) := by
  unfold blockCurrentOnCpu
  infer_instance

instance (exitCode) : Moves SameTree (exitTask id exitCode) := by
  unfold exitTask
  infer_instance

set_option synthInstance.maxSize 100000 in
instance (exitCode) : Moves SameTree (exitCurrentOnCpu cpu exitCode) := by
  unfold exitCurrentOnCpu
  infer_instance

set_option synthInstance.maxSize 100000 in
instance : Moves SameTree (suspendTask id) := by
  unfold suspendTask
  infer_instance

instance : Moves SameTree cleanupExited := by
  have hremove : Moves SameTree (modify removeExited : SchedM Unit) :=
    sameTree_modify fun _ => rfl
  unfold cleanupExited
  infer_instance

set_option synthInstance.maxSize 100000 in
instance (profile) : Moves SameTree (setProfile id profile) := by
  unfold setProfile setFairProfile setDeadlineProfile
  split <;> infer_instance

instance (ownerId priority) : Moves SameTree (donatePriority ownerId priority) := by
  unfold donatePriority
  infer_instance

instance : Moves SameTree (restoreBasePriority id) := by
  unfold restoreBasePriority
  infer_instance

set_option synthInstance.maxSize 100000 in
instance (affinityMask) : Moves SameTree (setCpuAffinity id affinityMask) := by
  unfold setCpuAffinity
  infer_instance

instance (held fromStates processId) : Moves SameTree (holdProcess held fromStates processId) := by
  unfold holdProcess
  exact .andThen (sameTree_modify fun _ => rfl) fun _ =>
    .andThen (sameTree_modify fun _ => rfl) inferInstance

instance (held processId) : Moves SameTree (releaseProcess held processId) := by
  unfold releaseProcess
  exact .andThen (sameTree_modify fun _ => rfl) inferInstance

instance : Moves SameTree (tickAtOnCpu cpu nowNs) := by
  have hclock : Moves SameTree (modify fun s =>
      { s with nowNs := nowNs, totalTicks := s.totalTicks.satAdd 1 } : SchedM Unit) :=
    sameTree_modify fun _ => rfl
  unfold tickAtOnCpu
  refine .next fun _ => .next fun s => .next fun _ => .next fun _ => .andThen hclock fun _ =>
    .next fun _ => .next fun t => ?_
  dsimp only
  split <;> infer_instance

instance (yielded) : Moves SameTree (yieldNext cpu yielded targetId) := by
  have hset : ∀ state : TaskState, Moves SameTree (modify fun s : Scheduler =>
      match yielded with
      | none => s
      | some id => s.modifyTask id fun t => { t with state := state } : SchedM Unit) :=
    fun state => sameTree_modify fun s => by cases yielded <;> rfl
  unfold yieldNext yieldTo yieldToAny
  split
  · infer_instance
  · exact .andThen (hset .suspended) fun _ => .next fun _ => .andThen (hset .ready) inferInstance

instance : Moves SameTree (yieldCurrentToOnCpu cpu targetId) := by
  unfold yieldCurrentToOnCpu
  refine .next fun _ => .next fun _ => .next fun s => .andThen (sameTree_modify fun t => ?_)
    inferInstance
  split <;> rfl

set_option synthInstance.maxSize 100000 in
instance : Moves SameTree (yieldCurrentToAtOnCpu cpu targetId nowNs) := by
  have hclock : Moves SameTree (modify fun s => { s with nowNs := nowNs } : SchedM Unit) :=
    sameTree_modify fun _ => rfl
  unfold yieldCurrentToAtOnCpu
  infer_instance

end Frames

/-! ### Operations that grow the tree -/

section Growth

variable {groups groups' : List ResourceGroup} {id p : UInt32}

/-- More groups, but no link that was not there. -/
theorem Forest.widen (h : Forest groups) (hlinks : ∀ a b, Parent groups' a b → Parent groups a b)
    (hids : ∀ i ∈ groups.map (·.id), i ∈ groups'.map (·.id)) : Forest groups' :=
  ⟨fun a b hab => hids b (h.closed a b (hlinks a b hab)), fun a hcycle =>
    h.acyclic a (Relation.TransGen.mono hlinks _ _ hcycle)⟩

/-- One more link, to a group that is no descendant. -/
theorem Forest.attach (h : Forest groups) (hp : p ∈ groups.map (·.id))
    (hback : ¬ Relation.ReflTransGen (Parent groups) p id)
    (hlinks : ∀ a b, Parent groups' a b → Parent groups a b ∨ a = id ∧ b = p)
    (hids : ∀ i ∈ groups.map (·.id), i ∈ groups'.map (·.id)) : Forest groups' := by
  refine ⟨fun a b hab => hids b ?_, acyclic_insert hlinks h.acyclic hback⟩
  rcases hlinks a b hab with hold | ⟨-, rfl⟩
  · exact h.closed a b hold
  · exact hp

theorem Forest.not_above_of_new (h : Forest groups) (hne : p ≠ id)
    (hnew : id ∉ groups.map (·.id)) : ¬ Relation.ReflTransGen (Parent groups) p id := by
  intro hpath
  rcases hpath.cases_tail with heq | ⟨a, -, hlast⟩
  · exact hne heq.symm
  · exact hnew (h.closed a id hlast)

/-- The groups from `id` up, as far as `n` steps lead. -/
def chainFrom (groups : List ResourceGroup) : ℕ → Option UInt32 → List ResourceGroup
  | _, none => []
  | 0, some _ => []
  | n + 1, some id =>
    match groups.find? (·.id == id) with
    | none => []
    | some g => g :: chainFrom groups n g.parentId

/-- A group and its ancestors. -/
def chain (s : Scheduler) (id : UInt32) : List ResourceGroup :=
  chainFrom s.groups (s.groups.length + 1) (some id)

/-- The ancestors of a group are on its chain. -/
theorem mem_chainFrom (hids : (groups.map (·.id)).Nodup) (hid : id ∈ groups.map (·.id)) :
    ∀ {n : ℕ} {a : UInt32}, Walk groups n (some a) →
      Relation.ReflTransGen (Parent groups) a id → ∃ g ∈ chainFrom groups n (some a), g.id = id
  | 0, _, hwalk, _ => hwalk.elim
  | n + 1, a, hwalk, hpath => by
    have hfound : ∃ g ∈ groups, g.id = a := by
      rcases hpath.cases_head with rfl | ⟨_, ⟨g, hg, hga, -⟩, -⟩
      · exact List.mem_map.mp hid
      · exact ⟨g, hg, hga⟩
    obtain ⟨g, hg, rfl⟩ := hfound
    rw [chainFrom, find?_of_mem hids hg]
    rcases hpath.cases_head with rfl | ⟨b, ⟨g', hg', hsame, hparent⟩, hrest⟩
    · exact ⟨g, List.mem_cons_self, rfl⟩
    · obtain rfl : g' = g := List.inj_on_of_nodup_map hids hg' hg hsame
      have hwalk := hwalk g' hg rfl
      rw [hparent] at hwalk
      obtain ⟨x, hx, hxid⟩ := mem_chainFrom hids hid hwalk hrest
      rw [← hparent] at hx
      exact ⟨x, List.mem_cons_of_mem _ hx, hxid⟩

end Growth

/-- The new parent of a group is none of its descendants. -/
def Ascends (s : Scheduler) (op : SchedOp) : Prop :=
  ∀ link ∈ op.attaches, ∀ g ∈ s.chain link.2, g.id ≠ link.1

instance (s : Scheduler) (op : SchedOp) : Decidable (s.Ascends op) :=
  decidable_of_iff (op.attaches.all fun link => (s.chain link.2).all fun g => g.id != link.1)
    (by simp only [Ascends, Option.all_eq_true, List.all_eq_true, bne_iff_ne, Option.mem_def])

/-- The groups have their own identifiers and form a forest. -/
structure Planted (s : Scheduler) : Prop where
  distinct : (s.groups.map (·.id)).Nodup
  forest : Forest s.groups

section Growth

variable {s : Scheduler} {id : UInt32} {parentId : Option UInt32} {g : ResourceGroup}

theorem parent_concat {a b} (h : Parent (s.groups ++ [g]) a b) :
    Parent s.groups a b ∨ a = g.id ∧ g.parentId = some b := by
  obtain ⟨x, hx, hxa, hxb⟩ := h
  rcases List.mem_append.mp hx with hx | hx
  · exact .inl ⟨x, hx, hxa, hxb⟩
  · rw [List.mem_singleton] at hx
    exact .inr ⟨hx ▸ hxa.symm, hx ▸ hxb⟩

/-- A new group. -/
theorem Forest.append (h : Forest s.groups) (hnew : g.id ∉ s.groups.map (·.id))
    (hself : g.parentId ≠ some g.id)
    (hparent : ∀ p, g.parentId = some p → p ∈ s.groups.map (·.id)) :
    Forest (s.groups ++ [g]) := by
  have hids : ∀ i ∈ s.groups.map (·.id), i ∈ (s.groups ++ [g]).map (·.id) := by
    intro i hi
    rw [List.map_append]
    exact List.mem_append_left _ hi
  cases hp : g.parentId with
  | none =>
    refine h.widen (fun a b hab => ?_) hids
    rcases parent_concat hab with hold | ⟨-, hb⟩
    · exact hold
    · rw [hp] at hb
      cases hb
  | some p =>
    have hne : p ≠ g.id := fun heq => hself (by rw [hp, heq])
    refine h.attach (hparent p hp) (h.not_above_of_new hne hnew) (fun a b hab => ?_) hids
    refine (parent_concat hab).imp_right fun hlast => ⟨hlast.1, ?_⟩
    rw [hp, Option.some_inj] at hlast
    exact hlast.2.symm

/-- A group without parent gets one. -/
theorem Forest.update (h : Forest s.groups) (hids : (s.groups.map (·.id)).Nodup) {p}
    {f : ResourceGroup → ResourceGroup} (hf : ∀ g, (f g).id = g.id ∧ (f g).parentId = some p)
    (hp : p ∈ s.groups.map (·.id)) (hback : ¬ Relation.ReflTransGen (Parent s.groups) p id) :
    Forest (updateFirst (·.id == id) f s.groups) := by
  refine h.attach hp hback (fun a b hab => ?_) fun i hi => ?_
  · obtain ⟨g, hg, hga, hgb⟩ := hab
    rw [updateFirst_eq_map (k := fun g : ResourceGroup => g.id) id hids] at hg
    obtain ⟨x, hx, rfl⟩ := List.mem_map.mp hg
    split at hga
    · rename_i hid
      rw [if_pos hid, (hf x).2, Option.some_inj] at hgb
      exact .inr ⟨hga.symm.trans ((hf x).1.trans hid), hgb.symm⟩
    · rename_i hid
      rw [if_neg hid] at hgb
      exact .inl ⟨x, hx, hga, hgb⟩
  · rw [map_updateFirst (f := f) (g := fun g : ResourceGroup => g.id) _ fun g => (hf g).1]
    exact hi

theorem Planted.congr {t} (hs : s.Planted) (h : SameTree s t) : t.Planted :=
  ⟨ids_of_links h ▸ hs.distinct, hs.forest.congr h⟩

/-- A change of limits that leaves the parent. -/
theorem sameTree_of_resourceGroup {group} (hgroup : s.resourceGroup id = some group)
    (f : ResourceGroup → ResourceGroup) (hid : ∀ g, (f g).id = g.id)
    (hparent : (f group).parentId = group.parentId) :
    links (updateFirst (·.id == id) f s.groups) = links s.groups := by
  have hsame : updateFirst (·.id == id) f s.groups =
      updateFirst (·.id == id) (fun g => { f g with parentId := g.parentId }) s.groups :=
    updateFirst_congr hgroup (by rw [← hparent])
  rw [hsame]
  exact map_updateFirst (f := fun g : ResourceGroup => { f g with parentId := g.parentId })
    (g := fun g => (g.id, g.parentId)) _ (fun g => by rw [hid]) _

theorem Planted.ensure (hs : s.Planted) (cpuShares permille allowRealtime) (hascends : s.Ascends
      (.ensureResourceGroupWithLimits id parentId cpuShares permille allowRealtime)) :
    ends (ensureResourceGroupWithLimits id parentId cpuShares permille allowRealtime) Planted s := by
  simp only [ensureResourceGroupWithLimits, wp_bind, wp_get, wp_check]
  refine ⟨fun _ => ⟨fun hparent => ?_, fun _ => hs⟩, fun _ => hs⟩
  rw [not_or] at hparent
  have hexists : ∀ p, parentId = some p → p ∈ s.groups.map (·.id) := by
    intro p hp
    by_contra hnone
    refine hparent.2 ⟨p, hp, Option.isNone_iff_eq_none.mpr (List.find?_eq_none.mpr ?_)⟩
    exact fun g hg hid => hnone (List.mem_map.mpr ⟨g, hg, beq_iff_eq.mp hid⟩)
  split
  · rename_i group hgroup
    rw [wp_bind, wp_check]
    refine ⟨fun hallowed => (wp_modify _).mpr ?_, fun _ => hs⟩
    by_cases hsame : group.parentId = parentId
    · exact hs.congr (sameTree_of_resourceGroup hgroup _ (fun _ => rfl) hsame.symm)
    · have hroot : group.parentId = none := by
        by_contra hsome
        exact hallowed ⟨hsame, Option.isSome_iff_ne_none.mpr hsome⟩
      cases parentId with
      | none => exact absurd hroot hsame
      | some p =>
        have hmem := mem_ids_of_resourceGroup hgroup
        constructor
        · show ((updateFirst _ _ s.groups).map (·.id)).Nodup
          rw [map_updateFirst (f := fun g : ResourceGroup => { g with
            parentId := some p, cpuShares, maxUtilizationPermille := permille, allowRealtime })]
          · exact hs.distinct
          · exact fun _ => rfl
        · refine hs.forest.update hs.distinct (fun _ => ⟨rfl, rfl⟩) (hexists p rfl) fun hback => ?_
          obtain ⟨g, hg, hgid⟩ :=
            mem_chainFrom hs.distinct hmem (hs.forest.walk hs.distinct p) hback
          exact hascends (id, p) rfl g hg hgid
  · rename_i hnew
    rw [wp_modify]
    have hfree := not_mem_ids_of_resourceGroup hnew
    exact ⟨nodup_map_concat hs.distinct hfree, hs.forest.append hfree hparent.1 hexists⟩

theorem planted_of_sameTree {α : Type} {x : SchedM α} (hx : Moves SameTree x) :
    Moves (Keeps Planted) x :=
  hx.mono fun _ _ h hs => hs.congr h

/-- A group without parent never closes a cycle. -/
instance (id) : Moves (Keeps Planted) (ensureResourceGroup id) := by
  refine .of_keeps fun s hs => ?_
  simp only [ensureResourceGroup, wp_bind, wp_get, wp_ite, wp_pure]
  exact ⟨fun _ => hs, fun _ => hs.ensure _ _ _ fun _ hlink => by cases hlink⟩

instance (task) : Moves (Keeps Planted) (addTask task) := by
  have hcpus : Moves SameTree (modify fun s : Scheduler =>
      if s.currentTaskIds = [] then { s with currentTaskIds := [none] } else s : SchedM Unit) :=
    sameTree_modify fun s => by split <;> rfl
  unfold addTask
  refine .next fun _ => .next fun _ => .andThen (planted_of_sameTree hcpus) fun _ => .next fun s
    => .next fun _ => .next fun _ => planted_of_sameTree ?_
  exact .next fun _ => .next fun _ => .next fun _ => .andThen (sameTree_modify fun _ => rfl)
    inferInstance

/-- Every operation keeps the groups a forest, if a new parent is no descendant. -/
theorem wp_exec_planted (op) (hs : s.Planted) (hop : s.Ascends op) : ends (exec op) Planted s := by
  have hsame : ∀ {x : SchedM Unit}, Moves SameTree x → ends x Planted s :=
    fun hx => (planted_of_sameTree hx).keep hs
  cases op with
  | ensureResourceGroup id =>
    exact Moves.keep (inferInstanceAs (Moves (Keeps Planted) (ensureResourceGroup id))) hs
  | ensureResourceGroupWithShares id cpuShares =>
    exact hs.ensure _ _ _ fun _ hlink => by cases hlink
  | ensureResourceGroupWithLimits id parentId cpuShares permille allowRealtime =>
    exact hs.ensure _ _ _ hop
  | addTask id processId resourceGroupId priority name cpuAffinityMask =>
    have hadd : Moves (Keeps Planted)
        (exec (.addTask id processId resourceGroupId priority name cpuAffinityMask)) := by
      unfold exec
      infer_instance
    exact hadd.keep hs
  | quiesceProcess processId | stopProcess processId =>
    exact hsame (inferInstanceAs (Moves SameTree (holdProcess _ _ processId)))
  | resumeQuiescedProcess processId | resumeStoppedProcess processId =>
    exact hsame (inferInstanceAs (Moves SameTree (releaseProcess _ processId)))
  | _ =>
    refine hsame ?_
    unfold exec
    infer_instance

end Growth

/-! ### Schedulers that were read -/

/-- A new scheduler, or one read from an input in which the groups form a forest. -/
inductive Starts : Scheduler → Prop
  | empty : Starts empty
  | withCpuCount {maxCpus : ℕ} {s : Scheduler} (h : withCpuCount maxCpus = .ok s) : Starts s
  | read {input rest rest₁ rest₂ : Bytes} {s : Scheduler} {front : Front}
      {groups : List ResourceGroup} (h : readSnapshot input = .ok s rest)
      (hfront : readFront input = .ok front rest₁)
      (hgroups : readGroupTable rest₁ = .ok groups rest₂) (hforest : Forest groups) : Starts s

variable {s : Scheduler}

theorem planted_of_nil (h : s.groups = []) : s.Planted := by
  have hnone : ∀ a b, ¬ Parent s.groups a b := by
    rintro a b ⟨g, hg, -⟩
    rw [h] at hg
    cases hg
  refine ⟨by rw [h]; exact List.nodup_nil, fun a b hab => absurd hab (hnone a b), fun a hcycle => ?_⟩
  obtain ⟨b, hab, -⟩ := Relation.TransGen.head'_iff.mp hcycle
  exact hnone a b hab

theorem Starts.planted (h : Starts s) : s.Planted := by
  cases h with
  | empty => exact planted_of_nil rfl
  | withCpuCount h => exact planted_of_nil (tasks_of_withCpuCount h).2.1
  | read h hfront hgroups hforest =>
    obtain ⟨front', rest', rest'', hfront', hgroups', -, -⟩ := of_readSnapshot h
    rw [hfront, Outcome.ok.injEq] at hfront'
    obtain ⟨-, rfl⟩ := hfront'
    rw [hgroups, Outcome.ok.injEq] at hgroups'
    obtain ⟨rfl, -⟩ := hgroups'
    exact ⟨nodup_of_readGroupTable hgroups, hforest⟩

/-- **Every walk up the groups ends** in a scheduler that was new, or was read from a snapshot
whose groups form a forest, if no operation of the run gives a group one of its descendants as
parent. -/
theorem walks_end {s₀ s : Scheduler} (hstart : Starts s₀) (hrun : Steps step Ascends s₀ s) :
    (∀ g ∈ s.groups, Rooted s.groups g.id) ∧ ∀ id, (s.groupHasQuota id).isSome ∧
      (s.groupAllowsRealtime id).isSome ∧ ∀ nowNs fair elapsedNs,
        (tickFrom nowNs fair elapsedNs (s.groups.length + 1) (some id) s.groups).isSome := by
  have hs : s.Planted := hrun.invariant
    (fun t op u ht hop hu => of_state (wp_exec_planted op ht hop) hu) hstart.planted
  refine ⟨fun g hg => hs.forest.rooted hg, fun id => ?_⟩
  have hwalk := hs.forest.walk hs.distinct id
  exact ⟨hasQuotaFrom_isSome hwalk, allowsRealtimeFrom_isSome hwalk,
    fun nowNs fair elapsedNs => tickFrom_isSome nowNs fair elapsedNs hwalk⟩

/-- A group and its child, made one after the other. -/
def parentAndChild : List SchedOp :=
  [.ensureResourceGroup 1, .ensureResourceGroupWithLimits 2 (some 1) 1024 500 true]

/-- The walks of a parent and its child end. -/
theorem walks_end_child : ∃ s₀ s : Scheduler, Starts s₀ ∧ Steps step Ascends s₀ s ∧
    s.groups.map (·.id) = [1, 2] ∧ (s.groupHasQuota 2).isSome := by
  have hrun : (runFrom 1 (fun s op => decide (s.Ascends op)) parentAndChild).any
      (fun s => s.groups.map (·.id) == [1, 2]) = true := by decide +kernel
  obtain ⟨s, hs, hids⟩ := (Option.any_eq_true _ _).mp hrun
  obtain ⟨s₀, hnew, hs⟩ := Option.bind_eq_some_iff.mp hs
  have hstart : Starts s₀ := .withCpuCount (ok_of_toOption hnew)
  have hsteps : Steps step Ascends s₀ s :=
    (steps_of_runAll _ hs).mono fun _ _ hc => of_decide_eq_true hc
  exact ⟨s₀, s, hstart, hsteps, beq_iff_eq.mp hids, ((walks_end hstart hsteps).2 2).1⟩

/-- A group becomes the child of its own child. No walk from it ends, and a kernel that takes
the scheduler over reads the cycle back. -/
theorem parents_close : ∃ (s t : Scheduler) (rest : Bytes),
    Reaches (fun _ _ => True) s ∧ ¬ Rooted s.groups 1 ∧ s.groupHasQuota 1 = none ∧
      s.groupAllowsRealtime 1 = none ∧
      (∀ nowNs fair elapsedNs,
        tickFrom nowNs fair elapsedNs (s.groups.length + 1) (some 1) s.groups = none) ∧
      readSnapshot (writeSnapshot s) = .ok t rest ∧ t.groupHasQuota 1 = none := by
  have hrun : (runFrom 1 (fun _ _ => true)
      (parentAndChild ++ [.ensureResourceGroupWithLimits 1 (some 2) 1024 0 true])).any
      (fun s => decide ((s.groups.map (·.id)).Nodup ∧ s.groupHasQuota 1 = none ∧
        s.groupAllowsRealtime 1 = none ∧
        ∃ r ∈ (readSnapshot (writeSnapshot s)).returned?, r.1.groupHasQuota 1 = none)) = true := by
    decide +kernel
  obtain ⟨s, hs, hfacts⟩ := (Option.any_eq_true _ _).mp hrun
  obtain ⟨hids, hquota, hrealtime, ⟨t, rest⟩, hread, ht⟩ := of_decide_eq_true hfacts
  have hnone : ¬ Walk s.groups (s.groups.length + 1) (some 1) := by
    intro hwalk
    have hsome := hasQuotaFrom_isSome hwalk
    rw [groupHasQuota] at hquota
    rw [hquota] at hsome
    cases hsome
  refine ⟨s, t, rest, reaches_of_runFrom hs fun _ _ _ => trivial, fun hrooted => ?_, hquota,
    hrealtime, fun nowNs fair elapsedNs => ?_, Outcome.eq_ok_of_returned? hread, ht⟩
  · obtain ⟨n, hn⟩ := hrooted.walk hids
    exact hnone (hn.bound hids)
  · refine Option.eq_none_iff_forall_ne_some.mpr fun groups' hgroups' => ?_
    exact hnone (account_tickFrom _ _ _ _ hids hgroups').2

end Scheduler

end Bexos
