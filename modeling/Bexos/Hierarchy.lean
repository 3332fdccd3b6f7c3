/-
Hierarchies: nodes below a root.

`E p i` says that the node `p` has an edge to the node `i`.  `Depth E root i k` says that
some path of `k` edges leads from the root to `i`.

* `Hierarchy` — nothing leads to the root, only inner nodes have edges, and an inner node has
  one parent;
* `Hierarchy.depth_unique` — an inner node has one depth;
* `Hierarchy.exists_path` — the nodes of a path are distinct, so that a node of a finite
  hierarchy is not deeper than there are nodes;
* `Depth.mono_on`, `Depth.of_shallow`, `Depth.moved` — what becomes of depths when edges are removed, and when the
  edge to an inner node is replaced by one from elsewhere.
-/
import Mathlib.Data.List.Perm.Subperm
import Mathlib.Tactic.Common

namespace Bexos

variable {ι : Type} {E E' : ι → ι → Prop} {root : ι}

/-- A path of `k` edges leads from the root to a node. -/
inductive Depth (E : ι → ι → Prop) (root : ι) : ι → ℕ → Prop
  | root : Depth E root root 0
  | step {p i : ι} {k : ℕ} : E p i → Depth E root p k → Depth E root i (k + 1)

/-- Edges that lead downwards from a root, to inner nodes along one edge each. -/
structure Hierarchy (E : ι → ι → Prop) (root : ι) (inner : ι → Prop) : Prop where
  top : ∀ p, ¬ E p root
  inner_of_edge : ∀ p i, E p i → inner p
  unique : ∀ i, inner i → ∀ p q, E p i → E q i → p = q

namespace Depth

variable {i : ι} {k : ℕ}

/-- Paths to the nodes with a property are kept, if their edges are and their nodes all have
the property. -/
theorem mono_on {P : ι → Prop} (h : ∀ p i, E p i → P i → E' p i ∧ P p) (hi : Depth E root i k)
    (hP : P i) : Depth E' root i k := by
  induction hi with
  | root => exact .root
  | step hedge _ ih =>
    obtain ⟨hedge', hp⟩ := h _ _ hedge hP
    exact .step hedge' (ih hp)

theorem mono (h : ∀ p i, E p i → E' p i) (hi : Depth E root i k) : Depth E' root i k :=
  hi.mono_on (P := fun _ => True) (fun p i hedge _ => ⟨h p i hedge, trivial⟩) trivial

/-- A path of `k` edges is kept if all edges from nodes less deep than `k` are. -/
theorem of_shallow (h : ∀ p j x, Depth E root p j → j < k → E p x → E' p x)
    (hi : Depth E root i k) :
    Depth E' root i k := by
  induction hi with
  | root => exact .root
  | step hedge hp ih =>
    refine .step (h _ _ _ hp (Nat.lt_succ_self _) hedge) (ih fun p j x hj hlt hx => ?_)
    exact h p j x hj (Nat.lt_succ_of_lt hlt) hx

/-- The edge to `d` is replaced by an edge from `t`, to which a path leads that avoids `d`. -/
theorem moved {d t j} (hkept : ∀ p i, E p i → i ≠ d → E' p i) (hnew : E' t d)
    (ht : Depth (fun p i => E p i ∧ i ≠ d) root t j) (hi : Depth E root i k) :
    ∃ k', Depth E' root i k' := by
  have htarget : Depth E' root t j := ht.mono fun p i hedge => hkept p i hedge.1 hedge.2
  induction hi with
  | root => exact ⟨0, .root⟩
  | @step p i k hedge _ ih =>
    by_cases hid : i = d
    · subst hid
      exact ⟨j + 1, .step hnew htarget⟩
    · obtain ⟨k', hk'⟩ := ih
      exact ⟨k' + 1, .step (hkept p i hedge hid) hk'⟩

end Depth

namespace Hierarchy

variable {inner : ι → Prop} {i : ι} {k : ℕ}

/-- An inner node has one depth. -/
theorem depth_unique (h : Hierarchy E root inner) {j} (hj : Depth E root i j)
    (hk : Depth E root i k) (hi : inner i) : j = k := by
  induction hj generalizing k with
  | root =>
    cases hk with
    | root => rfl
    | step hedge _ => exact absurd hedge (h.top _)
  | @step p i j hedge _ ih =>
    cases hk with
    | root => exact absurd hedge (h.top _)
    | @step q _ k hedge' hq =>
      obtain rfl := h.unique i hi p q hedge hedge'
      rw [ih hq (h.inner_of_edge p i hedge)]

/-- The nodes of a path from the root are distinct. -/
theorem exists_path (h : Hierarchy E root inner) (hi : Depth E root i k) :
    ∃ path : List ι, path.length = k + 1 ∧ path.Nodup ∧
      ∀ x ∈ path, x = root ∨ ∃ p, E p x := by
  -- the nodes above the last one are inner nodes, each at its own depth
  have hpath : ∃ path : List ι, path.length = k ∧ path.Nodup ∧
      ∀ x ∈ path, inner x ∧ (∃ j < k, Depth E root x j) ∧ (x = root ∨ ∃ p, E p x) := by
    induction hi with
    | root => exact ⟨[], rfl, List.nodup_nil, by simp⟩
    | @step p i k hedge hp ih =>
      obtain ⟨path, hlength, hnodup, hnodes⟩ := ih
      have hinner := h.inner_of_edge p i hedge
      refine ⟨p :: path, by simp [hlength], List.nodup_cons.mpr ⟨fun hmem => ?_, hnodup⟩,
        fun x hx => ?_⟩
      · obtain ⟨-, ⟨j, hj, hdepth⟩, -⟩ := hnodes p hmem
        exact Nat.ne_of_lt hj (h.depth_unique hdepth hp hinner)
      · rcases List.mem_cons.mp hx with rfl | hx
        · refine ⟨hinner, ⟨k, Nat.lt_succ_self k, hp⟩, ?_⟩
          cases hp with
          | root => exact .inl rfl
          | step hedge _ => exact .inr ⟨_, hedge⟩
        · obtain ⟨hx, ⟨j, hj, hdepth⟩, hpresent⟩ := hnodes x hx
          exact ⟨hx, ⟨j, Nat.lt_succ_of_lt hj, hdepth⟩, hpresent⟩
  obtain ⟨path, hlength, hnodup, hnodes⟩ := hpath
  refine ⟨i :: path, by simp [hlength], List.nodup_cons.mpr ⟨fun hmem => ?_, hnodup⟩,
    fun x hx => ?_⟩
  · obtain ⟨hinner, ⟨j, hj, hdepth⟩, -⟩ := hnodes i hmem
    exact Nat.ne_of_lt hj (h.depth_unique hdepth hi hinner)
  · rcases List.mem_cons.mp hx with rfl | hx
    · cases hi with
      | root => exact .inl rfl
      | step hedge _ => exact .inr ⟨_, hedge⟩
    · exact (hnodes x hx).2.2

/-- A node of a finite hierarchy is less deep than there are nodes. -/
theorem depth_lt (h : Hierarchy E root inner) {nodes : List ι} (hroot : root ∈ nodes)
    (hnodes : ∀ p i, E p i → i ∈ nodes) (hi : Depth E root i k) :
    k < nodes.length := by
  obtain ⟨path, hlength, hnodup, hpath⟩ := h.exists_path hi
  have hsub : path ⊆ nodes := fun x hx => by
    rcases hpath x hx with rfl | ⟨p, hedge⟩
    · exact hroot
    · exact hnodes p x hedge
  have hle := (List.subperm_of_subset hnodup hsub).length_le
  omega

end Hierarchy

end Bexos
