/-
What each operation may do to the handle table.

A relation `r` between two contents of one handle slot, reflexive and transitive, gives the
relation `Shifts F r` between states: outside `F` only the handle table changes, and every
slot changes as `r` allows.  What `r` must allow is said by three classes:

* `Reowns r` — a capability changes its owner;
* `Fills r object` — a vacant slot is filled with a capability to `object`;
* `Empties r object` — a capability to `object` is taken out of its slot.

An operation moves by `Shifts F r` as soon as `r` allows what the operation does, so that a
result about one kind of capability chooses `r` and treats by hand only the operations that
make or drop capabilities of that kind.

Design notes: capabilities are dropped in two ways.  `destroy_vmar` and `reply_call` drop
capabilities of one kind; closing a handle, or ending a process, may drop any capability, and
these operations are covered where `r` allows every slot to be emptied.
-/
import Bexos.RuntimeOps

namespace Bexos

open Prog

/-- What a capability is for, whoever owns it. -/
def Capability.grip (c : Capability) : Object × UInt32 := (c.object, c.rights)

namespace Runtime

variable {B : Type}

/-- The capability in a place of the handle table. Places count from zero. -/
def held (s : Runtime B) (k : ℕ) : Option Capability := (s.handles[k]?).join

variable {c : Capability} {s : Runtime B}

theorem slot_eq_some {h} : s.slot h = some c ↔ h ≠ 0 ∧ s.held (h - 1) = some c := by
  unfold slot held
  split <;> simp_all

theorem held_clearSlot (s : Runtime B) (i k : ℕ) :
    (clearSlot i s).held k = if i = k then none else s.held k :=
  join_set_none s.handles i k

theorem held_setOwner (s : Runtime B) (i owner k : ℕ) : (setOwner i owner s).held k =
      if i = k then (s.held k).map fun c => { c with owner := owner } else s.held k := by
  unfold held setOwner
  rw [List.getElem?_modify]
  by_cases hik : i = k
  · subst hik
    cases s.handles[i]? <;> simp
  · simp [hik]

theorem held_putSlot (s : Runtime B) (c : Capability) (k : ℕ) :
    { s with handles := putSlot s.handles (firstFree s.handles) c : Runtime B }.held k =
      if k = firstFree s.handles then some c else s.held k := by
  unfold held
  rw [getElem?_putSlot (firstFree_le _)]
  split <;> simp

theorem held_of_grant {t : Runtime B} (ht : t.handles = putSlot s.handles (firstFree s.handles) c)
    (k : ℕ) :
    t.held k = if k = firstFree s.handles then some c else s.held k := by
  rw [← held_putSlot]
  unfold held
  rw [ht]

theorem held_firstFree (s : Runtime B) : s.held (firstFree s.handles) = none :=
  firstFree_vacant _

/-! ### Moving slot by slot -/

/-- The list of parts does not have the handle table. -/
class HandleFree (F : List Part) : Prop where
  not_mem : Part.handles ∉ F

/-- A way in which the content of a slot may change. -/
abbrev SlotRel := ℕ → Option Capability → Option Capability → Prop

class Reowns (r : SlotRel) : Prop where
  owner : ∀ k c owner, r k (some c) (some { c with owner := owner })

class Fills (r : SlotRel) (object : Object) : Prop where
  fill : ∀ k rights owner, r k none (some ⟨object, rights, owner⟩)

class Empties (r : SlotRel) (object : Object) : Prop where
  empty : ∀ k rights owner, r k (some ⟨object, rights, owner⟩) none

/-- Outside `F` only the handle table changes, and its slots change by `r`. -/
def Shifts (F : List Part) (r : SlotRel) (s t : Runtime B) : Prop :=
  Touches (.handles :: F) s t ∧ ∀ k, r k (s.held k) (t.held k)

variable {F : List Part} {r : SlotRel}

instance [h : ∀ k, Std.Refl (r k)] : Std.Refl (Shifts (B := B) F r) :=
  ⟨fun s => ⟨refl_of (Touches _) s, fun k => (h k).refl _⟩⟩

instance [h : ∀ k, IsTrans _ (r k)] : IsTrans (Runtime B) (Shifts F r) :=
  ⟨fun _ _ _ h₁ h₂ => ⟨trans_of (Touches _) h₁.1 h₂.1, fun k => (h k).trans _ _ _ (h₁.2 k)
    (h₂.2 k)⟩⟩

instance [hF : HandleFree F] [hr : ∀ k, Std.Refl (r k)] : Covers (B := B) (Shifts F r) F where
  le s t ht := by
    have hhandles : t.handles = s.handles := ht .handles hF.not_mem
    refine ⟨ht.weaken fun p hp => List.mem_cons_of_mem _ hp, fun k => ?_⟩
    unfold held
    rw [hhandles]
    exact (hr k).refl _

theorem touches_handles (s : Runtime B) (handles : List (Option Capability)) :
    Touches (.handles :: F) s { s with handles := handles } :=
  touches_one .handles fun q hq => by cases q <;> simp [Same] at *

section Primitives

variable [hr : ∀ k, Std.Refl (r k)]

instance [ho : Reowns r] (i owner) : Moves (Shifts F r) (modify (setOwner i owner) : RtM B Unit) :=
  .modify fun s => ⟨touches_handles s _, fun k => by
    rw [held_setOwner]
    split
    · cases s.held k with
      | none => exact (hr k).refl _
      | some c => exact ho.owner k c owner
    · exact (hr k).refl _⟩

theorem shifts_clearSlot {s : Runtime B} {i : ℕ}
    (h : ∀ c, s.held i = some c → Empties r c.object) : Shifts F r s (clearSlot i s) := by
  refine ⟨touches_handles s _, fun k => ?_⟩
  rw [held_clearSlot]
  split
  · rename_i hik
    subst hik
    cases hc : s.held i with
    | none => exact (hr i).refl _
    | some c => exact (h c hc).empty i c.rights c.owner
  · exact (hr k).refl _

instance [h : ∀ object, Empties r object] (i) :
    Moves (Shifts F r) (modify (clearSlot i) : RtM B Unit) :=
  .modify fun _ => shifts_clearSlot fun c _ => h c.object

variable [∀ k, IsTrans _ (r k)] [Has .dirty F] [HandleFree F]

instance (object rights owner) [hf : Fills r object] :
    Moves (Shifts F r) (fillSlot ⟨object, rights, owner⟩ : RtM B ℕ) := by
  unfold fillSlot
  refine ⟨fun s => ?_⟩
  rw [wp_bind, wp_get, wp_bind, wp_modify]
  have hput : Shifts F r s
      { s with handles := putSlot s.handles (firstFree s.handles) ⟨object, rights, owner⟩ } := by
    refine ⟨touches_handles s _, fun k => ?_⟩
    rw [held_putSlot]
    split
    · rename_i hk
      rw [hk, held_firstFree]
      exact hf.fill _ _ _
    · exact (hr k).refl _
  exact Moves.after hput inferInstance

end Primitives

/-! ### Dropping capabilities of one kind -/

/-- A slot keeps what its capability is for. -/
def sameGrip : SlotRel := fun _ a b => b.map Capability.grip = a.map Capability.grip

instance (k) : Std.Refl (sameGrip k) := ⟨fun _ => rfl⟩

instance (k) : IsTrans _ (sameGrip k) := ⟨fun _ _ _ h₁ h₂ => h₂.trans h₁⟩

instance : Reowns sameGrip := ⟨fun _ _ _ => rfl⟩

theorem object_of_sameGrip {k a c'} (h : sameGrip k a (some c')) (ha : a = some c) :
    c'.object = c.object := by
  subst ha
  exact congrArg Prod.fst (Option.some.inj h)

section Kinds

variable [Backend B] [HandleFree F] [∀ k, Std.Refl (r k)] [∀ k, IsTrans _ (r k)]
  [Has .dirty F]

instance [Has .channels F] [Has .scheduler F] [Reowns r]
    [htoken : ∀ id e callId, Empties r (.replyToken id e callId)] (token bytes handles) :
    Moves (Shifts F r) (replyCall token bytes handles : RtM B Unit) := by
  unfold replyCall
  refine ⟨fun s => ?_⟩
  rw [wp_bind]
  refine wp_cap (fun c hc => ?_) fun _ => refl_of (Shifts F r) s
  rw [wp_bind, wp_some?]
  refine ⟨fun ⟨id, e, callId⟩ hobject => ?_, fun _ => refl_of (Shifts F r) s⟩
  have hprepare : Moves (Shifts F r) (prepareTransferMessage token bytes handles : RtM B Message) :=
    inferInstance
  have hgrip : Moves (Shifts F sameGrip)
      (prepareTransferMessage token bytes handles : RtM B Message) := inferInstance
  dsimp only
  rw [wp_bind]
  refine wp_mono ((hprepare.both hgrip).run s) (fun reply t ht => ?_) fun _ _ ht => ht.1
  -- the slot still names the token, so that it may be emptied
  have hclear : Shifts F r t (clearSlot (token - 1) t) := by
    refine shifts_clearSlot fun c' hc' => ?_
    have hslot := ht.2.2 (token - 1)
    rw [hc'] at hslot
    rw [object_of_sameGrip hslot (slot_eq_some.mp hc).2]
    cases hkind : c.object <;> rw [hkind] at hobject <;> cases hobject
    exact htoken _ _ _
  have hstart := trans_of (Shifts F r) ht.1 hclear
  rw [wp_bind, wp_modify]
  refine Moves.after (R := Shifts F r) hstart (.next fun _ => .next fun u => .next fun channel =>
    ?_)
  split <;> infer_instance

instance [Has .backend F] [Has .vmos F] [Has .counters F] [Has .reclaim F] [Has .vmarRefs F]
    [Has .regions F] [Has .layout F] [hvmar : ∀ id, Empties r (.vmar id)] (vmar) :
    Moves (Shifts F r) (destroyVmar vmar : RtM B Unit) := by
  unfold destroyVmar
  dsimp only
  refine .next fun c => .next fun id => .next fun _ => .next fun _ => .next fun region => .next
    fun p => .next fun _ => .next fun _ => ⟨fun s => ?_⟩
  rw [wp_bind, wp_get]
  -- the slots still to be emptied name regions, unless they are vacant
  refine wp_forEach (fun rest t => Shifts F r s t ∧ ∀ x ∈ rest, ∀ c, t.held x.1 = some c →
    ∃ id, c.object = .vmar id) ?_ (fun t ht => ht.1) _ s ⟨refl_of _ s, ?_⟩
  · rintro ⟨i, id⟩ rest t ⟨ht, hrest⟩
    rw [wp_bind, wp_modify]
    have hclear : Shifts F r t (clearSlot i t) := shifts_clearSlot fun c hc => by
      obtain ⟨id', hid'⟩ := hrest (i, id) List.mem_cons_self c hc
      rw [hid']
      exact hvmar id'
    refine wp_of_moves (R := Touches F) (fun _ u hu => ?_) fun _ u hu => ?_
    · refine ⟨trans_of _ ht (trans_of _ hclear (Covers.le _ _ hu)), fun x hx c hc => ?_⟩
      have hsame : u.handles = (clearSlot i t).handles := hu .handles HandleFree.not_mem
      have hheld : (clearSlot i t).held x.1 = some c := by
        rw [← hc]
        unfold held
        rw [hsame]
      rw [held_clearSlot] at hheld
      split at hheld
      · cases hheld
      · exact hrest x (List.mem_cons_of_mem _ hx) c hheld
    · exact trans_of _ ht (trans_of _ hclear (Covers.le _ _ hu))
  · intro x hx c hc
    unfold deadVmarHandles at hx
    rw [List.mem_filterMap] at hx
    obtain ⟨i, _, hi⟩ := hx
    simp only [Option.bind_eq_bind, Option.bind_eq_some_iff] at hi
    obtain ⟨c', hc', id, hid, hdead⟩ := hi
    split at hdead
    · rw [← Option.some.inj hdead] at hc
      obtain rfl : c' = c := Option.some.inj (hc'.symm.trans hc)
      refine ⟨id, ?_⟩
      cases hkind : c'.object <;> rw [hkind] at hid <;> cases hid
      rfl
    · cases hdead

end Kinds

end Runtime

end Bexos
