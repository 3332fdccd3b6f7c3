/-
Ending a process: what `terminate_process` leaves and what `retire_process` gives back.

Two programs end a process.  `retire_process` is the last step of a handover or of an exit;
`terminate_process` is the system call.  The state they should leave is `Emptied`: no handle
slot, mapping, pin, DMA mapping or address-space root belongs to the process any more, and its
threads have exited, for the runtime and for the scheduler.

* `wp_retireProcess_emptied` — after `retire_process` the process is emptied;
* `terminate_reclaims` — after `terminate_process` it is emptied, and out of every handover,
  only if it had no mapping, pin or root and no part in a handover before (`Spent`).

Design notes: the tables of handles, pins and DMA mappings only lose entries while a process
ends (`Wanes`), so that an entry found gone stays gone.
-/
import Bexos.Releases
import Bexos.RuntimeScheduling
import Bexos.RuntimeOps

namespace Bexos

open Prog
open Option (map_eq_some_iff map_some)

/-! ### Tables that lose entries -/

/-- Every entry of the second table is in the first. -/
def Thins {α : Type} (as bs : List (Option α)) : Prop :=
  ∀ (i : ℕ) (a : α), (bs[i]?).join = some a → (as[i]?).join = some a

namespace Thins

variable {α : Type} {as bs cs : List (Option α)}

theorem refl (as : List (Option α)) : Thins as as := fun _ _ h => h

theorem trans (h₁ : Thins as bs) (h₂ : Thins bs cs) : Thins as cs :=
  fun i a h => h₁ i a (h₂ i a h)

theorem set_none (as : List (Option α)) (k : ℕ) : Thins as (as.set k none) := by
  intro i a h
  rw [join_set_none] at h
  split at h
  · cases h
  · exact h

/-- An entry that is gone stays gone. -/
theorem vacant (h : Thins as bs) {i : ℕ} (hi : (as[i]?).join = none) : (bs[i]?).join = none := by
  cases hb : (bs[i]?).join with
  | none => rfl
  | some a =>
    rw [h i a hb] at hi
    cases hi

end Thins

/-- What is left of a thread: its process, whether it exited, its restricted mode. -/
def Thread.stay (t : Thread) : ℕ × Bool × Option RestrictedBinding :=
  (t.process, t.exited, t.restricted)

namespace Runtime

variable {B : Type} {p : ℕ} {s t : Runtime B}

/-- The tables of handles, pins and DMA mappings only lose entries. -/
structure Wanes (s t : Runtime B) : Prop where
  handles : Thins s.handles t.handles
  pins : Thins s.pins t.pins
  dmaMappings : Thins s.dmaMappings t.dmaMappings

instance : Std.Refl (Wanes (B := B)) := ⟨fun _ => ⟨.refl _, .refl _, .refl _⟩⟩

instance : IsTrans (Runtime B) Wanes where
  trans _ _ _ h₁ h₂ := ⟨h₁.handles.trans h₂.handles, h₁.pins.trans h₂.pins,
    h₁.dmaMappings.trans h₂.dmaMappings⟩

/-- All parts but the three tables. -/
abbrev offTables : List Part :=
  [.handover, .dirty, .reclaim, .backend, .layout, .life, .space, .population, .jobs, .current,
    .threadLife, .threadRun, .threadContext, .vmos, .regions, .vmarRefs, .channels, .sockets,
    .profiles, .scheduler, .iommuDomains, .interrupts, .counters]

instance : Covers (B := B) Wanes offTables where
  le s t h := by
    have hhandles : t.handles = s.handles := h .handles (by decide)
    have hpins : t.pins = s.pins := h .pins (by decide)
    have hdma : t.dmaMappings = s.dmaMappings := h .dmaMappings (by decide)
    refine ⟨?_, ?_, ?_⟩
    · rw [hhandles]; exact .refl _
    · rw [hpins]; exact .refl _
    · rw [hdma]; exact .refl _

theorem wanes_clearSlot (i : ℕ) (s : Runtime B) : Wanes s (clearSlot i s) :=
  ⟨.set_none _ _, .refl _, .refl _⟩

instance (i) : Moves Wanes (modify (clearSlot i) : RtM B Unit) :=
  .modify (wanes_clearSlot i)

theorem wanes_setPin (i : ℕ) (s : Runtime B) : Wanes s { s with pins := s.pins.set i none } :=
  ⟨.refl _, .set_none _ _, .refl _⟩

instance (i) :
    Moves Wanes (modify fun s => { s with pins := s.pins.set i none } : RtM B Unit) :=
  .modify (wanes_setPin i)

theorem wanes_setDmaMapping (i : ℕ) (s : Runtime B) :
    Wanes s { s with dmaMappings := s.dmaMappings.set i none } :=
  ⟨.refl _, .refl _, .set_none _ _⟩

instance (i) :
    Moves Wanes (modify fun s => { s with dmaMappings := s.dmaMappings.set i none } : RtM B Unit) :=
  .modify (wanes_setDmaMapping i)

section Waning

variable [Backend B]

set_option synthInstance.maxSize 100000 in
instance (p : DmaMapping → Bool) (i) : Moves Wanes (dropDmaMapping p i : RtM B Unit) := by
  unfold dropDmaMapping
  refine .next fun s => ?_
  split <;> infer_instance

instance (id) : Moves Wanes (releaseIommuDomain id : RtM B Unit) := by
  unfold releaseIommuDomain
  refine .next fun s => ?_
  split <;> infer_instance

set_option synthInstance.maxSize 100000 in
instance (object) : Moves Wanes (releaseRef object : RtM B (List ℕ)) := by
  cases object <;> (unfold releaseRef; infer_instance)

set_option synthInstance.maxSize 100000 in
instance (id i) : Moves Wanes (dropPin id i : RtM B Unit) := by
  unfold dropPin
  refine .next fun s => ?_
  split <;> infer_instance

end Waning

/-! ### The threads of a process that ends -/

/-- All parts but those in which the remains of a thread are found. -/
abbrev offStay : List Part :=
  [.handover, .dirty, .reclaim, .backend, .layout, .life, .space, .population, .jobs, .current,
    .threadRun, .vmos, .regions, .vmarRefs, .handles, .channels, .sockets, .profiles, .scheduler,
    .pins, .iommuDomains, .dmaMappings, .interrupts, .counters]

theorem stay_of_touches (h : Touches offStay s t) (j : ℕ) :
    (t.threads[j]?).map Thread.stay = (s.threads[j]?).map Thread.stay := by
  have hl := getElem?_of_map_eq (h .threadLife (by decide)) j
  have hs := getElem?_of_map_eq (h .threadContext (by decide)) j
  cases ht : t.threads[j]? with
  | none =>
    rw [ht, Option.map_none, eq_comm, Option.map_eq_none_iff] at hl
    rw [hl]
  | some b =>
    obtain ⟨a, ha, hab⟩ := exists_of_map_eq hl ht
    rw [ht, ha, map_some, map_some, Option.some_inj] at hs
    rw [ha, map_some, map_some, Option.some_inj]
    have hprocess : b.process = a.process := congrArg Prod.fst hab.symm
    have hexited : b.exited = a.exited := congrArg Prod.snd hab.symm
    have hrestricted : b.restricted = a.restricted := congrArg (fun x => x.2.2) hs
    unfold Thread.stay
    rw [hprocess, hexited, hrestricted]

section Threads

variable [Backend B]

/-- Ending a thread leaves nothing of it, and the other threads as they were. -/
theorem wp_endThread_stay (i : ℕ) (th : Thread) (exitCode : Option Int32) (s : Runtime B) :
    wp (endThread i th exitCode)
      (fun _ t => ∀ j : ℕ, (t.threads[j]?).map Thread.stay = if i = j then
        (s.threads[j]?).map fun a => (a.process, true, none) else (s.threads[j]?).map Thread.stay)
      (fun _ _ => True) s := by
  unfold endThread
  rw [wp_bind, wp_modify]
  refine wp_of_moves (R := Touches offStay) fun _ t ht j => ?_
  rw [stay_of_touches ht]
  show ((s.threads.modify i _)[j]?).map Thread.stay = _
  rw [List.getElem?_modify]
  split <;> cases s.threads[j]? <;> rfl

/-- **What is left of the threads** when those of a process that meet a condition are ended. -/
theorem wp_endThreads_stay (id : ℕ) (p : Thread → Bool)
    (hp : ∀ a b : Thread, a.stay = b.stay → p a = p b) (exitCode : Option Int32)
    (s : Runtime B) :
    wp (endThreads id p exitCode)
      (fun _ t => ∀ j : ℕ, (t.threads[j]?).map Thread.stay = (s.threads[j]?).map fun a =>
        if a.process = id ∧ p a then (a.process, true, none) else a.stay)
      (fun _ _ => True) s := by
  unfold endThreads
  rw [wp_bind, wp_get]
  -- the threads still to come are as they were
  refine wp_forEach (fun rest t => rest.Nodup ∧
    ∀ j : ℕ, (t.threads[j]?).map Thread.stay = (s.threads[j]?).map fun a =>
      if j ∉ rest ∧ a.process = id ∧ p a then (a.process, true, none) else a.stay)
    ?_ ?_ _ s ⟨List.nodup_range, ?_⟩
  · rintro i rest t ⟨hnodup, hsame⟩
    obtain ⟨hi, hrest⟩ := List.nodup_cons.mp hnodup
    rw [wp_bind, wp_get, wp_bind, wp_unwrap]
    intro b hb
    have hstay := hsame i
    rw [hb] at hstay
    obtain ⟨a, ha, hab⟩ := map_eq_some_iff.mp hstay.symm
    rw [if_neg fun h => h.1 List.mem_cons_self] at hab
    have hprocess : a.process = b.process := congrArg Prod.fst hab
    rw [wp_when]
    constructor
    · rintro ⟨hid, hpb⟩
      refine wp_mono (wp_endThread_stay i b exitCode t) fun _ u hu => ⟨hrest, fun j => ?_⟩
      rw [hu j]
      by_cases hij : i = j
      · subst hij
        rw [if_pos rfl, hb, ha, map_some, map_some,
          if_pos ⟨hi, hprocess.trans hid, (hp a b hab).trans hpb⟩, hprocess]
      · rw [if_neg hij, hsame j]
        have hmem : j ∈ i :: rest ↔ j ∈ rest := by simp [Ne.symm hij]
        simp only [hmem]
    · intro hnot
      refine ⟨hrest, fun j => ?_⟩
      rw [hsame j]
      by_cases hij : i = j
      · subst hij
        rw [ha, map_some, map_some, if_neg fun h => h.1 List.mem_cons_self,
          if_neg fun h => hnot ⟨hprocess.symm.trans h.2.1, (hp a b hab).symm.trans h.2.2⟩]
      · have hmem : j ∈ i :: rest ↔ j ∈ rest := by simp [Ne.symm hij]
        simp only [hmem]
  · rintro t ⟨-, hsame⟩ j
    rw [hsame j]
    simp
  · intro j
    cases hj : s.threads[j]? with
    | none => rfl
    | some a =>
      have hlt := (getElem?_eq_some_iff.mp hj).1
      rw [map_some, map_some, if_neg fun h => h.1 (List.mem_range.mpr hlt)]

end Threads

/-! ### The tables of a process that ends -/

/-- No entry of the handle table belongs to a process. -/
def SlotFree (s : Runtime B) (p : ℕ) : Prop := ∀ k c, s.held k = some c → c.owner ≠ p

def PinFree (s : Runtime B) (p : ℕ) : Prop :=
  ∀ (i : ℕ) (x : ℕ × ℕ), (s.pins[i]?).join = some x → x.1 ≠ p

def DmaFree (s : Runtime B) (p : ℕ) : Prop :=
  ∀ (i : ℕ) (d : DmaMapping), (s.dmaMappings[i]?).join = some d → d.owner ≠ p

theorem Wanes.slotFree (h : Wanes s t) (hs : s.SlotFree p) : t.SlotFree p :=
  fun k c hc => hs k c (h.handles k c hc)

theorem Wanes.pinFree (h : Wanes s t) (hs : s.PinFree p) : t.PinFree p :=
  fun i x hx => hs i x (h.pins i x hx)

theorem Wanes.dmaFree (h : Wanes s t) (hs : s.DmaFree p) : t.DmaFree p :=
  fun i d hd => hs i d (h.dmaMappings i d hd)

theorem mem_ownedSlots {k c} (hc : s.held k = some c) (howner : c.owner = p) :
    k ∈ s.ownedSlots p := by
  unfold ownedSlots
  unfold held at hc
  refine List.mem_filter.mpr ⟨List.mem_range.mpr ?_, ?_⟩
  · by_contra hlt
    rw [List.getElem?_eq_none (Nat.le_of_not_lt hlt)] at hc
    cases hc
  · rw [hc]
    exact beq_iff_eq.mpr howner

section Tables

variable [Backend B]

omit [Backend B] in
/-- A loop that empties the slots of a process one after the other. The programs of the loop
may rely on what they keep. -/
theorem wp_emptySlots {J : Runtime B → Prop} {f : ℕ → RtM B Unit} {p : ℕ} {s : Runtime B}
    (hJ : J s) (hf : ∀ i t, J t → (∀ c, t.held i = some c → c.owner = p) →
      wp (f i) (fun _ u => J u ∧ Wanes t u ∧ u.held i = none) (fun _ _ => True) t) :
    wp (forEach (s.ownedSlots p) f) (fun _ t => J t ∧ Wanes s t ∧ t.SlotFree p)
      (fun _ _ => True) s := by
  refine wp_forEach (fun rest t => J t ∧ Wanes s t ∧ (∀ i ∈ rest, i ∈ s.ownedSlots p) ∧
    ∀ i ∈ s.ownedSlots p, i ∉ rest → t.held i = none) ?_ ?_ _ s
    ⟨hJ, refl_of Wanes s, fun _ hi => hi, fun _ hi hnot => absurd hi hnot⟩
  · rintro i rest t ⟨hJt, hwanes, hrest, hdone⟩
    have howned : ∀ c, t.held i = some c → c.owner = p := fun c hc =>
      owner_of_ownedSlots (hrest i List.mem_cons_self) (hwanes.handles i c hc)
    refine wp_mono (hf i t hJt howned) ?_
    rintro _ u ⟨hJu, hu, hgone⟩
    refine ⟨hJu, trans_of Wanes hwanes hu, fun j hj => hrest j (List.mem_cons_of_mem _ hj),
      fun j hj hnot => ?_⟩
    by_cases hji : j = i
    · rw [hji]
      exact hgone
    · exact hu.handles.vacant (hdone j hj fun hmem => (List.mem_cons.mp hmem).elim hji hnot)
  · rintro t ⟨hJt, hwanes, -, hdone⟩
    refine ⟨hJt, hwanes, fun k c hc howner => ?_⟩
    have hmem := mem_ownedSlots (hwanes.handles k c hc) howner
    rw [hdone k hmem (by simp)] at hc
    cases hc

/-- What follows the emptying of a slot leaves it empty. -/
theorem wp_emptied_slot (i : ℕ) (c : Capability) (s : Runtime B) :
    ends (do modify (clearSlot i); changed .handle i; releaseObject c.object : RtM B Unit)
      (fun u => Wanes s u ∧ u.held i = none) s := by
  have hgone : (clearSlot i s).held i = none := by rw [held_clearSlot, if_pos rfl]
  have hstep : ∀ u, Wanes (clearSlot i s) u → Wanes s u ∧ u.held i = none := fun u hu =>
    ⟨trans_of Wanes (wanes_clearSlot i s) hu, hu.handles.vacant hgone⟩
  unfold ends
  rw [wp_bind, wp_modify]
  exact wp_of_moves (R := Wanes) (fun _ u hu => hstep u hu) fun _ u hu => hstep u hu

theorem wp_dropSlot_empties (i : ℕ) (s : Runtime B) :
    ends (dropSlot i) (fun u => Wanes s u ∧ u.held i = none) s := by
  unfold ends dropSlot
  rw [wp_bind, wp_get]
  split
  · rename_i hnone
    exact (wp_pure _).mpr ⟨refl_of Wanes s, hnone⟩
  · exact wp_emptied_slot i _ s

/-- The process that is retired is current and not in quarantine, so that it may close its
handles. -/
def Presides (s : Runtime B) (p : ℕ) : Prop :=
  s.current = p ∧ (s.processes[p]?).any (·.quarantined) = false

/-- All parts but the current process and what happens to processes. -/
abbrev offPresides : List Part :=
  [.handover, .dirty, .reclaim, .backend, .layout, .space, .population, .jobs, .threadLife,
    .threadRun, .threadContext, .vmos, .regions, .vmarRefs, .handles, .channels, .sockets,
    .profiles, .scheduler, .pins, .iommuDomains, .dmaMappings, .interrupts, .counters]

omit [Backend B] in
theorem Presides.of_touches (hs : s.Presides p) (h : Touches offPresides s t) : t.Presides p := by
  have hp := getElem?_of_map_eq (h .life (by decide)) p
  have hany : ∀ o : Option Process,
      o.any (·.quarantined) = (o.map Process.life).any (·.quarantined) := fun o => by
    cases o <;> rfl
  refine ⟨(h .current (by decide)).1.trans hs.1, ?_⟩
  rw [hany, hp, ← hany]
  exact hs.2

omit [Backend B] in
/-- A process out of quarantine may use the handles it owns. -/
theorem Presides.capability {s : Runtime B} {p i : ℕ} {c : Capability} (hs : s.Presides p)
    (hc : s.held i = some c) (howner : c.owner = p) : s.capability (i + 1) 0 = .ok c := by
  have hslot : s.slot (i + 1) = some c := slot_eq_some.mpr ⟨Nat.succ_ne_zero i, hc⟩
  unfold Runtime.capability
  rw [hslot]
  dsimp only
  rw [if_neg, if_neg]
  · rw [hs.1, hs.2]
    exact fun h => Bool.noConfusion h.1
  · rw [howner, hs.1, UInt32.and_zero]
    exact fun h => h.elim (fun h => h rfl) fun h => h rfl

theorem wp_close_empties {i} (hs : s.Presides p) (howner : ∀ c, s.held i = some c → c.owner = p) :
    wp (attempt (close (i + 1)) : RtM B (Except Status Unit))
      (fun _ u => Wanes s u ∧ u.held i = none) (fun _ _ => True) s := by
  rw [wp_attempt]
  unfold close cap
  rw [wp_bind, wp_bind, wp_get, wp_bind, wp_lift]
  constructor
  · intro c _
    rw [wp_bind, wp_unwrap]
    intro _ _
    rw [wp_pure, Nat.add_sub_cancel]
    exact wp_emptied_slot i c s
  · intro e he
    cases hheld : s.held i with
    | none => exact ⟨refl_of Wanes s, rfl⟩
    | some c =>
      rw [hs.capability hheld (howner c hheld)] at he
      cases he

omit [Backend B] in
/-- A loop over a table that drops the entries of a process. -/
theorem wp_dropAll {α : Type} (table : Runtime B → List (Option α)) (owned : α → Prop)
    {f : ℕ → RtM B Unit} {s : Runtime B} {n : ℕ} (hn : (table s).length ≤ n)
    (hthins : ∀ t u, Wanes t u → Thins (table t) (table u))
    (hf : ∀ i t, wp (f i)
      (fun _ u => Wanes t u ∧ ∀ a, ((table u)[i]?).join = some a → ¬ owned a)
      (fun _ _ => True) t) :
    wp (forEach (List.range n) f)
      (fun _ t => Wanes s t ∧ ∀ (i : ℕ) (a : α), ((table t)[i]?).join = some a → ¬ owned a)
      (fun _ _ => True) s := by
  refine wp_forEach (fun rest t => Wanes s t ∧ ∀ i, i ∉ rest →
    ∀ a, ((table t)[i]?).join = some a → ¬ owned a) ?_ ?_ _ s ⟨refl_of Wanes s, ?_⟩
  · rintro i rest t ⟨ht, hdone⟩
    refine wp_mono (hf i t) ?_
    rintro _ u ⟨hu, hgone⟩
    refine ⟨trans_of Wanes ht hu, fun j hj a ha => ?_⟩
    by_cases hji : j = i
    · subst hji
      exact hgone a ha
    · exact hdone j (fun hmem => (List.mem_cons.mp hmem).elim hji hj) a (hthins t u hu j a ha)
  · rintro t ⟨ht, hdone⟩
    exact ⟨ht, fun i a ha => hdone i (by simp) a ha⟩
  · intro i hi a ha
    rw [List.mem_range, Nat.not_lt] at hi
    rw [List.getElem?_eq_none (hn.trans hi)] at ha
    cases ha

theorem wp_dropDmaMappings {n} (hn : s.dmaMappings.length ≤ n) (p) :
    wp (forEach (List.range n) (dropDmaMapping (·.owner == p)) : RtM B Unit)
      (fun _ t => Wanes s t ∧ t.DmaFree p) (fun _ _ => True) s := by
  refine wp_dropAll dmaMappings (fun d => d.owner = p) hn (fun _ _ h => h.dmaMappings) fun i t => ?_
  unfold dropDmaMapping
  rw [wp_bind, wp_get]
  split
  · rename_i hnone
    refine (wp_pure _).mpr ⟨refl_of Wanes t, fun a ha => ?_⟩
    rw [hnone] at ha
    cases ha
  · rename_i d hd
    rw [wp_ite]
    constructor
    · intro _
      rw [wp_bind, wp_modify]
      refine wp_of_moves (R := Wanes) fun _ u hu => ?_
      have hgone := hu.dmaMappings.vacant ((join_set_none _ i i).trans (if_pos rfl))
      refine ⟨trans_of Wanes (wanes_setDmaMapping i t) hu, fun a ha => ?_⟩
      rw [hgone] at ha
      cases ha
    · intro hne
      refine (wp_pure _).mpr ⟨refl_of Wanes t, fun a ha => ?_⟩
      obtain rfl : d = a := Option.some.inj (hd.symm.trans ha)
      exact fun h => hne (beq_iff_eq.mpr h)

theorem wp_dropPins {n} (hn : s.pins.length ≤ n) (p : ℕ) :
    wp (forEach (List.range n) (dropPin p) : RtM B Unit)
      (fun _ t => Wanes s t ∧ t.PinFree p) (fun _ _ => True) s := by
  refine wp_dropAll pins (fun x => x.1 = p) hn (fun _ _ h => h.pins) fun i t => ?_
  unfold dropPin
  rw [wp_bind, wp_get]
  split
  · rename_i hnone
    refine (wp_pure _).mpr ⟨refl_of Wanes t, fun a ha => ?_⟩
    rw [hnone] at ha
    cases ha
  · rename_i owner vmo hpin
    rw [wp_when]
    constructor
    · intro _
      rw [wp_bind]
      refine wp_of_moves (R := Touches [.backend]) fun _ u hu => ?_
      rw [wp_bind, wp_modify]
      refine wp_of_moves (R := Wanes) fun _ v hv => ?_
      have hgone := hv.pins.vacant ((join_set_none _ i i).trans (if_pos rfl))
      have hfirst : Wanes t u := Covers.le t u (hu.weaken (by decide))
      refine ⟨trans_of Wanes hfirst (trans_of Wanes (wanes_setPin i u) hv),
        fun a ha => ?_⟩
      rw [hgone] at ha
      cases ha
    · intro hne
      refine ⟨refl_of Wanes t, fun a ha => ?_⟩
      rw [hpin] at ha
      rw [← Option.some.inj ha]
      exact hne

end Tables

/-! ### The address space of a process that ends -/

/-- A process has no mappings. -/
def Unmapped (s : Runtime B) (p : ℕ) : Prop := ∀ q, s.processes[p]? = some q → q.mappings = []

/-- A process has no root table. -/
def Rootless (s : Runtime B) (p : ℕ) : Prop := ∀ q, s.processes[p]? = some q → q.root = 0

/-- All parts but the mappings and the root tables of processes. -/
abbrev offEstate : List Part :=
  [.handover, .dirty, .reclaim, .backend, .life, .population, .jobs, .current, .threadLife,
    .threadRun, .threadContext, .vmos, .regions, .vmarRefs, .handles, .channels, .sockets,
    .profiles, .scheduler, .pins, .iommuDomains, .dmaMappings, .interrupts, .counters]

theorem mappings_of_touches (h : Touches offEstate s t) (p : ℕ) :
    (t.processes[p]?).map (·.mappings) = (s.processes[p]?).map (·.mappings) :=
  getElem?_of_map_eq (map_of_map_eq (h .layout (by decide)) Layout.mappings) p

theorem root_of_touches (h : Touches offEstate s t) (p : ℕ) :
    (t.processes[p]?).map (·.root) = (s.processes[p]?).map (·.root) :=
  getElem?_of_map_eq (map_of_map_eq (h .space (by decide)) Prod.fst) p

theorem unmapped_iff :
    s.Unmapped p ↔ ∀ l, (s.processes[p]?).map (·.mappings) = some l → l = [] := by
  unfold Unmapped
  cases s.processes[p]? <;> simp

theorem rootless_iff : s.Rootless p ↔ ∀ r, (s.processes[p]?).map (·.root) = some r → r = 0 := by
  unfold Rootless
  cases s.processes[p]? <;> simp

theorem unmapped_of_touches (h : Touches offEstate s t) : t.Unmapped p ↔ s.Unmapped p := by
  rw [unmapped_iff, unmapped_iff, mappings_of_touches h]

theorem rootless_of_touches (h : Touches offEstate s t) : t.Rootless p ↔ s.Rootless p := by
  rw [rootless_iff, rootless_iff, root_of_touches h]

/-! ### Retiring a process -/

/-- The tables lose entries, and address spaces stay as they are. -/
def Ebbs (s t : Runtime B) : Prop := Wanes s t ∧ Touches offEstate s t

instance {α : Type} (x : RtM B α) [h : Moves Wanes x] [h' : Moves (Touches offEstate) x] :
    Moves Ebbs x :=
  h.both h'

section Retire

variable [Backend B]

set_option synthInstance.maxSize 100000 in
/-- What a process owns is given back. -/
theorem wp_retireResources_empties (hs : s.Presides p) : wp (retireResources p)
      (fun _ t => t.SlotFree p ∧ t.PinFree p ∧ t.DmaFree p ∧ t.Unmapped p ∧ t.Rootless p)
      (fun _ _ => True) s := by
  unfold retireResources
  rw [wp_bind, wp_get, wp_bind]
  refine wp_mono (wp_emptySlots (J := fun t => t.Presides p) hs fun i t ht howner => ?_) ?_
  -- closing a handle leaves the slots that are free free
  · rw [wp_bind]
    refine wp_mono (wp_and (wp_close_empties ht howner) (Moves.run (R := Touches offPresides) t))
      ?_
    rintro _ u ⟨⟨hu, hgone⟩, htouches⟩
    exact (wp_pure _).mpr ⟨ht.of_touches htouches, hu, hgone⟩
  rintro _ a ⟨-, -, hslots⟩
  rw [wp_bind, wp_get, wp_bind, wp_unwrap]
  intro q hq
  rw [wp_bind, wp_modify]
  generalize hb : modifyProcess p (fun p => { p with mappings := [] }) a = b
  have hbslots : b.SlotFree p := by rw [← hb]; exact hslots
  have hbmapped : b.Unmapped p := by
    intro r hr
    rw [← hb] at hr
    change (a.processes.modify p _)[p]? = some r at hr
    rw [List.getElem?_modify_eq, hq] at hr
    rw [← Option.some.inj hr]
  rw [wp_bind]
  -- the pages are unmapped; then the DMA mappings, the pins and the root go
  refine wp_of_moves (R := Ebbs) fun _ c hc => ?_
  rw [wp_bind, wp_get, wp_bind]
  refine wp_mono (wp_and (wp_dropDmaMappings (s := c) le_rfl p)
    (Moves.run (R := Touches [.dirty, .vmos, .backend, .counters, .reclaim, .dmaMappings]) c)) ?_
  rintro _ d ⟨⟨hcd, hdma⟩, hd⟩
  have hpins : d.pins.length ≤ c.pins.length := (congrArg List.length (hd .pins (by decide))).le
  rw [wp_bind]
  refine wp_mono (wp_and (wp_dropPins hpins p) (Moves.run (R := Ebbs) d)) ?_
  rintro _ e ⟨⟨hde, hpin⟩, he⟩
  rw [wp_bind, wp_get, wp_bind, wp_unwrap]
  intro r hr
  rw [wp_bind, wp_modify]
  have hemapped : e.Unmapped p := (unmapped_of_touches he.2).mpr
    ((unmapped_of_touches (hd.weaken (by decide))).mpr ((unmapped_of_touches hc.2).mpr hbmapped))
  have heslots : e.SlotFree p := hde.slotFree (hcd.slotFree (hc.1.slotFree hbslots))
  generalize hf : modifyProcess p (fun p => { p with root := 0 }) e = f
  have hslots : f.SlotFree p := by rw [← hf]; exact heslots
  have hpin : f.PinFree p := by rw [← hf]; exact hpin
  have hdma : f.DmaFree p := by rw [← hf]; exact hde.dmaFree hdma
  have hfp : f.processes[p]? = some { r with root := 0 } := by
    rw [← hf]
    show (e.processes.modify p _)[p]? = _
    rw [List.getElem?_modify_eq, hr]
    rfl
  have hmapped : f.Unmapped p := by
    intro x hx
    rw [hfp] at hx
    rw [← Option.some.inj hx]
    exact hemapped r hr
  have hroot : f.Rootless p := by
    intro x hx
    rw [hfp] at hx
    rw [← Option.some.inj hx]
  refine wp_of_moves (R := Ebbs) fun _ t ht => ?_
  exact ⟨ht.1.slotFree hslots, ht.1.pinFree hpin, ht.1.dmaFree hdma,
    (unmapped_of_touches ht.2).mpr hmapped, (rootless_of_touches ht.2).mpr hroot⟩

/-- No thread of a process is left. -/
def ThreadsGone (s : Runtime B) (p : ℕ) : Prop :=
  ∀ (i : ℕ) (th : Thread), s.threads[i]? = some th → th.process = p →
    th.exited = true ∧ th.restricted = none

/-- No task of a process is left. -/
def TasksGone (s : Runtime B) (p : ℕ) : Prop :=
  ∀ (i : ℕ) (th : Thread), s.threads[i]? = some th → th.process = p →
    ∀ u, s.scheduler.task (i + 1) = some u → u.state = .exited

omit [Backend B] in
theorem Settled.tasksGone (hs : s.Settled) (h : s.ThreadsGone p) : s.TasksGone p :=
  fun i th hth hp => hs.exited i th hth (h i th hth hp).1

omit [Backend B] in
theorem threadsGone_iff :
    s.ThreadsGone p ↔ ∀ (i : ℕ) x, (s.threads[i]?).map Thread.stay = some x → x.1 = p →
      x.2 = (true, none) := by
  unfold ThreadsGone
  constructor
  · intro h i x hx hp
    obtain ⟨th, hth, rfl⟩ := map_eq_some_iff.mp hx
    obtain ⟨hexited, hrestricted⟩ := h i th hth hp
    exact Prod.ext hexited hrestricted
  · intro h i th hth hp
    have hx := h i th.stay (by rw [hth]; rfl) hp
    exact ⟨congrArg Prod.fst hx, congrArg Prod.snd hx⟩

omit [Backend B] in
theorem threadsGone_of_touches (h : Touches offStay s t) : t.ThreadsGone p ↔ s.ThreadsGone p := by
  rw [threadsGone_iff, threadsGone_iff]
  simp only [stay_of_touches h]

/-- Nothing belongs to a process, and its threads and tasks are gone. -/
structure Emptied (s : Runtime B) (p : ℕ) : Prop where
  slots : s.SlotFree p
  mappings : s.Unmapped p
  root : s.Rootless p
  pins : s.PinFree p
  dmaMappings : s.DmaFree p
  threads : s.ThreadsGone p
  tasks : s.TasksGone p

/-- Ending every thread of a process leaves none. -/
theorem wp_endThreads_gone (p : ℕ) (exitCode : Option Int32) (s : Runtime B) :
    wp (endThreads p (fun _ => true) exitCode) (fun _ t => t.ThreadsGone p) (fun _ _ => True)
      s := by
  refine wp_mono (wp_endThreads_stay p _ (fun _ _ _ => rfl) exitCode s) fun _ t ht => ?_
  rw [threadsGone_iff]
  intro i x hx hp
  rw [ht i] at hx
  obtain ⟨a, -, rfl⟩ := map_eq_some_iff.mp hx
  by_cases ha : a.process = p
  · rw [if_pos ⟨ha, rfl⟩]
  · rw [if_neg fun h => ha h.1] at hp
    exact absurd hp ha

set_option synthInstance.maxSize 100000 in
/-- Everything but the tasks, which follow the threads. -/
theorem wp_retireProcess_gone (p : ℕ) (s : Runtime B) : wp (retireProcess p)
      (fun _ t => t.SlotFree p ∧ t.PinFree p ∧ t.DmaFree p ∧ t.Unmapped p ∧ t.Rootless p ∧
        t.ThreadsGone p) (fun _ _ => True) s := by
  unfold retireProcess
  rw [wp_bind, wp_get, wp_bind, wp_modify, wp_bind, wp_unwrap]
  intro q hq
  rw [wp_bind, wp_modify, wp_bind]
  generalize ha : modifyProcess p
    (fun p => { p with exited := true, running := false, authority := 0, quarantined := false })
      { s with current := p, deferReclamation := true } = a
  have hpresides : a.Presides p := by
    subst ha
    refine ⟨rfl, ?_⟩
    show ((s.processes.modify p _)[p]?).any _ = false
    rw [List.getElem?_modify_eq, hq]
    rfl
  refine wp_of_moves (R := Touches offPresides) fun _ b hb => ?_
  rw [wp_bind]
  refine wp_mono (wp_and (wp_endThreads_gone p none b) (Moves.run (R := Touches offPresides) b)) ?_
  rintro _ c ⟨hthreads, hc⟩
  rw [wp_bind]
  refine wp_mono (wp_and (wp_retireResources_empties ((hpresides.of_touches hb).of_touches hc))
    (Moves.run (R := Touches offStay) c)) ?_
  rintro _ d ⟨⟨hslots, hpins, hdma, hmapped, hroot⟩, hd⟩
  rw [wp_bind, wp_modify]
  refine wp_of_moves (R := Touches [.scheduler, .threadRun, .dirty]) (fun _ t ht => ?_)
  have hestate := ht.weaken (G := offEstate) (by decide)
  have hwanes : Wanes _ t := Covers.le _ t (ht.weaken (by decide))
  exact ⟨hwanes.slotFree hslots, hwanes.pinFree hpins, hwanes.dmaFree hdma,
    (unmapped_of_touches hestate).mpr hmapped, (rootless_of_touches hestate).mpr hroot,
    (threadsGone_of_touches (ht.weaken (by decide))).mpr
      ((threadsGone_of_touches hd).mpr hthreads)⟩

set_option synthInstance.maxSize 100000 in
/-- **A retired process is emptied.** -/
theorem wp_retireProcess_emptied (hs : s.Settled) :
    wp (retireProcess p) (fun _ t => t.Emptied p) (fun _ _ => True) s := by
  have hsettled : Moves (Keeps Settled) (retireProcess p : RtM B Unit) := inferInstance
  refine wp_mono (wp_and (hsettled.keep hs) (wp_retireProcess_gone p s)) ?_
  rintro _ t ⟨ht, hslots, hpins, hdma, hmapped, hroot, hthreads⟩
  exact ⟨hslots, hmapped, hroot, hpins, hdma, hthreads, ht.tasksGone hthreads⟩

end Retire

/-! ### Terminating a process -/

/-- No handover has a process as its source or target. -/
def HandoverFree (s : Runtime B) (p : ℕ) : Prop :=
  ∀ h, s.handover = some h → h.source ≠ p ∧ h.target ≠ p

/-- The threads of a process that have exited have left restricted mode. -/
def Unrestricted (s : Runtime B) (p : ℕ) : Prop :=
  ∀ (i : ℕ) (th : Thread), s.threads[i]? = some th → th.process = p → th.exited = true →
    th.restricted = none

/-- Everything that belonged to a process was given back, and its handover is over. -/
structure Reclaimed (s : Runtime B) (p : ℕ) : Prop extends Emptied s p where
  handover : s.HandoverFree p

/-- Nothing is left of a process that its termination would not give back. -/
structure Spent (s : Runtime B) (p : ℕ) : Prop where
  mappings : s.Unmapped p
  root : s.Rootless p
  pins : s.PinFree p
  handover : s.HandoverFree p
  restricted : s.Unrestricted p
  exited : ∀ q, s.processes[p]? = some q → q.exited = true → s.SlotFree p ∧ s.ThreadsGone p

/-- All parts that `terminate_process` writes, and more. -/
abbrev offTermination : List Part :=
  [.dirty, .reclaim, .backend, .life, .population, .jobs, .current, .threadLife, .threadRun,
    .threadContext, .vmos, .regions, .vmarRefs, .handles, .channels, .sockets, .profiles,
    .scheduler, .iommuDomains, .dmaMappings, .interrupts, .counters]

theorem unrestricted_iff :
    s.Unrestricted p ↔ ∀ (i : ℕ) x, (s.threads[i]?).map Thread.stay = some x → x.1 = p →
      x.2.1 = true → x.2.2 = none := by
  unfold Unrestricted
  constructor
  · intro h i x hx hp hexited
    obtain ⟨th, hth, rfl⟩ := map_eq_some_iff.mp hx
    exact h i th hth hp hexited
  · intro h i th hth hp hexited
    exact h i th.stay (by rw [hth]; rfl) hp hexited

theorem unrestricted_of_touches (h : Touches offStay s t) :
    t.Unrestricted p ↔ s.Unrestricted p := by
  rw [unrestricted_iff, unrestricted_iff]
  simp only [stay_of_touches h]

theorem ThreadsGone.unrestricted (h : s.ThreadsGone p) : s.Unrestricted p :=
  fun i th hth hp _ => (h i th hth hp).2

section Terminate

variable [Backend B]

/-- Ending the threads that run leaves those that had exited as they were. -/
theorem wp_endThreads_live (p : ℕ) (exitCode : Option Int32) (s : Runtime B) :
    wp (endThreads p (!·.exited) exitCode) (fun _ t => t.ThreadsGone p ↔ s.Unrestricted p)
      (fun _ _ => True) s := by
  refine wp_mono (wp_endThreads_stay p (!·.exited) ?_ exitCode s) fun _ t ht => ?_
  · intro a b hab
    have hexited : a.exited = b.exited := congrArg (fun x => x.2.1) hab
    rw [hexited]
  rw [threadsGone_iff]
  unfold Unrestricted
  simp only [ht]
  constructor
  · intro h i th hth hp hexited
    have hstay := h i th.stay (by rw [hth, map_some, if_neg (by simp [hexited])]) hp
    exact congrArg Prod.snd hstay
  · intro h i x hx hp
    obtain ⟨a, ha, rfl⟩ := map_eq_some_iff.mp hx
    by_cases hlive : a.process = p ∧ (!a.exited) = true
    · rw [if_pos hlive]
    · rw [if_neg hlive] at hp ⊢
      have hexited : a.exited = true := by
        by_contra hne
        exact hlive ⟨hp, by simp [hne]⟩
      exact Prod.ext hexited (h i a ha hp hexited)

set_option synthInstance.maxSize 100000 in
instance (h exitCode) : Moves Wanes (terminateProcess h exitCode : RtM B Unit) := by
  unfold terminateProcess
  infer_instance

set_option synthInstance.maxSize 100000 in
/-- What `terminate_process` gives back: handles and threads. -/
theorem wp_terminateProcess_gone {h} (exitCode : Int32)
    (hp : (s.slot h).map (·.object) = some (.process p)) :
    wp (terminateProcess h exitCode)
      (fun _ t => ∃ q, s.processes[p]? = some q ∧ (q.exited = true ∧ t = s ∨
        q.exited = false ∧ t.SlotFree p ∧ (t.ThreadsGone p ↔ s.Unrestricted p)))
      (fun _ _ => True) s := by
  unfold terminateProcess
  rw [wp_bind]
  refine wp_cap (fun c hc => ?_) fun _ => trivial
  rw [hc, map_some, Option.some_inj] at hp
  rw [hp, wp_bind, wp_some?]
  refine ⟨fun id hid => ?_, fun _ => trivial⟩
  obtain rfl : p = id := Option.some.inj hid
  rw [wp_bind, wp_get, wp_bind, wp_unwrap]
  intro q hq
  rw [wp_ite]
  refine ⟨fun hexited => (wp_pure _).mpr ⟨q, hq, .inl ⟨hexited, rfl⟩⟩, fun hexited => ?_⟩
  rw [wp_bind]
  refine wp_of_moves (R := Touches offStay) fun _ a ha => ?_
  rw [wp_bind]
  refine wp_of_moves (R := Touches offStay) fun _ b hb => ?_
  rw [wp_bind]
  refine wp_mono (wp_endThreads_live p (some exitCode) b) fun _ c hc => ?_
  rw [wp_bind, wp_get, wp_bind]
  refine wp_mono (wp_and (wp_emptySlots (J := fun _ => True) trivial fun i t _ _ => ?_)
    (Moves.run (R := Touches offStay) c)) ?_
  · exact wp_mono (wp_dropSlot_empties i t) fun _ u hu => ⟨trivial, hu⟩
  rintro _ d ⟨⟨-, -, hslots⟩, hd⟩
  refine wp_of_moves (R := Touches [.scheduler, .threadRun, .dirty]) (fun _ t ht => ?_)
  have hwanes : Wanes d t := Covers.le d t (ht.weaken (by decide))
  refine ⟨q, hq, .inr ⟨Bool.eq_false_iff.mpr hexited, hwanes.slotFree hslots, ?_⟩⟩
  rw [threadsGone_of_touches (ht.weaken (by decide)), threadsGone_of_touches hd, hc,
    unrestricted_of_touches hb, unrestricted_of_touches ha]

set_option synthInstance.maxSize 100000 in
/-- What a termination leaves as it is. -/
theorem leaves_terminateProcess {h exitCode}
    (hrun : (terminateProcess h exitCode s).state? = some t) :
    Touches offTermination s t ∧ Wanes s t ∧ Keeps Settled s t :=
  ⟨Moves.state inferInstance hrun, Moves.state inferInstance hrun, Moves.state inferInstance hrun⟩

/-- **What termination reclaims.**  A process is reclaimed by `terminate_process` only if it
had no mapping, pin or root and no part in a handover, and then it is, unless it had DMA
mappings; `retire_process` empties every process. -/
theorem terminate_reclaims {s t : Runtime B} {h p : ℕ} {exitCode : Int32}
    (hs : Reaches (fun _ _ => True) s) (hp : (s.slot h).map (·.object) = some (.process p))
    (hrun : terminateProcess h exitCode s = .ok () t) :
    (t.Reclaimed p → s.Spent p) ∧ (s.Spent p → s.DmaFree p → t.Reclaimed p) ∧
      ∀ u, retireProcess p s = .ok () u → u.Emptied p := by
  have hgone := of_ok (wp_terminateProcess_gone exitCode hp) hrun
  obtain ⟨htouches, hwanes, hsettles⟩ := leaves_terminateProcess (by rw [hrun]; rfl)
  have hsettled := hsettles hs.settled
  have hestate : Touches offEstate s t := htouches.weaken (by decide)
  have hpins : t.pins = s.pins := htouches .pins (by decide)
  have hhandover : t.handover = s.handover := htouches .handover (by decide)
  obtain ⟨q, hq, hcase⟩ := hgone
  refine ⟨fun ht => ?_, fun hspent hdma => ?_, fun u hu => ?_⟩
  · refine ⟨(unmapped_of_touches hestate).mp ht.mappings, (rootless_of_touches hestate).mp ht.root,
      ?_, ?_, ?_, fun r hr hexited => ?_⟩
    · rw [PinFree, ← hpins]
      exact ht.pins
    · rw [HandoverFree, ← hhandover]
      exact ht.handover
    · rcases hcase with ⟨-, rfl⟩ | ⟨-, -, hiff⟩
      · exact ht.threads.unrestricted
      · exact hiff.mp ht.threads
    · obtain rfl : q = r := Option.some.inj (hq.symm.trans hr)
      rcases hcase with ⟨-, rfl⟩ | ⟨hlive, -, -⟩
      · exact ⟨ht.slots, ht.threads⟩
      · rw [hexited] at hlive
        cases hlive
  · have hkept : t.SlotFree p ∧ t.ThreadsGone p := by
      rcases hcase with ⟨hexited, rfl⟩ | ⟨-, hslots, hiff⟩
      · exact hspent.exited q hq hexited
      · exact ⟨hslots, hiff.mpr hspent.restricted⟩
    refine ⟨⟨hkept.1, (unmapped_of_touches hestate).mpr hspent.mappings,
      (rootless_of_touches hestate).mpr hspent.root, hwanes.pinFree hspent.pins,
      hwanes.dmaFree hdma, hkept.2, hsettled.tasksGone hkept.2⟩, ?_⟩
    rw [HandoverFree, hhandover]
    exact hspent.handover
  · have hempty := of_ok (wp_retireProcess_emptied (p := p) hs.settled) hu
    exact hempty

end Terminate

/-- A process has mappings and a root, and is the target of the handover. -/
def LeftOver (s : Runtime B) (p : ℕ) : Bool :=
  (s.processes[p]?).any (fun q => q.exited && q.mappings != [] && q.root != 0) &&
    s.handover.any (·.target == p)

theorem not_free_of_leftOver (h : s.LeftOver p = true) :
    ¬ s.Unmapped p ∧ ¬ s.Rootless p ∧ ¬ s.HandoverFree p := by
  unfold LeftOver at h
  obtain ⟨hprocess, hhandover⟩ := Bool.and_eq_true_iff.mp h
  obtain ⟨q, hq, hparts⟩ := (Option.any_eq_true _ _).mp hprocess
  obtain ⟨o, ho, htarget⟩ := (Option.any_eq_true _ _).mp hhandover
  simp only [Bool.and_eq_true, bne_iff_ne] at hparts
  exact ⟨fun hall => hparts.1.2 (hall q hq), fun hall => hparts.2 (hall q hq),
    fun hall => (hall o ho).2 (beq_iff_eq.mp htarget)⟩

/-- The target of a handover is terminated: its mappings and its root stay, and the handover
goes on. -/
theorem terminated_target_kept : ∃ s t u : Runtime TestBackend, Reaches (fun _ _ => True) s ∧
      (s.slot 7).map (·.object) = some (.process 1) ∧ terminateProcess 7 0 s = .ok () t ∧
      ¬ t.Unmapped 1 ∧ ¬ t.Rootless 1 ∧ ¬ t.HandoverFree 1 ∧
      retireProcess 1 s = .ok () u ∧ u.Emptied 1 := by
  obtain ⟨s, hs, hslot, hterminated, hretired⟩ := TestBackend.exists_reaches_of_run
    (fun _ _ => True)
    (fun s => (s.slot 7).map (·.object) = some (.process 1) ∧
      ((terminateProcess 7 0 s).returned?).any (fun r => r.2.LeftOver 1) = true ∧
      ((retireProcess 1 s).returned?).isSome = true)
    TestBackend.handoverBegun (by decide +kernel)
  obtain ⟨⟨_, t⟩, ht, hleft⟩ := (Option.any_eq_true _ _).mp hterminated
  obtain ⟨⟨_, u⟩, hu⟩ := Option.isSome_iff_exists.mp hretired
  have hempty := of_ok (wp_retireProcess_emptied (p := 1) hs.settled)
    (Outcome.eq_ok_of_returned? hu)
  obtain ⟨hmapped, hroot, hhandover⟩ := not_free_of_leftOver hleft
  exact ⟨s, t, u, hs, hslot, Outcome.eq_ok_of_returned? ht, hmapped, hroot, hhandover,
    Outcome.eq_ok_of_returned? hu, hempty⟩

/-- A process that is terminated as it runs is not spent, and not reclaimed. -/
theorem terminate_reclaims_second : ∃ s t : Runtime TestBackend, Reaches (fun _ _ => True) s ∧
      (s.slot 7).map (·.object) = some (.process 1) ∧ terminateProcess 7 0 s = .ok () t ∧
      ¬ s.Spent 1 ∧ ¬ t.Reclaimed 1 := by
  obtain ⟨s, hs, hslot, hmapped, hterminated⟩ := TestBackend.exists_reaches_of_run
    (fun _ _ => True)
    (fun s => (s.slot 7).map (·.object) = some (.process 1) ∧
      (s.processes[1]?).any (fun q => q.mappings != []) = true ∧
      ((terminateProcess 7 0 s).returned?).isSome = true)
    TestBackend.twoProcesses (by decide +kernel)
  obtain ⟨⟨_, t⟩, ht⟩ := Option.isSome_iff_exists.mp hterminated
  obtain ⟨q, hq, hne⟩ := (Option.any_eq_true _ _).mp hmapped
  have hspent : ¬ s.Spent 1 := fun h => (bne_iff_ne.mp hne) (h.mappings q hq)
  have hrun := Outcome.eq_ok_of_returned? ht
  exact ⟨s, t, hs, hslot, hrun, hspent, fun h =>
    hspent ((terminate_reclaims hs hslot hrun).1 h)⟩

end Runtime

end Bexos
