/-
First fit in address regions.

`allocate_in_vmar` looks for a place from the base of a region upwards: as long as a mapping or
a child region is in the way, it goes on behind the last of them.  One turn of its loop (`Turn`)
finds its position free, or finds no room from there on, or moves on, past at least one obstacle
and over no free position.

* `allocate_first_fit` — the position found is the lowest free one, there is none if the search
  fails, and the loop is left after at most one turn more than there are obstacles;
* `empty_range_refused` — a range of size 0 is refused although there is a place for it.

Design notes: nothing is assumed of the obstacles, which may overlap each other or reach beyond
the last word.  Regions are page aligned and end in user memory in every state (`Regular`).
-/
import Mathlib.Logic.Function.Iterate
import Mathlib.Order.Bounds.Basic
import Bexos.AddressLayout
import Bexos.AddressSpaceIds

namespace Bexos

open Prog
open UInt64 (le_iff_toNat_le)

/-! ### Pages and ranges -/

theorem toNat_and_pageMask (x : UInt64) : (x &&& ~~~(PAGE - 1)).toNat = x.toNat / 4096 * 4096 := by
  have hmask : (~~~(PAGE - 1) : UInt64).toNat = (2 ^ 52 - 1) * 2 ^ 12 := by decide
  rw [UInt64.toNat_and, hmask]
  refine Nat.eq_of_testBit_eq fun i => ?_
  rw [Nat.testBit_and, show 4096 = 2 ^ 12 from rfl, Nat.testBit_mul_two_pow,
    Nat.testBit_mul_two_pow, Nat.testBit_two_pow_sub_one, Nat.testBit_div_two_pow]
  by_cases hi : 12 ≤ i
  · rw [Nat.sub_add_cancel hi]
    by_cases hword : i < 64
    · simp [hi, show i - 12 < 52 by omega]
    · have hzero : x.toNat.testBit i = false := Nat.testBit_lt_two_pow
        (Nat.lt_of_lt_of_le x.toNat_lt (Nat.pow_le_pow_right (by decide) (by omega)))
      simp [hzero]
  · simp [hi]

theorem toNat_mod_page {va} : va % PAGE = 0 ↔ va.toNat % 4096 = 0 := by
  rw [← UInt64.toNat_inj, UInt64.toNat_mod]
  rfl

/-- Rounding up leads to the first page boundary that is not below. -/
theorem pageRound_eq_some {n va} (h : pageRound n = some va) :
    va % PAGE = 0 ∧ n ≤ va ∧ ∀ b : UInt64, b % PAGE = 0 → n ≤ b → va ≤ b := by
  obtain ⟨m, hm, rfl⟩ := Option.map_eq_some_iff.mp h
  have hsum := UInt64.checkedAdd_eq_some.mp hm
  rw [show (PAGE - 1).toNat = 4095 by decide] at hsum
  simp only [toNat_mod_page, le_iff_toNat_le, toNat_and_pageMask]
  refine ⟨by omega, by omega, fun b hb hn => by omega⟩

/-- There is no page boundary above a number that cannot be rounded up. -/
theorem pageRound_eq_none {n b} (h : pageRound n = none) (hb : b % PAGE = 0) : ¬ n ≤ b := by
  have hnone := Option.map_eq_none_iff.mp h
  rw [toNat_mod_page] at hb
  rw [le_iff_toNat_le]
  intro hle
  have hlt := b.toNat_lt
  have hpage : (PAGE - 1).toNat = 4095 := by decide
  rw [UInt64.checkedAdd_of_lt (by rw [hpage]; omega)] at hnone
  cases hnone

section Ranges

variable {base len va size b : UInt64}

theorem span_lt_of_within {region} (hregion : region.last < 2 ^ 64)
    (h : (spanOf va size).Within region) : (spanOf va size).last < 2 ^ 64 :=
  Nat.lt_of_le_of_lt h.2 hregion

theorem within_iff_rangeContains (h : (spanOf base len).last < 2 ^ 64) :
    rangeContains base len va size = true ↔ (spanOf va size).Within (spanOf base len) := by
  refine ⟨within_of_rangeContains h, fun hin => ?_⟩
  have hlast : va.toNat + size.toNat < 2 ^ 64 := span_lt_of_within h hin
  unfold rangeContains
  rw [UInt64.checkedAdd_of_lt hlast, satAdd_eq_add h, Option.any_some, Bool.and_eq_true,
    decide_eq_true_eq, decide_eq_true_eq, ge_iff_le, le_iff_toNat_le,
    le_iff_toNat_le, UInt64.toNat_add_of_lt hlast, UInt64.toNat_add_of_lt h]
  exact hin

/-- The test for overlap is exact for a range that is not empty, even if the obstacle reaches
beyond the last word. -/
theorem overlaps_iff (hlast : (spanOf va size).last < 2 ^ 64) (hsize : size ≠ 0) :
    overlaps base len va size = true ↔ ¬ (spanOf base len).Disjoint (spanOf va size) := by
  have hpos : 0 < size.toNat := Nat.pos_of_ne_zero fun h => hsize (UInt64.toNat_inj.mp h)
  have hmax : va ≠ UInt64.maxValue := by
    rintro rfl
    have hword : UInt64.maxValue.toNat = 2 ^ 64 - 1 := rfl
    simp only [spanOf, Span.last, hword] at hlast
    omega
  have hbelow : va < base.satAdd len ↔ va.toNat < base.toNat + len.toNat :=
    ⟨fun h => Nat.lt_of_lt_of_le (UInt64.lt_iff_toNat_lt.mp h) (UInt64.toNat_satAdd_le _ _),
      UInt64.lt_satAdd hmax⟩
  unfold overlaps
  rw [Bool.and_eq_true, decide_eq_true_eq, decide_eq_true_eq, hbelow, satAdd_eq_add hlast,
    UInt64.lt_iff_toNat_lt, UInt64.toNat_add_of_lt hlast]
  simp only [Span.Disjoint, spanOf, Span.last]
  omega

/-- A range that is moved up stays in the way of an obstacle until it is behind it. -/
theorem not_disjoint_of_le (h : ¬ (spanOf base len).Disjoint (spanOf va size)) (hle : va ≤ b)
    (hend : b.toNat < (spanOf base len).last) :
    ¬ (spanOf base len).Disjoint (spanOf b size) := by
  rw [le_iff_toNat_le] at hle
  simp only [Span.Disjoint, spanOf, Span.last] at h hend ⊢
  omega

end Ranges

theorem countP_lt_countP {α : Type} {p q : α → Bool} {l : List α} {a : α}
    (h : ∀ x ∈ l, p x = true → q x = true) (ha : a ∈ l) (hp : ¬ p a = true)
    (hq : q a = true) : l.countP p < l.countP q := by
  obtain ⟨l₁, l₂, rfl⟩ := List.append_of_mem ha
  rw [List.countP_append, List.countP_append, List.countP_cons_of_neg hp,
    List.countP_cons_of_pos hq]
  have h₁ : l₁.countP p ≤ l₁.countP q :=
    List.countP_mono_left fun x hx => h x (List.mem_append_left _ hx)
  have h₂ : l₂.countP p ≤ l₂.countP q :=
    List.countP_mono_left fun x hx => h x (List.mem_append_right _ (List.mem_cons_of_mem _ hx))
  omega

namespace Runtime

/-! ### One turn of the search -/

section Search

variable {va size next r : UInt64} {obstacles : List (UInt64 × UInt64)} {region : Vmar}

/-- A position goes on behind the obstacles in its way, and no further than the last of them
reaches. -/
theorem passObstacles_eq_ok : ∀ {obstacles : List (UInt64 × UInt64)} {next : UInt64},
    passObstacles va size obstacles next = .ok r →
    next ≤ r ∧
      (∀ o ∈ obstacles, overlaps o.1 o.2 va size = true → (spanOf o.1 o.2).last ≤ r.toNat) ∧
      (r = next ∨ ∃ o ∈ obstacles, overlaps o.1 o.2 va size = true ∧
        (spanOf o.1 o.2).last = r.toNat)
  | [], next, h => by
    cases h
    exact ⟨UInt64.le_refl _, fun o ho => (List.not_mem_nil ho).elim, .inl rfl⟩
  | (base, len) :: rest, next, h => by
    rw [passObstacles] at h
    split at h
    · rename_i hover
      cases hlast : base.checkedAdd len with
      | none => rw [hlast] at h; cases h
      | some last =>
        rw [hlast] at h
        obtain ⟨hle, hall, hsome⟩ := passObstacles_eq_ok h
        have hspan : (spanOf base len).last = last.toNat :=
          (UInt64.checkedAdd_eq_some.mp hlast).symm
        rw [le_iff_toNat_le, UInt64.toNat_max] at hle
        refine ⟨le_iff_toNat_le.mpr (by omega),
          List.forall_mem_cons.mpr ⟨fun _ => ?_, hall⟩, ?_⟩
        · show (spanOf base len).last ≤ r.toNat
          omega
        · rcases hsome with rfl | ⟨o, ho, hover', hlast'⟩
          · by_cases hmax : last.toNat ≤ next.toNat
            · exact .inl (UInt64.toNat_inj.mp (by rw [UInt64.toNat_max, max_eq_left hmax]))
            · refine .inr ⟨(base, len), List.mem_cons_self, hover, ?_⟩
              rw [UInt64.toNat_max, max_eq_right (Nat.le_of_not_le hmax)]
              exact hspan
          · exact .inr ⟨o, List.mem_cons_of_mem _ ho, hover', hlast'⟩
    · rename_i hclear
      obtain ⟨hle, hall, hsome⟩ := passObstacles_eq_ok h
      refine ⟨hle, List.forall_mem_cons.mpr ⟨fun hover => absurd hover hclear, hall⟩, ?_⟩
      refine hsome.imp_right fun ho => ?_
      obtain ⟨o, ho, hrest⟩ := ho
      exact ⟨o, List.mem_cons_of_mem _ ho, hrest⟩

theorem passObstacles_eq_error {e} :
    ∀ {obstacles : List (UInt64 × UInt64)} {next : UInt64},
    passObstacles va size obstacles next = .error e →
    e = .errNoMemory ∧ ∃ o ∈ obstacles, overlaps o.1 o.2 va size = true ∧
      2 ^ 64 ≤ (spanOf o.1 o.2).last
  | [], next, h => by cases h
  | (base, len) :: rest, next, h => by
    rw [passObstacles] at h
    split at h
    · rename_i hover
      cases hlast : base.checkedAdd len with
      | none =>
        rw [hlast] at h
        cases h
        refine ⟨rfl, (base, len), List.mem_cons_self, hover, ?_⟩
        by_contra hlt
        rw [UInt64.checkedAdd_of_lt (Nat.lt_of_not_le hlt)] at hlast
        cases hlast
      | some last =>
        rw [hlast] at h
        obtain ⟨he, o, ho, hrest⟩ := passObstacles_eq_error h
        exact ⟨he, o, List.mem_cons_of_mem _ ho, hrest⟩
    · obtain ⟨he, o, ho, hrest⟩ := passObstacles_eq_error h
      exact ⟨he, o, List.mem_cons_of_mem _ ho, hrest⟩

/-- The page-aligned positions in a region where no obstacle is in the way. -/
def room (region : Vmar) (obstacles : List (UInt64 × UInt64)) (size : UInt64) : Set UInt64 :=
  {va | va % PAGE = 0 ∧ (spanOf va size).Within region.span ∧
    ∀ o ∈ obstacles, (spanOf o.1 o.2).Disjoint (spanOf va size)}

/-- The number of obstacles that reach beyond a position. -/
def ahead (obstacles : List (UInt64 × UInt64)) (va : UInt64) : ℕ :=
  obstacles.countP fun o => va.toNat < (spanOf o.1 o.2).last

/-- The position with which the loop of `allocate_in_vmar` goes on, if it does. -/
def nextPosition (region : Vmar) (obstacles : List (UInt64 × UInt64)) (size va : UInt64) :
    Option UInt64 :=
  if rangeContains region.base region.size va size then
    match passObstacles va size obstacles va with
    | .ok next => if next = va then none else pageRound next
    | .error _ => none
  else none

/-- What one turn of the loop does. -/
inductive Turn (region : Vmar) (obstacles : List (UInt64 × UInt64)) (size va : UInt64) : Prop
  | found (hfree : va ∈ room region obstacles size)
      (hstop : nextPosition region obstacles size va = none)
      (hresult : ∀ n, searchFree region obstacles size (n + 1) va = .ok va)
  | full (hnone : ∀ b ∈ room region obstacles size, ¬ va ≤ b)
      (hstop : nextPosition region obstacles size va = none)
      (hresult : ∀ n, searchFree region obstacles size (n + 1) va = .error .errNoMemory)
  | on (va' : UInt64) (hnext : nextPosition region obstacles size va = some va')
      (hresult : ∀ n, searchFree region obstacles size (n + 1) va =
        searchFree region obstacles size n va')
      (haligned : va' % PAGE = 0) (hle : va ≤ va')
      (hskip : ∀ b ∈ room region obstacles size, va ≤ b → va' ≤ b)
      (hpassed : ahead obstacles va' < ahead obstacles va)

/-- An obstacle in the way of a position keeps a range out of all positions before its end. -/
theorem le_of_overlaps {base len b} (hmem : (base, len) ∈ obstacles)
    (hover : ¬ (spanOf base len).Disjoint (spanOf va size)) (hb : b ∈ room region obstacles size)
    (hle : va ≤ b) : (spanOf base len).last ≤ b.toNat := by
  by_contra hlt
  exact not_disjoint_of_le hover hle (Nat.lt_of_not_le hlt) (hb.2.2 (base, len) hmem)

theorem ahead_lt {va' base len : UInt64} (hmem : (base, len) ∈ obstacles) (hle : va ≤ va')
    (hbefore : va.toNat < (spanOf base len).last) (hafter : (spanOf base len).last ≤ va'.toNat) :
    ahead obstacles va' < ahead obstacles va := by
  rw [le_iff_toNat_le] at hle
  refine countP_lt_countP (fun o _ ho => ?_) hmem ?_ ?_
  · exact decide_eq_true (Nat.lt_of_le_of_lt hle (of_decide_eq_true ho))
  · exact fun h => Nat.not_lt.mpr hafter (of_decide_eq_true h)
  · exact decide_eq_true hbefore

theorem turn (obstacles) (hregion : region.span.last < 2 ^ 64)
    (hsize : size ≠ 0) (haligned : va % PAGE = 0)
    (hbase : region.base ≤ va) : Turn region obstacles size va := by
  have hcontains : rangeContains region.base region.size va size = true ↔
      (spanOf va size).Within region.span := within_iff_rangeContains hregion
  by_cases hin : rangeContains region.base region.size va size = true
  case neg =>
    refine .full ?_ (if_neg hin) ?_
    · intro b hb hle
      refine hin (hcontains.mpr ⟨le_iff_toNat_le.mp hbase, ?_⟩)
      have hlast := hb.2.1.2
      rw [le_iff_toNat_le] at hle
      simp only [spanOf, Span.last] at hlast ⊢
      omega
    · exact fun n => if_neg hin
  have hlast := span_lt_of_within hregion (hcontains.mp hin)
  have hmeets : ∀ {o : UInt64 × UInt64}, overlaps o.1 o.2 va size = true ↔
      ¬ (spanOf o.1 o.2).Disjoint (spanOf va size) := overlaps_iff hlast hsize
  cases hpass : passObstacles va size obstacles va with
  | error e =>
    -- an obstacle reaches beyond the last word
    obtain ⟨rfl, o, ho, hover, hbeyond⟩ := passObstacles_eq_error hpass
    refine .full ?_ ?_ ?_
    · intro b hb hle
      have hend := le_of_overlaps ho (hmeets.mp hover) hb hle
      have hlt := b.toNat_lt
      omega
    · rw [nextPosition, if_pos hin, hpass]
    · intro n
      refine (if_pos hin).trans ?_
      rw [hpass]
      rfl
  | ok next =>
    obtain ⟨hle, hall, hsome⟩ := passObstacles_eq_ok hpass
    by_cases hstay : next = va
    · subst hstay
      refine .found ⟨haligned, hcontains.mp hin, ?_⟩ ?_ ?_
      · intro o ho
        by_contra hover
        exact hover (.inl (hall o ho (hmeets.mpr hover)))
      · rw [nextPosition, if_pos hin, hpass]
        exact if_pos rfl
      · intro n
        refine (if_pos hin).trans ?_
        rw [hpass]
        exact if_pos rfl
    obtain ⟨o, ho, hover, hend⟩ := hsome.resolve_left hstay
    have hskip : ∀ b ∈ room region obstacles size, va ≤ b → next ≤ b := fun b hb hle =>
      le_iff_toNat_le.mpr (hend ▸ le_of_overlaps ho (hmeets.mp hover) hb hle)
    cases hround : pageRound next with
    | none =>
      refine .full (fun b hb hle => pageRound_eq_none hround hb.1 (hskip b hb hle)) ?_ ?_
      · rw [nextPosition, if_pos hin, hpass]
        exact (if_neg hstay).trans hround
      · intro n
        refine (if_pos hin).trans ?_
        rw [hpass]
        refine (if_neg hstay).trans ?_
        rw [hround]
    | some va' =>
      obtain ⟨haligned', hup, hleast⟩ := pageRound_eq_some hround
      refine .on va' ?_ ?_ haligned' (UInt64.le_trans hle hup)
        (fun b hb hle => hleast b hb.1 (hskip b hb hle))
        (ahead_lt ho (UInt64.le_trans hle hup) ?_ (hend ▸ le_iff_toNat_le.mp hup))
      · rw [nextPosition, if_pos hin, hpass]
        exact (if_neg hstay).trans hround
      · intro n
        refine (if_pos hin).trans ?_
        rw [hpass]
        refine (if_neg hstay).trans ?_
        rw [hround]
      · have hne : va.toNat ≠ next.toNat := fun h => hstay (UInt64.toNat_inj.mp h.symm)
        rw [le_iff_toNat_le] at hle
        omega

/-! ### The whole search -/

/-- The search from a position finds the lowest free position from there on, if there is one. -/
theorem searchFree_spec (hregion : region.span.last < 2 ^ 64) (hsize : size ≠ 0) :
    ∀ {rounds : ℕ} {va : UInt64}, va % PAGE = 0 → region.base ≤ va →
      ahead obstacles va < rounds →
      (∃ r, IsLeast {b ∈ room region obstacles size | va ≤ b} r ∧
          searchFree region obstacles size rounds va = .ok r) ∨
        {b ∈ room region obstacles size | va ≤ b} = ∅ ∧
          searchFree region obstacles size rounds va = .error .errNoMemory
  | 0, _, _, _, h => absurd h (Nat.not_lt_zero _)
  | rounds + 1, va, haligned, hbase, hahead => by
    cases turn obstacles hregion hsize haligned hbase with
    | found hfree _ hresult =>
      exact .inl ⟨va, ⟨⟨hfree, UInt64.le_refl _⟩, fun b hb => hb.2⟩, hresult rounds⟩
    | full hnone _ hresult =>
      exact .inr ⟨Set.eq_empty_of_forall_notMem fun b hb => hnone b hb.1 hb.2, hresult rounds⟩
    | on va' _ hresult haligned' hle hskip hpassed =>
      have hsame : {b ∈ room region obstacles size | va ≤ b} =
          {b ∈ room region obstacles size | va' ≤ b} :=
        Set.ext fun b => and_congr_right fun hb =>
          ⟨fun h => hskip b hb h, fun h => UInt64.le_trans hle h⟩
      rw [hsame, hresult rounds]
      exact searchFree_spec hregion hsize haligned' (UInt64.le_trans hbase hle) (by omega)

/-- The loop is left after at most one turn more than there are obstacles ahead. -/
theorem iterate_nextPosition (hregion : region.span.last < 2 ^ 64) (hsize : size ≠ 0) :
    ∀ {rounds : ℕ} {va : UInt64}, va % PAGE = 0 → region.base ≤ va →
      ahead obstacles va < rounds →
      (fun o => o.bind (nextPosition region obstacles size))^[rounds] (some va) = none
  | 0, _, _, _, h => absurd h (Nat.not_lt_zero _)
  | rounds + 1, va, haligned, hbase, hahead => by
    have hnone : (fun o => o.bind (nextPosition region obstacles size))^[rounds] none = none :=
      Function.iterate_fixed rfl rounds
    rw [Function.iterate_succ_apply, Option.bind_some]
    cases turn obstacles hregion hsize haligned hbase with
    | found _ hstop _ | full _ hstop _ => rw [hstop, hnone]
    | on va' hnext _ haligned' hle _ hpassed =>
      rw [hnext]
      exact iterate_nextPosition hregion hsize haligned' (UInt64.le_trans hbase hle) (by omega)

end Search

end Runtime

/-! ### Regions in every state -/

/-- Does an operation make or destroy regions? -/
def Op.zones {B : Type} : Op B → Bool
  | .insertVmar .. | .createSubVmar .. | .destroyVmar .. | .createProcessWithPolicy ..
  | .createProcessInJob .. => true
  | _ => false

/-- The process for which `insert_vmar` is called. -/
def Op.zoneOwner {B : Type} : Op B → Option ℕ
  | .insertVmar owner .. => some owner
  | _ => none

namespace Runtime

variable {B : Type}

/-- `insert_vmar` is called for a process that exists, as its callers in the kernel do. -/
def OwnerExists (s : Runtime B) (op : Op B) : Prop :=
  ∀ owner ∈ op.zoneOwner, owner < s.processes.length
  deriving Decidable

/-- Every region is page aligned, ends in user memory and belongs to one of `n` processes. -/
def Regular (n : ℕ) (s : Runtime B) : Prop :=
  ∀ v, some v ∈ s.vmars → v.base % PAGE = 0 ∧ v.span.last ≤ USER_END.toNat ∧ v.owner < n

/-- The parts of the state other than the regions and the processes there are. -/
abbrev offRegions : List Part :=
  [.handover, .dirty, .reclaim, .backend, .layout, .life, .space, .jobs, .current, .threadLife,
    .threadRun, .threadContext, .vmos, .vmarRefs, .handles, .channels, .sockets, .profiles,
    .scheduler, .pins, .iommuDomains, .dmaMappings, .interrupts, .counters]

variable {s t : Runtime B} {n : ℕ} {op : Op B}

theorem length_of_touches {F} (h : Touches F s t) (hF : Part.population ∉ F) :
    t.processes.length = s.processes.length := by
  simpa using congrArg List.length (h .population hF).1

theorem Regular.mono {m} (hs : s.Regular n) (h : n ≤ m) : s.Regular m :=
  fun v hv => ⟨(hs v hv).1, (hs v hv).2.1, Nat.lt_of_lt_of_le (hs v hv).2.2 h⟩

theorem Regular.of_touches (hs : s.Regular n) (h : Touches offRegions s t) : t.Regular n := by
  intro v hv
  have hmem : some v.region ∈ t.vmars.map (Option.map Vmar.region) :=
    List.mem_map.mpr ⟨some v, hv, rfl⟩
  rw [show t.vmars.map (Option.map Vmar.region) = s.vmars.map (Option.map Vmar.region) from
    h .regions (by decide)] at hmem
  obtain ⟨w, hw, heq⟩ := List.mem_map.mp hmem
  obtain ⟨w, rfl, hregion⟩ := Option.map_eq_some_iff.mp heq
  have hregular : w.region.base % PAGE = 0 ∧ w.region.span.last ≤ USER_END.toNat ∧
      w.region.owner < n := hs w hw
  rw [hregion] at hregular
  exact hregular

variable [Backend B]

theorem wp_insertVmar_regular (hs : s.Regular n) {owner} (howner : owner < n)
    (parent base size rights) :
    ends (insertVmar owner parent base size rights)
      (fun t => t.Regular n ∧ t.processes.length = s.processes.length) s := by
  simp only [insertVmar, wp_bind, wp_check]
  refine ⟨fun haligned => ⟨fun hrange => ?_, fun _ => ⟨hs, trivial⟩⟩, fun _ => ⟨hs, trivial⟩⟩
  refine wp_of_moves (R := Touches offRegions) (fun _ t ht => ?_) fun _ _ ht =>
    ⟨hs.of_touches ht, length_of_touches ht (by decide)⟩
  simp only [changed, wp_bind, wp_get, wp_modify, wp_pure]
  refine ⟨fun v hv => ?_, length_of_touches ht (by decide)⟩
  rcases List.mem_append.mp hv with hold | hnew
  · exact hs.of_touches ht v hold
  · obtain rfl := Option.some.inj (List.mem_singleton.mp hnew)
    rw [not_or, not_or, not_not, not_not] at haligned
    exact ⟨haligned.2.2, last_le_of_not_endsAbove (not_or.mp hrange).1, howner⟩

set_option synthInstance.maxSize 100000 in
/-- The operations that neither make nor destroy regions. -/
theorem regions_exec (hop : op.zones = false) : Moves (Touches offRegions) (exec op) := by
  cases op <;> first
    | exact Bool.noConfusion hop
    | (unfold exec; infer_instance)

omit [Backend B] in
theorem regular_of_touches {α : Type} (n) {x : RtM B α} (h : Moves (Touches offRegions) x) :
    Moves (Keeps (Regular n)) x :=
  h.mono fun _ _ ht hs => hs.of_touches ht

omit [Backend B] in
theorem regular_modifyVmar (n id) : Moves (Keeps (Regular n))
    (modify (modifyVmar id fun v => { v with destroyed := true }) : RtM B Unit) := by
  refine .modify fun s hs v hv => ?_
  obtain ⟨i, hi⟩ := List.mem_iff_getElem?.mp hv
  rw [modifyVmar, List.getElem?_modify] at hi
  obtain ⟨w, hw, heq⟩ := Option.map_eq_some_iff.mp hi
  have hmem := List.mem_of_getElem? hw
  split at heq
  · obtain ⟨x, rfl, hx⟩ := Option.map_eq_some_iff.mp heq
    subst hx
    exact hs x hmem
  · subst heq
    exact hs v hmem

set_option synthInstance.maxSize 100000 in
theorem regular_destroyVmar (n vmar) :
    Moves (Keeps (Regular n)) (destroyVmar vmar : RtM B Unit) := by
  have hkill : ∀ id, Moves (Keeps (Regular n)) (do
      modify (modifyVmar id fun v => { v with destroyed := true })
      changed .vmar id : RtM B Unit) := fun id =>
    .andThen (regular_modifyVmar n id) fun _ => regular_of_touches n inferInstance
  unfold destroyVmar
  refine .andThen (regular_of_touches n inferInstance) fun c =>
    .andThen (regular_of_touches n inferInstance) fun vmarId =>
    .andThen (regular_of_touches n inferInstance) fun s =>
    .andThen (regular_of_touches n inferInstance) fun _ =>
    .andThen (regular_of_touches n inferInstance) fun region => ?_
  exact .andThen (regular_of_touches n inferInstance) fun p =>
    .andThen (regular_of_touches n inferInstance) fun _ =>
    .next fun _ => regular_of_touches n inferInstance

/-- A child region belongs to the process of its parent. -/
theorem regular_createSubVmar (n parent : ℕ) (offset size : UInt64) (flags : UInt32) :
    Moves (Keeps (Regular n)) (createSubVmar parent offset size flags : RtM B (ℕ × UInt64)) := by
  refine .of_keeps fun s hs => ?_
  unfold ends createSubVmar
  rw [wp_bind]
  refine wp_cap (fun c _ => ?_) fun _ => hs
  simp only [wp_bind, wp_some?, wp_get, wp_lift, hs, implies_true, and_true]
  intro q _ v hv base _ mapRights _
  have howner := (hs v (List.mem_of_getElem? (Option.join_eq_some_iff.mp hv))).2.2
  refine wp_mono (wp_insertVmar_regular hs howner _ _ _ _) (fun id t ht => ?_) fun _ _ ht => ht.1
  exact wp_of_moves (R := Touches offRegions) (fun _ _ hu => ht.1.of_touches hu)
    fun _ _ hu => ht.1.of_touches hu

/-- Every region belongs to a process. -/
def Zoned (s : Runtime B) : Prop := s.Regular s.processes.length

omit [Backend B] in
theorem Zoned.of_touches (hs : s.Zoned) (h : Touches offRegions s t) : t.Zoned := by
  unfold Zoned
  rw [length_of_touches h (by decide)]
  exact Regular.of_touches hs h

set_option synthInstance.maxSize 100000 in
/-- A new process has a root region and, in it, a heap region. -/
theorem zoned_createProcess {name package hardware group realtime job} (hs : s.Zoned) :
    ends (createProcessWithFixedPolicy name package hardware group realtime job) Zoned s := by
  simp only [createProcessWithFixedPolicy, wp_bind, wp_get, wp_check]
  refine ⟨fun _ => ?_, fun _ => hs⟩
  refine wp_of_moves (R := Touches offRegions) (fun root t ht => ?_) fun _ _ ht =>
    hs.of_touches ht
  simp only [allocateAsid, wp_bind, wp_get, wp_some?, wp_modify, wp_pure]
  refine ⟨fun p _ => ?_, fun _ => hs.of_touches ht⟩
  -- the root region comes before its process
  have hlen := length_of_touches ht (by decide)
  have hroom : ({ t with asids := p.2 } : Runtime B).Regular (s.processes.length + 1) :=
    (Regular.of_touches hs ht).mono (Nat.le_succ _)
  refine wp_mono (wp_and (wp_insertVmar_regular hroom (Nat.lt_succ_self _) none _ _ _)
    (wp_insertVmar_root (R := Touches offPopulation) (Q := fun _ _ => True)
      (E := fun _ _ => False) fun _ _ _ => trivial)) (fun rootVmar u hu => ?_) fun _ _ h => h.2.elim
  obtain ⟨⟨hregular, hcount⟩, -⟩ := hu
  have hcount : u.processes.length = s.processes.length := hcount.trans hlen
  have hpushed : ∀ q : Process, ({ u with processes := u.processes ++ [q] } : Runtime B).Zoned := by
    intro q
    unfold Zoned
    rw [List.length_append, hcount]
    exact hregular
  have hnew : ∀ q : Process, s.processes.length < (u.processes ++ [q]).length := by
    intro q
    rw [List.length_append, hcount]
    exact Nat.lt_succ_self _
  have hzoned : ∀ {q : Process} {v : Runtime B}, v.Regular (u.processes ++ [q]).length ∧
      v.processes.length = (u.processes ++ [q]).length → v.Zoned := by
    intro q v hv
    unfold Zoned
    rw [hv.2]
    exact hv.1
  rw [wp_bind, wp_modify, wp_bind]
  refine wp_mono (wp_insertVmar_regular (hpushed _) (hnew _) _ _ _ _) (fun heapVmar v hv => ?_)
    fun _ _ hv => hzoned hv
  exact wp_of_moves (R := Touches offRegions) (fun _ _ hw => (hzoned hv).of_touches hw)
    fun _ _ hw => (hzoned hv).of_touches hw

theorem zoned_exec (hs : s.Zoned) (hop : s.OwnerExists op) :
    ends (exec op) Zoned s := by
  cases hpopulates : op.populates with
  | true => exact keeps_of_populates hpopulates hs fun _ _ _ _ _ _ => zoned_createProcess hs
  | false =>
    have hregular : ends (exec op) (fun t => t.Regular s.processes.length) s := by
      cases op with
      | createProcessWithPolicy | createProcessInJob => cases hpopulates
      | insertVmar owner parent base size rights =>
        unfold ends exec discard
        rw [wp_bind]
        exact wp_mono (wp_insertVmar_regular hs (hop owner rfl) _ _ _ _)
          (fun _ _ ht => (wp_pure _).mpr ht.1) fun _ _ ht => ht.1
      | createSubVmar parent offset size flags =>
        unfold exec discard
        exact (Moves.andThen (regular_createSubVmar _ parent offset size flags) fun _ =>
          inferInstance).keep hs
      | destroyVmar vmar => exact (regular_destroyVmar _ vmar).keep hs
      | _ => exact (regular_of_touches _ (regions_exec rfl)).keep hs
    refine wp_mono (wp_and hregular ((numbered_exec hpopulates).run s)) (fun _ t ht => ?_)
      fun _ t ht => ?_
    all_goals
      unfold Zoned
      rw [length_of_touches ht.2 (by decide)]
      exact ht.1

theorem zoned_of_reaches (h : Reaches OwnerExists s) : s.Zoned := by
  refine h.invariant (fun backend cpuCount support => ?_) fun _ _ hs hop => zoned_exec hs hop
  intro v hv
  have hempty : (withCpuCount backend cpuCount support).vmars = [] := by
    unfold withCpuCount
    split <;> rfl
  rw [hempty] at hv
  cases hv

/-! ### Allocation -/

omit [Backend B] in
/-- What may be in the way in a region: the mappings of its process, and its live children. -/
def obstacles (s : Runtime B) (vmarId : ℕ) (region : Vmar) : List (UInt64 × UInt64) :=
  (s.mappingsOf region.owner).map (fun m => (m.va, m.size)) ++
    (s.liveChildren vmarId).map fun v => (v.base, v.size)

/-- The page-aligned positions in a region where a range meets no mapping of the region's
process and no live child of the region. -/
def freeBases (s : Runtime B) (vmarId : ℕ) (region : Vmar) (size : UInt64) : Set UInt64 :=
  {va | va % PAGE = 0 ∧ (spanOf va size).Within region.span ∧
    (∀ m ∈ s.mappingsOf region.owner, m.span.Disjoint (spanOf va size)) ∧
    ∀ c ∈ s.liveChildren vmarId, c.span.Disjoint (spanOf va size)}

/-- **Placement in a region is complete first fit.** For a range that is not empty the region's
process exists, the loop ends, and its result is the lowest free position, or that there is
none. -/
theorem allocate_first_fit {s : Runtime B} (hs : Reaches OwnerExists s) {vmarId : ℕ} {v : Vmar}
    (hv : s.vmar vmarId = some v) {size : UInt64} (hsize : size ≠ 0) (hpages : size % PAGE = 0) :
    (s.processes[v.owner]?).isSome ∧
      (fun o => o.bind (nextPosition v (s.obstacles vmarId v) size))^[
        (s.obstacles vmarId v).length + 1] (some v.base) = none ∧
      ((∃ va, IsLeast (s.freeBases vmarId v size) va ∧ s.allocateInVmar vmarId size = .ok va) ∨
        s.freeBases vmarId v size = ∅ ∧ s.allocateInVmar vmarId size = .error .errNoMemory) := by
  obtain ⟨haligned, hend, howner⟩ :=
    zoned_of_reaches hs v (List.mem_of_getElem? (Option.join_eq_some_iff.mp hv))
  have hlast : v.span.last < 2 ^ 64 := Nat.lt_of_le_of_lt hend USER_END.toNat_lt
  have hahead : ahead (s.obstacles vmarId v) v.base < (s.obstacles vmarId v).length + 1 :=
    Nat.lt_succ_of_le List.countP_le_length
  have hroom : {b ∈ room v (s.obstacles vmarId v) size | v.base ≤ b} =
      s.freeBases vmarId v size := by
    ext b
    simp only [room, freeBases, obstacles, List.forall_mem_append, List.forall_mem_map,
      Set.mem_ofPred_eq]
    exact ⟨fun h => h.1, fun h => ⟨h, le_iff_toNat_le.mpr h.2.1.1⟩⟩
  have hsearch : s.allocateInVmar vmarId size =
      searchFree v (s.obstacles vmarId v) size ((s.obstacles vmarId v).length + 1) v.base := by
    unfold allocateInVmar
    rw [hv]
    exact if_neg (not_or.mpr ⟨hsize, not_not.mpr hpages⟩)
  refine ⟨by rw [List.getElem?_eq_getElem howner]; rfl,
    iterate_nextPosition hlast hsize haligned (UInt64.le_refl _) hahead, ?_⟩
  rw [hsearch, ← hroom]
  exact searchFree_spec hlast hsize haligned (UInt64.le_refl _) hahead

open TestBackend in
/-- A page is placed behind the two pages that are mapped. -/
theorem third_page_placed : ∃ (t : Runtime TestBackend) (v : Vmar), Reaches OwnerExists t ∧
    t.vmar 0 = some v ∧ v.destroyed = false ∧
      IsLeast (t.freeBases 0 v 0x1000) 0x80002000 ∧
      t.allocateInVmar 0 0x1000 = .ok 0x80002000 := by
  obtain ⟨t, ht, v, hv, hlive, hfound⟩ := exists_reaches_of_run OwnerExists
    (fun t => ∃ v ∈ t.vmar 0, v.destroyed = false ∧
      (t.allocateInVmar 0 0x1000).toOption = some 0x80002000) twoProcesses (by decide +kernel)
  refine ⟨t, v, ht, hv, hlive, ?_⟩
  obtain ⟨-, -, ⟨va, hleast, hva⟩ | ⟨-, hnone⟩⟩ :=
    allocate_first_fit ht hv (show (0x1000 : UInt64) ≠ 0 by decide) (by decide)
  · rw [hva] at hfound
    obtain rfl := Option.some.inj hfound
    exact ⟨hleast, hva⟩
  · rw [hnone] at hfound
    cases hfound

open TestBackend in
/-- A range of size 0 has a place in the heap region of a process, but is refused. -/
theorem empty_range_refused : ∃ (t : Runtime TestBackend) (v : Vmar), Reaches OwnerExists t ∧
    t.vmar 1 = some v ∧ v.destroyed = false ∧ (0 : UInt64) % PAGE = 0 ∧
      IsLeast (t.freeBases 1 v 0) v.base ∧ t.allocateInVmar 1 0 = .error .errInvalidArgs := by
  obtain ⟨t, ht, v, hv, hlive, hfree⟩ := exists_reaches_of_run OwnerExists
    (fun t => ∃ v ∈ t.vmar 1, v.destroyed = false ∧ v.base % PAGE = 0 ∧
      (∀ m ∈ t.mappingsOf v.owner, m.span.Disjoint (spanOf v.base 0)) ∧
      ∀ c ∈ t.liveChildren 1, c.span.Disjoint (spanOf v.base 0)) twoProcesses (by decide +kernel)
  refine ⟨t, v, ht, hv, hlive, rfl, ⟨⟨hfree.1, ⟨Nat.le_refl _, Nat.le_add_right _ _⟩, hfree.2⟩,
    fun b hb => le_iff_toNat_le.mpr hb.2.1.1⟩, ?_⟩
  unfold allocateInVmar
  rw [hv]
  exact if_pos (.inl rfl)

end Runtime

end Bexos
