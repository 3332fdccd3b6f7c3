/-
The layout of address spaces.

`Spaces` is the part of the runtime that says where memory is mapped: the table of regions,
the layout of each process, and the handover that is being prepared.  `Spaces.Ok` is the
layout invariant: regions lie in their parents and clear of their siblings, mappings lie in
the live region they name, clear of each other and of its live children, rights do not grow,
and nothing is writable and executable at once.

The operations change `Spaces` in few ways (a new region, a new process, another list of
mappings, dead regions, another handover); each way has one lemma that keeps `Spaces.Ok`.

* `Runtime.LayoutOk` — the invariant, read off the tables of the runtime;
* `layout_ok_of_reaches` — it holds in every state of every run in which no handover is
  committed whose preserved mappings cover a live child of the target's root region;
* `layout_broken_by_commit` — a run whose last step is such a commit.

Design notes: the invariant covers exited processes too, since a handover may be committed to
one.  A root region has no parent and cannot be destroyed.
-/
import Bexos.RuntimeOps
import Bexos.Spans

namespace Bexos

open Prog
open List (any_eq_true mem_singleton)
open Option (map_eq_some_iff map_some some_inj)

/-! ### Spaces -/

def Mapping.span (m : Mapping) : Span := spanOf m.va m.size

def Vmar.span (v : Vmar) : Span := spanOf v.base v.size

def Vmar.kill (v : Vmar) : Vmar := { v with destroyed := true }

/-- The rights that a mapping can carry. -/
def ACCESS : UInt32 := READ ||| WRITE ||| EXECUTE

/-- No access beyond the rights of another. -/
def AccessWithin (rights above : UInt32) : Prop := rights &&& ACCESS &&& ~~~above = 0

/-- Where memory is mapped. -/
structure Spaces where
  regions : List (Option Vmar)
  layouts : List Layout
  handover : Option Handover

namespace Spaces

variable {pid : ℕ} {v : Vmar} {l l' : Layout}

def region (a : Spaces) (id : ℕ) : Option Vmar := (a.regions[id]?).join

/-- A mapping of a process lies in the live region it names, with no more access, clear of
the region's live children, and is not writable and executable at once. -/
structure Placed (a : Spaces) (pid : ℕ) (m : Mapping) : Prop where
  aligned : m.va % PAGE = 0 ∧ m.size % PAGE = 0
  inside : ∃ v, a.region m.vmar = some v ∧ v.owner = pid ∧ v.destroyed = false ∧
    m.span.Within v.span ∧ AccessWithin m.rights v.rights
  clear : ∀ id c, a.region id = some c → c.parent = some m.vmar → c.destroyed = false →
    m.span.Disjoint c.span
  exclusive : m.rights &&& (WRITE ||| EXECUTE) ≠ WRITE ||| EXECUTE

/-- The mappings that a handover prepares can be placed in an empty root region. -/
structure Prepared (arch : Arch) (a : Spaces) (h : Handover) : Prop where
  aligned : ∀ m ∈ h.mappings, m.va % PAGE = 0 ∧ m.size % PAGE = 0
  bounds : ∀ m ∈ h.mappings, arch.userStart.toNat ≤ m.va.toNat ∧ m.span.last ≤ USER_END.toNat
  exclusive : ∀ m ∈ h.mappings, m.rights &&& (WRITE ||| EXECUTE) ≠ WRITE ||| EXECUTE
  inRoot : ∀ m ∈ h.mappings, ∃ l, a.layouts[h.target]? = some l ∧ m.vmar = l.rootVmar
  disjoint : h.mappings.Pairwise fun m n => m.span.Disjoint n.span

/-- A region covers the whole of user memory with all access, and has no parent. -/
structure IsRoot (arch : Arch) (pid : ℕ) (v : Vmar) : Prop where
  owner : v.owner = pid
  parent : v.parent = none
  live : v.destroyed = false
  base : v.base.toNat = arch.userStart.toNat
  last : v.span.last = USER_END.toNat
  rights : ACCESS &&& ~~~v.rights = 0

/-- The region that a new process gets. -/
theorem isRoot_new (arch : Arch) (pid : ℕ) :
    IsRoot arch pid ⟨pid, none, arch.userStart, USER_END - arch.userStart,
      READ ||| WRITE ||| EXECUTE ||| MAP ||| ADMIN, 0, false⟩ := by
  refine ⟨rfl, rfl, rfl, rfl, ?_, ?_⟩
  · show (spanOf arch.userStart (USER_END - arch.userStart)).last = USER_END.toNat
    cases arch <;> decide
  · show ACCESS &&& ~~~(READ ||| WRITE ||| EXECUTE ||| MAP ||| ADMIN) = 0
    decide

/-- The layout invariant. -/
structure Ok (arch : Arch) (a : Spaces) : Prop where
  bounds : ∀ id v, a.region id = some v →
    arch.userStart.toNat ≤ v.base.toNat ∧ v.span.last ≤ USER_END.toNat
  nested : ∀ id v q, a.region id = some v → v.parent = some q →
    ∃ w, a.region q = some w ∧ w.owner = v.owner ∧ v.span.Within w.span ∧
      AccessWithin v.rights w.rights
  siblings : ∀ i j v w q, i ≠ j → a.region i = some v → a.region j = some w →
    v.parent = some q → w.parent = some q → v.destroyed = false → w.destroyed = false →
    v.span.Disjoint w.span
  root : ∀ (pid : ℕ) (l : Layout), a.layouts[pid]? = some l →
    ∃ v, a.region l.rootVmar = some v ∧ IsRoot arch pid v
  placed : ∀ (pid : ℕ) (l : Layout), a.layouts[pid]? = some l → ∀ m ∈ l.mappings, a.Placed pid m
  disjoint : ∀ (pid : ℕ) (l : Layout), a.layouts[pid]? = some l →
    l.mappings.Pairwise fun m n => m.span.Disjoint n.span
  prepared : ∀ h, a.handover = some h → a.Prepared arch h

variable {arch : Arch} {a : Spaces}

theorem Ok.region_lt (h : a.Ok arch) {id} (hv : a.region id = some v) : v.span.last < 2 ^ 64 := by
  have hend : USER_END.toNat < 2 ^ 64 := USER_END.toNat_lt
  have hb := (h.bounds id v hv).2
  omega

variable {m : Mapping}

theorem Ok.mapping_lt (h : a.Ok arch) (hl : a.layouts[pid]? = some l) (hm : m ∈ l.mappings) :
    m.span.last < 2 ^ 64 := by
  obtain ⟨v, hv, -, -, hin, -⟩ := (h.placed pid l hl m hm).inside
  have hb := h.region_lt hv
  have hlast := hin.2
  omega

/-! ### Changing spaces -/

/-- A mapping does not notice that regions which are not its own, nor live children of it,
change. -/
theorem Placed.mono {b : Spaces} (h : a.Placed pid m)
    (hregion : ∀ v, a.region m.vmar = some v → v.destroyed = false → b.region m.vmar = some v)
    (hclear : ∀ id c, b.region id = some c → c.parent = some m.vmar → c.destroyed = false →
      a.region id = some c ∨ m.span.Disjoint c.span) : b.Placed pid m := by
  obtain ⟨v, hv, howner, hlive, hin, haccess⟩ := h.inside
  refine ⟨h.aligned, ⟨v, hregion v hv hlive, howner, hlive, hin, haccess⟩, ?_, h.exclusive⟩
  intro id c hc hparent hlive'
  rcases hclear id c hc hparent hlive' with hold | hnew
  · exact h.clear id c hold hparent hlive'
  · exact hnew

/-- A prepared handover only sees where the root region of its target is. -/
theorem Prepared.mono {b : Spaces} {o : Handover} (h : a.Prepared arch o)
    (hroot : ∀ l, a.layouts[o.target]? = some l →
      ∃ l', b.layouts[o.target]? = some l' ∧ l.rootVmar = l'.rootVmar) : b.Prepared arch o := by
  refine { h with inRoot := fun m hm => ?_ }
  obtain ⟨l, hl, hvmar⟩ := h.inRoot m hm
  obtain ⟨l', hl', heq⟩ := hroot l hl
  exact ⟨l', hl', hvmar.trans heq⟩

def addRegion (v : Vmar) (a : Spaces) : Spaces := { a with regions := a.regions ++ [some v] }

theorem region_addRegion (v id) :
    (a.addRegion v).region id = if id = a.regions.length then some v else a.region id := by
  unfold region addRegion
  rw [getElem?_concat]
  split <;> rfl

/-- Where a new region may go. -/
structure Fits (arch : Arch) (a : Spaces) (v : Vmar) : Prop where
  bounds : arch.userStart.toNat ≤ v.base.toNat ∧ v.span.last ≤ USER_END.toNat
  nested : ∀ q, v.parent = some q → ∃ w, a.region q = some w ∧ w.owner = v.owner ∧
    v.span.Within w.span ∧ AccessWithin v.rights w.rights
  siblings : ∀ i w q, a.region i = some w → w.parent = some q → v.parent = some q →
    w.destroyed = false → w.span.Disjoint v.span
  mappings : ∀ (pid : ℕ) (l : Layout), a.layouts[pid]? = some l → ∀ m ∈ l.mappings,
    v.parent = some m.vmar → m.span.Disjoint v.span

/-- A new region that fits keeps the invariant. -/
theorem Ok.addRegion (h : a.Ok arch) (hv : a.Fits arch v) : (a.addRegion v).Ok arch := by
  have hold : ∀ {id w}, a.region id = some w → (a.addRegion v).region id = some w := by
    intro id w hw
    rw [region_addRegion, if_neg, hw]
    rintro rfl
    simp [region] at hw
  have hcases : ∀ {id w}, (a.addRegion v).region id = some w →
      (id = a.regions.length ∧ v = w) ∨ (id ≠ a.regions.length ∧ a.region id = some w) := by
    intro id w hw
    rw [region_addRegion] at hw
    split at hw
    · exact .inl ⟨‹_›, Option.some.inj hw⟩
    · exact .inr ⟨‹_›, hw⟩
  constructor
  case bounds =>
    intro id w hw
    rcases hcases hw with ⟨-, rfl⟩ | ⟨-, hw⟩
    · exact hv.bounds
    · exact h.bounds id w hw
  case nested =>
    intro id w q hw hq
    rcases hcases hw with ⟨-, rfl⟩ | ⟨-, hw⟩
    · obtain ⟨x, hx, hrest⟩ := hv.nested q hq
      exact ⟨x, hold hx, hrest⟩
    · obtain ⟨x, hx, hrest⟩ := h.nested id w q hw hq
      exact ⟨x, hold hx, hrest⟩
  case siblings =>
    intro i j w x q hij hw hx hpw hpx hlw hlx
    rcases hcases hw with ⟨hi, rfl⟩ | ⟨-, hw⟩ <;> rcases hcases hx with ⟨hj, rfl⟩ | ⟨-, hx⟩
    · exact absurd (hi.trans hj.symm) hij
    · exact (hv.siblings j x q hx hpx hpw hlx).symm
    · exact hv.siblings i w q hw hpw hpx hlw
    · exact h.siblings i j w x q hij hw hx hpw hpx hlw hlx
  case root =>
    intro pid l hl
    obtain ⟨w, hw, hroot⟩ := h.root pid l hl
    exact ⟨w, hold hw, hroot⟩
  case placed =>
    intro pid l hl m hm
    refine (h.placed pid l hl m hm).mono (fun w hw _ => hold hw) fun id c hc hparent _ => ?_
    rcases hcases hc with ⟨-, rfl⟩ | ⟨-, hc⟩
    · exact .inr (hv.mappings pid l hl m hm hparent)
    · exact .inl hc
  case disjoint => exact h.disjoint
  case prepared => exact fun o ho => (h.prepared o ho).mono fun l hl => ⟨l, hl, rfl⟩

/-- Another layout of a process keeps the invariant if its mappings are placed and apart. -/
theorem Ok.setLayout (h : a.Ok arch) (hl : a.layouts[pid]? = some l)
    (hroot : l'.rootVmar = l.rootVmar) (hplaced : ∀ m ∈ l'.mappings, a.Placed pid m)
    (hdisjoint : l'.mappings.Pairwise fun m n => m.span.Disjoint n.span) :
    ({ a with layouts := a.layouts.set pid l' } : Spaces).Ok arch := by
  refine ⟨h.bounds, h.nested, h.siblings, ?_, ?_, ?_, ?_⟩
  · intro i k hk
    rcases of_getElem?_set hk with ⟨rfl, rfl⟩ | ⟨-, hk⟩
    · rw [hroot]
      exact h.root i l hl
    · exact h.root i k hk
  · intro i k hk m hm
    rcases of_getElem?_set hk with ⟨rfl, rfl⟩ | ⟨-, hk⟩
    · exact { hplaced m hm with }
    · exact { h.placed i k hk m hm with }
  · intro i k hk
    rcases of_getElem?_set hk with ⟨-, rfl⟩ | ⟨-, hk⟩
    · exact hdisjoint
    · exact h.disjoint i k hk
  · refine fun o ho => (h.prepared o ho).mono fun k hk => ?_
    by_cases hi : pid = o.target
    · subst hi
      rw [hl, some_inj] at hk
      exact ⟨l', List.getElem?_set_self (getElem?_eq_some_iff.mp hl).1, hk ▸ hroot.symm⟩
    · exact ⟨k, (List.getElem?_set_ne hi).trans hk, rfl⟩

/-- A new process keeps the invariant if it has a root region and no mappings. -/
theorem Ok.addLayout (h : a.Ok arch) (hv : a.region l.rootVmar = some v)
    (hroot : IsRoot arch a.layouts.length v) (hempty : l.mappings = []) :
    ({ a with layouts := a.layouts ++ [l] } : Spaces).Ok arch := by
  refine ⟨h.bounds, h.nested, h.siblings, ?_, ?_, ?_, ?_⟩
  · intro i k hk
    rcases of_getElem?_concat hk with ⟨rfl, rfl⟩ | hk
    · exact ⟨v, hv, hroot⟩
    · exact h.root i k hk
  · intro i k hk m hm
    rcases of_getElem?_concat hk with ⟨rfl, rfl⟩ | hk
    · rw [hempty] at hm
      cases hm
    · exact { h.placed i k hk m hm with }
  · intro i k hk
    rcases of_getElem?_concat hk with ⟨-, rfl⟩ | hk
    · rw [hempty]
      exact List.Pairwise.nil
    · exact h.disjoint i k hk
  · exact fun o ho => (h.prepared o ho).mono fun k hk =>
      ⟨k, (List.getElem?_append_left (getElem?_eq_some_iff.mp hk).1).trans hk, rfl⟩

/-- Another handover keeps the invariant if its mappings are prepared. -/
theorem Ok.setHandover (h : a.Ok arch) (o : Option Handover)
    (ho : ∀ o', o = some o' → a.Prepared arch o') :
    ({ a with handover := o } : Spaces).Ok arch := by
  refine { h with placed := ?_, prepared := ?_ }
  · intro i k hk m hm
    exact { h.placed i k hk m hm with }
  · exact fun o' ho' => (ho o' ho').mono fun l hl => ⟨l, hl, rfl⟩

/-- Mark regions as destroyed. -/
def kill (ids : List ℕ) (a : Spaces) : Spaces :=
  { a with regions := a.regions.mapIdx fun id v => if id ∈ ids then v.map Vmar.kill else v }

theorem region_kill (ids id) : (a.kill ids).region id =
      if id ∈ ids then (a.region id).map Vmar.kill else a.region id := by
  unfold region kill
  rw [List.getElem?_mapIdx]
  cases a.regions[id]? with
  | none => simp
  | some v => by_cases hid : id ∈ ids <;> simp [hid]

theorem kill_nil : a.kill [] = a := by
  have hregions : (a.kill []).regions = a.regions := by
    refine List.ext_getElem? fun i => ?_
    simp [kill]
  exact congrArg (fun r => { a with regions := r }) hregions

theorem kill_kill (ids id) : (a.kill ids).kill [id] = a.kill (ids ++ [id]) := by
  have hregions : (a.kill ids |>.kill [id]).regions = (a.kill (ids ++ [id])).regions := by
    refine List.ext_getElem? fun i => ?_
    simp only [kill, List.getElem?_mapIdx, List.mem_append, mem_singleton]
    cases a.regions[i]? with
    | none => rfl
    | some v =>
      by_cases hi : i = id
      · subst hi
        cases v <;> by_cases hids : i ∈ ids <;> simp [hids, Vmar.kill]
      · simp [hi]
  exact congrArg (fun r => { a with regions := r }) hregions

variable {ids : List ℕ}

/-- A region of the table with dead regions has the record it had, or is dead. -/
theorem of_region_kill {id} (hv : (a.kill ids).region id = some v) :
    ∃ w, a.region id = some w ∧ v.span = w.span ∧ v.parent = w.parent ∧ v.owner = w.owner ∧
      v.rights = w.rights ∧ (v.destroyed = false → id ∉ ids ∧ v = w) := by
  rw [region_kill] at hv
  split at hv
  · obtain ⟨w, hw, rfl⟩ := map_eq_some_iff.mp hv
    exact ⟨w, hw, rfl, rfl, rfl, rfl, fun hlive => by cases hlive⟩
  · exact ⟨v, hv, rfl, rfl, rfl, rfl, fun _ => ⟨‹_›, rfl⟩⟩

/-- The death of regions that have parents and no mappings keeps the invariant. -/
theorem Ok.kill (h : a.Ok arch) (hchild : ∀ id ∈ ids, ∀ v, a.region id = some v → v.parent ≠ none)
    (hfree : ∀ (pid : ℕ) (l : Layout), a.layouts[pid]? = some l →
      ∀ m ∈ l.mappings, m.vmar ∉ ids) : (a.kill ids).Ok arch := by
  have hkept : ∀ {id v}, id ∉ ids → a.region id = some v → (a.kill ids).region id = some v := by
    intro id v hid hv
    rw [region_kill, if_neg hid, hv]
  constructor
  case bounds =>
    intro id v hv
    obtain ⟨w, hw, hspan, -⟩ := of_region_kill hv
    have hb := h.bounds id w hw
    have hbase : v.base.toNat = w.base.toNat := congrArg Span.base hspan
    exact ⟨hbase ▸ hb.1, hspan ▸ hb.2⟩
  case nested =>
    intro id v q hv hq
    obtain ⟨w, hw, hspan, hparent, howner, hrights, -⟩ := of_region_kill hv
    obtain ⟨x, hx, hown, hin, haccess⟩ := h.nested id w q hw (hparent ▸ hq)
    rw [hspan, howner, hrights]
    by_cases hmem : q ∈ ids
    · refine ⟨x.kill, ?_, hown, hin, haccess⟩
      rw [region_kill, if_pos hmem, hx, map_some]
    · exact ⟨x, hkept hmem hx, hown, hin, haccess⟩
  case siblings =>
    intro i j v w q hij hv hw hpv hpw hlv hlw
    obtain ⟨v', hv', -, -, -, -, hsame⟩ := of_region_kill hv
    obtain ⟨w', hw', -, -, -, -, hsame'⟩ := of_region_kill hw
    obtain ⟨-, rfl⟩ := hsame hlv
    obtain ⟨-, rfl⟩ := hsame' hlw
    exact h.siblings i j v w q hij hv' hw' hpv hpw hlv hlw
  case root =>
    intro pid l hl
    obtain ⟨v, hv, hroot⟩ := h.root pid l hl
    exact ⟨v, hkept (fun hid => hchild _ hid v hv hroot.parent) hv, hroot⟩
  case placed =>
    intro pid l hl m hm
    refine (h.placed pid l hl m hm).mono (fun v hv _ => hkept (hfree pid l hl m hm) hv) ?_
    intro id c hc _ hlive
    obtain ⟨c', hc', -, -, -, -, hsame⟩ := of_region_kill hc
    obtain ⟨-, rfl⟩ := hsame hlive
    exact .inl hc'
  case disjoint => exact h.disjoint
  case prepared => exact fun o ho => (h.prepared o ho).mono fun l hl => ⟨l, hl, rfl⟩

/-- A new mapping, placed and clear of the others, keeps the invariant. -/
theorem Ok.addMapping (h : a.Ok arch) (hl : a.layouts[pid]? = some l)
    (hroot : l'.rootVmar = l.rootVmar) (hmappings : l'.mappings = l.mappings ++ [m])
    (hplaced : a.Placed pid m) (hapart : ∀ n ∈ l.mappings, n.span.Disjoint m.span) :
    ({ a with layouts := a.layouts.set pid l' } : Spaces).Ok arch := by
  refine h.setLayout hl hroot ?_ ?_
  · intro n hn
    rw [hmappings, List.mem_append, mem_singleton] at hn
    rcases hn with hn | rfl
    · exact h.placed pid l hl n hn
    · exact hplaced
  · rw [hmappings, List.pairwise_append]
    refine ⟨h.disjoint pid l hl, List.pairwise_singleton _ _, fun n hn x hx => ?_⟩
    rw [mem_singleton] at hx
    exact hx ▸ hapart n hn

/-- Fewer mappings keep the invariant. -/
theorem Ok.dropMappings (h : a.Ok arch) (hl : a.layouts[pid]? = some l)
    (hroot : l'.rootVmar = l.rootVmar) (hsub : l'.mappings.Subperm l.mappings) :
    ({ a with layouts := a.layouts.set pid l' } : Spaces).Ok arch := by
  refine h.setLayout hl hroot (fun m hm => h.placed pid l hl m (hsub.subset hm)) ?_
  obtain ⟨ms, hperm, hsublist⟩ := hsub
  exact ((h.disjoint pid l hl).sublist hsublist).perm hperm Span.Disjoint.symm

end Spaces

/-! ### The tests on words -/

section Tests

variable {base size base' size' limit : UInt64}

theorem last_le_of_not_endsAbove (h : ¬ endsAbove base size limit = true) :
    (spanOf base size).last ≤ limit.toNat := by
  unfold endsAbove at h
  cases hsum : base.checkedAdd size with
  | none => simp [hsum] at h
  | some last =>
    rw [hsum, Option.all_some, decide_eq_true_eq, gt_iff_lt, UInt64.lt_iff_toNat_lt,
      UInt64.checkedAdd_eq_some.mp hsum, Nat.not_lt] at h
    exact h

theorem within_of_rangeContains (hlast : (spanOf base size).last < 2 ^ 64)
    (h : rangeContains base size base' size' = true) :
    (spanOf base' size').Within (spanOf base size) := by
  unfold rangeContains at h
  rw [Bool.and_eq_true, decide_eq_true_eq, ge_iff_le, UInt64.le_iff_toNat_le,
    satAdd_eq_add hlast] at h
  obtain ⟨hbase, hsum⟩ := h
  cases hchild : base'.checkedAdd size' with
  | none => simp [hchild] at hsum
  | some last =>
    rw [hchild, Option.any_some, decide_eq_true_eq, UInt64.le_iff_toNat_le,
      UInt64.checkedAdd_eq_some.mp hchild, UInt64.toNat_add_of_lt hlast] at hsum
    exact ⟨hbase, hsum⟩

theorem disjoint_of_not_overlaps (hlast : (spanOf base size).last < 2 ^ 64)
    (hlast' : (spanOf base' size').last < 2 ^ 64) (h : ¬ overlaps base size base' size' = true) :
    (spanOf base size).Disjoint (spanOf base' size') := by
  unfold overlaps at h
  rw [satAdd_eq_add hlast, satAdd_eq_add hlast', Bool.and_eq_true, decide_eq_true_eq,
    decide_eq_true_eq] at h
  exact (disjoint_iff_not_lt hlast hlast').mpr h

theorem accessWithin_of_child {rights above}
    (h : rights &&& ~~~(above ||| TRANSFER ||| ADMIN) = 0) : AccessWithin rights above := by
  have hrest : ACCESS &&& ~~~(TRANSFER ||| ADMIN) = ACCESS := by decide
  rw [UInt32.or_assoc, UInt32.not_or] at h
  unfold AccessWithin
  calc rights &&& ACCESS &&& ~~~above
      = rights &&& (ACCESS &&& ~~~(TRANSFER ||| ADMIN)) &&& ~~~above := by rw [hrest]
    _ = rights &&& (~~~above &&& ~~~(TRANSFER ||| ADMIN)) &&& ACCESS := by ac_rfl
    _ = 0 := by rw [h, UInt32.zero_and]

end Tests

namespace Runtime

/-! ### The spaces of a runtime -/

section Views

variable {B : Type} {s : Runtime B}

def spaces (s : Runtime B) : Spaces :=
  ⟨s.vmars.map (Option.map Vmar.region), s.processes.map Process.layout, s.handover⟩

theorem region_spaces (s : Runtime B) (id : ℕ) :
    s.spaces.region id = (s.vmar id).map Vmar.region := by
  unfold Spaces.region spaces vmar
  rw [List.getElem?_map]
  cases s.vmars[id]? <;> rfl

theorem layouts_spaces (s : Runtime B) (pid : ℕ) :
    s.spaces.layouts[pid]? = (s.processes[pid]?).map Process.layout :=
  List.getElem?_map

theorem region_of_vmar {id v} (h : s.vmar id = some v) : s.spaces.region id = some v.region := by
  rw [region_spaces, h, map_some]

variable {p : Process}

theorem layout_of_process {pid : ℕ} (h : s.processes[pid]? = some p) :
    s.spaces.layouts[pid]? = some p.layout := by
  rw [layouts_spaces, h, map_some]

/-- The parts of the state that do not say where memory is mapped. -/
abbrev offLayout : List Part :=
  [.dirty, .reclaim, .backend, .life, .space, .population, .jobs, .current, .threadLife,
    .threadRun, .threadContext, .vmos, .vmarRefs, .handles, .channels, .sockets, .profiles,
    .scheduler, .pins, .iommuDomains, .dmaMappings, .interrupts, .counters]

theorem spaces_of_touches {t} (h : Touches offLayout s t) : t.spaces = s.spaces := by
  have hregions := h .regions (by decide)
  have hlayouts := h .layout (by decide)
  have hhandover := h .handover (by decide)
  simp only [Same] at hregions hlayouts hhandover
  unfold spaces
  rw [hregions, hlayouts, hhandover]

theorem spaces_modifyProcess {pid} (f : Process → Process) (hp : s.processes[pid]? = some p) :
    (modifyProcess pid f s).spaces =
      { s.spaces with layouts := s.spaces.layouts.set pid (f p).layout } := by
  unfold modifyProcess
  rw [modify_eq_set_of_getElem? f hp]
  simp only [spaces, List.map_set]

theorem spaces_modifyVmar (s : Runtime B) (id : ℕ) :
    (modifyVmar id (fun v => { v with destroyed := true }) s).spaces = s.spaces.kill [id] := by
  have hregions : (s.vmars.modify id (Option.map Vmar.kill)).map (Option.map Vmar.region) =
      (s.spaces.kill [id]).regions := by
    refine List.ext_getElem? fun i => ?_
    simp only [Spaces.kill, spaces, List.getElem?_mapIdx, List.getElem?_map,
      List.getElem?_modify, mem_singleton]
    cases s.vmars[i]? with
    | none => rfl
    | some v => cases v <;> by_cases hi : id = i <;> simp [hi, eq_comm, Vmar.kill, Vmar.region]
  exact congrArg (fun r => { s.spaces with regions := r }) hregions

/-- What holds of a region and passes to children holds of the regions below it. -/
theorem forall_mem_subtreeFrom {P : ℕ → Prop} (hchild : ∀ q, P q → ∀ id ∈ s.childIds q, P id) :
    ∀ (rounds index : ℕ) (ids : List ℕ), (∀ id ∈ ids, P id) →
      ∀ id ∈ s.subtreeFrom rounds index ids, P id := by
  intro rounds
  induction rounds with
  | zero => intro index ids hids; exact hids
  | succ rounds ih =>
    intro index ids hids
    unfold subtreeFrom
    cases hq : ids[index]? with
    | none => exact hids
    | some q =>
      refine ih (index + 1) _ fun id hid => ?_
      rcases List.mem_append.mp hid with hold | hnew
      · exact hids id hold
      · exact hchild q (hids q (List.mem_of_getElem? hq)) id hnew

theorem subset_subtreeFrom :
    ∀ (rounds index : ℕ) (ids : List ℕ), ids ⊆ s.subtreeFrom rounds index ids := by
  intro rounds
  induction rounds with
  | zero => intro index ids; exact fun _ h => h
  | succ rounds ih =>
    intro index ids
    unfold subtreeFrom
    cases ids[index]? with
    | none => exact fun _ h => h
    | some q => exact fun id hid => ih (index + 1) _ (List.mem_append_left _ hid)

theorem mem_liveChildren {id q v} (hv : s.spaces.region id = some v) (hparent : v.parent = some q)
    (hlive : v.destroyed = false) : ∃ w ∈ s.liveChildren q, w.base = v.base ∧ w.size = v.size := by
  rw [region_spaces] at hv
  obtain ⟨w, hw, rfl⟩ := map_eq_some_iff.mp hv
  refine ⟨w, ?_, rfl, rfl⟩
  have hmem : some w ∈ s.vmars := List.mem_of_getElem? (Option.join_eq_some_iff.mp hw)
  have hp : w.parent = some q := hparent
  have hl : w.destroyed = false := hlive
  unfold liveChildren
  rw [List.mem_filter, List.mem_filterMap]
  exact ⟨⟨some w, hmem, rfl⟩, by simp [hp, hl]⟩

/-- Go past a program that leaves the layout alone. -/
theorem wp_aside {α : Type} {x} [Moves (Touches offLayout) x] {Q : α → Runtime B → Prop}
    {E : Status → Runtime B → Prop} (hQ : ∀ a t, t.spaces = s.spaces → Q a t)
    (hE : ∀ e t, t.spaces = s.spaces → E e t) : wp x Q E s :=
  wp_of_moves (fun a t ht => hQ a t (spaces_of_touches ht))
    fun e t ht => hE e t (spaces_of_touches ht)

end Views

variable {B : Type} [Backend B] {s : Runtime B} {h : Handover} {rights : UInt32}

/-- The layout invariant of a runtime. -/
def Laid (s : Runtime B) : Prop := s.spaces.Ok (Backend.arch B)

/-- What leaves the layout alone keeps the invariant. -/
instance : Covers (B := B) (Keeps Laid) offLayout where
  le _ _ hst hs := by
    unfold Laid at hs ⊢
    rw [spaces_of_touches hst]
    exact hs

/-! ### New regions -/

variable {E : Status → Runtime B → Prop} {Q : Unit → Runtime B → Prop} {owner pid : ℕ}
  {parent : Option ℕ} {size va : UInt64} {f : Process → Process} {m : Mapping} {a : Spaces}

/-- The checks on the parent of a new region. -/
theorem wp_checkVmarParent (hs : s.Laid) {base : UInt64}
    (hbounds : (Backend.arch B).userStart.toNat ≤ base.toNat ∧
      (spanOf base size).last ≤ USER_END.toNat)
    (hQ : s.spaces.Fits (Backend.arch B) ⟨owner, parent, base, size, rights, 0, false⟩ → Q () s)
    (hE : ∀ e, E e s) : wp (checkVmarParent owner base size rights parent) Q E s := by
  cases parent with
  | none =>
    rw [checkVmarParent, wp_pure]
    refine hQ ⟨hbounds, ?_, ?_, ?_⟩
    · intro q hq; cases hq
    · intro i w q _ _ hq; cases hq
    · intro pid l _ m _ hq; cases hq
  | some q =>
    have hlast : (spanOf base size).last < 2 ^ 64 := by
      have := USER_END.toNat_lt
      omega
    simp only [checkVmarParent, wp_bind, wp_get, wp_some?, wp_check, wp_unwrap, hE, implies_true,
      and_true]
    refine fun w hw hok hchildren p hp hmappings => hQ ?_
    rw [not_or, not_or, not_or, not_not, not_not, not_not] at hok
    obtain ⟨howner, -, hrights, hcontains⟩ := hok
    have hregion := region_of_vmar hw
    refine ⟨hbounds, ?_, ?_, ?_⟩
    · rintro _ ⟨⟩
      exact ⟨w.region, hregion, howner,
        within_of_rangeContains (hs.region_lt hregion) hcontains, accessWithin_of_child hrights⟩
    · rintro i x _ hx hparent ⟨⟩ hlive
      obtain ⟨c, hc, hbase, hsize⟩ := mem_liveChildren hx hparent hlive
      have hclear : ¬ overlaps c.base c.size base size = true := fun ho =>
        hchildren (any_eq_true.mpr ⟨c, hc, ho⟩)
      rw [hbase, hsize] at hclear
      exact disjoint_of_not_overlaps (hs.region_lt hx) hlast hclear
    · rintro pid l hl m hm ⟨⟩
      -- the mapping names the parent, so it belongs to the owner of the parent
      obtain ⟨x, hx, hpid, -⟩ := (hs.placed pid l hl m hm).inside
      rw [hregion, some_inj] at hx
      subst hx
      have hpid' : owner = pid := howner.symm.trans hpid
      subst hpid'
      have hlm := hl
      rw [layouts_spaces, hp, map_some, some_inj] at hl
      subst hl
      have hclear : ¬ overlaps m.va m.size base size = true := fun ho =>
        hmappings (any_eq_true.mpr ⟨m, hm, ho⟩)
      exact disjoint_of_not_overlaps (hs.mapping_lt hlm hm) hlast hclear

theorem wp_insertVmar (hs : s.Laid) {base : UInt64} {Q : ℕ → Runtime B → Prop}
    (hQ : ∀ t : Runtime B,
      t.spaces = s.spaces.addRegion ⟨owner, parent, base, size, rights, 0, false⟩ →
      t.Laid → Q s.spaces.regions.length t) (hE : ∀ e, E e s) :
    wp (insertVmar owner parent base size rights) Q E s := by
  simp only [insertVmar, wp_bind, wp_check]
  refine ⟨fun _ => ⟨fun hrange => ?_, fun _ => hE _⟩, fun _ => hE _⟩
  rw [not_or, UInt64.lt_iff_toNat_lt, Nat.not_lt] at hrange
  refine wp_checkVmarParent hs ⟨hrange.2, last_le_of_not_endsAbove hrange.1⟩ (fun hfits => ?_) hE
  have hspaces : ∀ d, ({ s with
      dirty := d
      vmars := s.vmars ++
        [some { owner, parent, base, size, rights, refs := 0, destroyed := false }] } :
      Runtime B).spaces = s.spaces.addRegion ⟨owner, parent, base, size, rights, 0, false⟩ := by
    intro d
    simp only [spaces, Spaces.addRegion, List.map_append, List.map_cons, List.map_nil,
      map_some, Vmar.region]
  have hlen : s.spaces.regions.length = s.vmars.length := List.length_map _
  simp only [changed, wp_bind, wp_get, wp_modify, wp_pure, ← hlen]
  refine hQ _ (hspaces _) ?_
  unfold Laid
  rw [hspaces]
  exact hs.addRegion hfits

instance (owner parent base size rights) :
    Moves (Keeps Laid) (insertVmar owner parent base size rights : RtM B ℕ) :=
  .of_keeps fun _ hs => wp_insertVmar hs (fun _ _ ht => ht) fun _ => hs

/-! ### New mappings -/

/-- The checks of `map_at` find a free place. -/
theorem wp_checkPlacement (hs : s.Laid) {vmarId id : ℕ} {offset : UInt64}
    {Q : Vmo × UInt64 × UInt64 → Runtime B → Prop}
    (hshape : mappingShapeOk offset size rights = true)
    (hQ : ∀ r l, s.spaces.layouts[pid]? = some l →
      s.spaces.Placed pid ⟨id, vmarId, offset, va, size, rights⟩ →
      (∀ n ∈ l.mappings, n.span.Disjoint (spanOf va size)) → Q r s) (hE : ∀ e, E e s) :
    wp (checkPlacement pid vmarId id offset size va rights) Q E s := by
  simp only [checkPlacement, wp_bind, wp_get, wp_some?, wp_check, wp_unwrap, wp_pure, hE,
    implies_true, and_true]
  intro w hw hin haccess v _ _ p hp _ last hsum hva hmappings hchildren _
  rw [not_or, not_or, not_not, not_not] at hin
  obtain ⟨howner, hlive, hcontains⟩ := hin
  rw [not_or, not_or, not_not] at hva
  simp only [mappingShapeOk, Bool.and_eq_true, beq_iff_eq, bne_iff_ne] at hshape
  obtain ⟨⟨⟨⟨-, hexclusive⟩, -⟩, haligned⟩, -⟩ := hshape
  have hregion := region_of_vmar hw
  have hlayout := layout_of_process hp
  have hlast : (spanOf va size).last < 2 ^ 64 := by
    have hsum' := UInt64.checkedAdd_eq_some.mp hsum
    have hlt := last.toNat_lt
    simp only [spanOf, Span.last]
    omega
  refine hQ _ p.layout hlayout ⟨⟨hva.2.2, haligned⟩, ⟨w.region, hregion, howner, ?_,
    within_of_rangeContains (hs.region_lt hregion) hcontains, ?_⟩, ?_, hexclusive⟩ ?_
  · exact Bool.not_eq_true _ ▸ hlive
  · unfold AccessWithin ACCESS
    rw [← haccess]
    show rights &&& (READ ||| WRITE ||| EXECUTE) &&& ~~~w.rights = _
    ac_rfl
  · intro i c hc hparent hdead
    obtain ⟨x, hx, hbase, hsize⟩ := mem_liveChildren hc hparent hdead
    have hclear : ¬ overlaps x.base x.size va size = true := fun ho =>
      hchildren (any_eq_true.mpr ⟨x, hx, ho⟩)
    rw [hbase, hsize] at hclear
    exact (disjoint_of_not_overlaps (hs.region_lt hc) hlast hclear).symm
  · intro n hn
    have hnlast := hs.mapping_lt hlayout hn
    refine ((disjoint_iff_not_lt hlast hnlast).mpr fun hover => ?_).symm
    have hsum' : last = va + size := by
      rw [← UInt64.toNat_inj, UInt64.checkedAdd_eq_some.mp hsum, UInt64.toNat_add_of_lt hlast]
    refine hmappings (any_eq_true.mpr ⟨n, hn, ?_⟩)
    rw [hsum', Bool.and_eq_true, decide_eq_true_eq, decide_eq_true_eq]
    exact hover

theorem laid_of_spaces {t : Runtime B} (hs : s.Laid) (ht : t.spaces = s.spaces) : t.Laid := by
  unfold Laid
  rw [ht]
  exact hs

theorem Laid.past {α β : Type} {x : RtM B α} [Moves (Touches offLayout) x] {k : α → RtM B β}
    (hs : s.Laid) (h : ∀ a t, t.spaces = s.spaces → t.Laid → ends (k a) Laid t) :
    ends (x >>= k) Laid s := by
  unfold ends
  rw [wp_bind]
  exact wp_aside (fun a t ht => h a t ht (laid_of_spaces hs ht)) fun _ _ ht => laid_of_spaces hs ht

variable {p : Process}

theorem laid_modifyProcess (hp : s.processes[pid]? = some p)
    (h : ({ s.spaces with layouts := s.spaces.layouts.set pid (f p).layout } : Spaces).Ok
      (Backend.arch B)) : (modifyProcess pid f s).Laid := by
  unfold Laid
  rw [spaces_modifyProcess f hp]
  exact h

theorem wp_recordMapping (hs : s.Laid) {last l} (hl : s.spaces.layouts[pid]? = some l)
    (hplaced : s.spaces.Placed pid m) (hapart : ∀ n ∈ l.mappings, n.span.Disjoint m.span) :
    ends (recordMapping pid m last) Laid s := by
  refine hs.past fun _ t ht hst => hst.past fun _ u hu hsu => ?_
  rw [hu.trans ht |>.symm] at hl hplaced
  obtain ⟨p, hp, rfl⟩ := map_eq_some_iff.mp (layouts_spaces u pid ▸ hl)
  unfold ends
  rw [wp_bind, wp_modify]
  exact Moves.keep inferInstance
    (laid_modifyProcess hp (hsu.addMapping hl rfl rfl hplaced hapart))

instance (pid vmarId h offset size va rights) :
    Moves (Keeps Laid) (mapAt pid vmarId h offset size va rights : RtM B UInt64) := by
  refine .of_keeps fun s hs => ?_
  refine hs.past fun id t _ hst => ?_
  unfold ends
  rw [wp_bind, wp_check]
  refine ⟨fun hshape => ?_, fun _ => hst⟩
  rw [wp_bind]
  refine wp_checkPlacement hst hshape (fun r l hl hplaced hapart => ?_) fun _ => hst
  obtain ⟨v, root, last⟩ := r
  dsimp only
  -- mapping the pages leaves the place free
  refine hst.past fun _ u hu hsu => hsu.past fun _ v hv hsv => ?_
  rw [← hv.trans hu] at hl hplaced
  unfold ends
  rw [wp_bind_pure]
  exact wp_recordMapping hsv hl hplaced hapart

/-! ### Removing mappings and regions -/

/-- One mapping goes, of one of the regions asked for. -/
theorem wp_unmapMatching (hs : s.Laid) {vmars : List ℕ}
    (hQ : ∀ (t : Runtime B) (l l' : Layout) (m : Mapping), s.spaces.layouts[pid]? = some l →
      l.mappings.Perm (m :: l'.mappings) → vmars = [] ∨ m.vmar ∈ vmars →
      t.spaces = { s.spaces with layouts := s.spaces.layouts.set pid l' } → t.Laid → Q () t)
    (hE : ∀ e t, t.Laid → E e t) : wp (unmapMatching pid vmars va size) Q E s := by
  simp only [unmapMatching, wp_bind, wp_get, wp_unwrap, wp_some?, wp_modify]
  refine fun p hp => ⟨fun i hi m hm => ?_, fun _ => hE _ _ hs⟩
  have hl := layout_of_process hp
  have hperm := swapRemove_perm hm
  have hmember : vmars = [] ∨ m.vmar ∈ vmars := by
    obtain ⟨hlt, hfound, -⟩ := List.findIdx?_eq_some_iff_getElem.mp hi
    rw [(getElem?_eq_some_iff.mp hm).2] at hfound
    simp only [Bool.and_eq_true, Bool.or_eq_true, List.isEmpty_iff, decide_eq_true_eq] at hfound
    exact hfound.2
  have hlaid : (modifyProcess pid (fun p : Process =>
      { p with
        mappings := swapRemove p.mappings i
        nextVa := if (m.va.satAdd m.size).satAdd PAGE = p.nextVa then m.va else p.nextVa })
      s).Laid :=
    laid_modifyProcess hp (hs.dropMappings hl rfl
      ((List.sublist_cons_self _ _).subperm.trans hperm.symm.subperm))
  refine wp_aside (fun _ t ht => ?_) fun _ _ ht => hE _ _ (laid_of_spaces hlaid ht)
  rw [wp_bind]
  refine wp_aside (fun _ u hu => ?_) fun _ _ hu => hE _ _ (laid_of_spaces hlaid (hu.trans ht))
  refine wp_aside (fun _ w hw => ?_) fun _ _ hw =>
    hE _ _ (laid_of_spaces hlaid (hw.trans (hu.trans ht)))
  have hspaces := hw.trans (hu.trans ht)
  refine hQ w _ _ m hl ?_ hmember (hspaces.trans (spaces_modifyProcess _ hp))
    (laid_of_spaces hlaid hspaces)
  exact hperm

instance (pid vmars va size) : Moves (Keeps Laid) (unmapMatching pid vmars va size : RtM B Unit) :=
  .of_keeps fun _ hs => wp_unmapMatching hs (fun _ _ _ _ _ _ _ _ ht => ht) fun _ _ ht => ht

/-- The regions below a region that has a parent have parents too, and the same owner. -/
theorem owner_of_mem_vmarSubtree (hs : s.Laid) {root v} (hv : s.spaces.region root = some v)
    (hparent : v.parent ≠ none) {id} (hid : id ∈ s.vmarSubtree root) :
    ∃ w, s.spaces.region id = some w ∧ w.owner = v.owner ∧ w.parent ≠ none := by
  refine forall_mem_subtreeFrom (P := fun id => ∃ w, s.spaces.region id = some w ∧
    w.owner = v.owner ∧ w.parent ≠ none) ?_ _ _ _ ?_ id hid
  · rintro q ⟨w, hw, howner, -⟩ i hi
    simp only [childIds, List.mem_filter, Option.any_eq_true, Bool.and_eq_true,
      beq_iff_eq] at hi
    obtain ⟨-, x, hx, hparent, -⟩ := hi
    have hregion := region_of_vmar hx
    obtain ⟨y, hy, hown, -⟩ := hs.nested i x.region q hregion hparent
    rw [hw, some_inj] at hy
    subst hy
    refine ⟨x.region, hregion, hown.symm.trans howner, ?_⟩
    show x.parent ≠ none
    rw [hparent]
    exact Option.some_ne_none q
  · intro i hi
    rw [mem_singleton] at hi
    exact hi ▸ ⟨v, hv, rfl, hparent⟩

omit [Backend B] in
/-- Marking regions one by one is marking them all. -/
theorem wp_markDead {s ids} {Q : Unit → Runtime B → Prop} {E : Status → Runtime B → Prop}
    (hQ : ∀ t : Runtime B, t.spaces = s.spaces.kill ids → Q () t) :
    wp (forEach ids fun id => do
      modify (modifyVmar id fun v => { v with destroyed := true })
      changed .vmar id) Q E s := by
  refine wp_forEach
    (fun rest t => ∃ done, ids = done ++ rest ∧ t.spaces = s.spaces.kill done) ?_ ?_ ids s ?_
  · rintro id rest t ⟨done, hids, ht⟩
    simp only [changed, wp_bind, wp_modify]
    refine ⟨done ++ [id], by rw [hids, List.append_assoc, List.singleton_append], ?_⟩
    refine (spaces_modifyVmar t id).trans ?_
    rw [ht, Spaces.kill_kill]
  · rintro t ⟨done, hids, ht⟩
    rw [List.append_nil] at hids
    exact hQ t (hids ▸ ht)
  · exact ⟨[], rfl, Spaces.kill_nil.symm⟩

/-- Unmapping every mapping of some regions of a process leaves none. -/
theorem wp_unmapRegions (hs : s.Laid) {ids : List ℕ} {l : Layout} (hne : ids ≠ [])
    (hl : s.spaces.layouts[owner]? = some l)
    (hQ : ∀ (t : Runtime B) (l' : Layout), t.Laid → t.spaces.regions = s.spaces.regions →
      t.spaces.layouts[owner]? = some l' → (∀ m ∈ l'.mappings, m.vmar ∉ ids) → Q () t)
    (hE : ∀ e t, t.Laid → E e t) :
    wp (forEach (l.mappings.filter (·.vmar ∈ ids)) fun m =>
      unmapMatching owner ids m.va m.size) Q E s := by
  -- each round removes one mapping of the regions, and there are as many as rounds
  refine wp_forEach (fun rest t => t.Laid ∧ t.spaces.regions = s.spaces.regions ∧
    ∃ l' : Layout, t.spaces.layouts[owner]? = some l' ∧
      l'.mappings.countP (·.vmar ∈ ids) = rest.length) ?_ ?_ _ s ⟨hs, rfl, l, hl, ?_⟩
  · rintro m rest t ⟨ht, hregions, k, hk, hcount⟩
    refine wp_unmapMatching ht (fun u k' l' n hk' hperm hn hu hlaid => ?_) hE
    rw [hk, some_inj] at hk'
    subst hk'
    refine ⟨hlaid, by rw [hu]; exact hregions, l', ?_, ?_⟩
    · rw [hu]
      exact List.getElem?_set_self (getElem?_eq_some_iff.mp hk).1
    · have hmem : n.vmar ∈ ids := hn.resolve_left hne
      rw [hperm.countP_eq, List.countP_cons_of_pos (by simpa using hmem),
        List.length_cons] at hcount
      exact Nat.succ.inj hcount
  · rintro t ⟨ht, hregions, l', hl', hcount⟩
    refine hQ t l' ht hregions hl' fun m hm hmem => ?_
    exact List.countP_eq_zero.mp hcount m hm (by simpa using hmem)
  · exact List.countP_eq_length_filter

instance (vmar) : Moves (Keeps Laid) (destroyVmar vmar : RtM B Unit) := by
  refine .of_keeps fun s hs => ?_
  refine hs.past fun c t _ hst => ?_
  simp only [wp_bind, wp_some?, wp_get, wp_check, wp_unwrap]
  refine ⟨fun vmarId _ => ⟨fun hchild => ⟨fun region hregion p hp => ?_, fun _ => hst⟩,
    fun _ => hst⟩, fun _ => hst⟩
  have hv := region_of_vmar hregion
  have hparent : region.region.parent ≠ none := by
    intro hnone
    exact hchild (by rw [hregion, Option.any_some]; exact Option.isNone_iff_eq_none.mpr hnone)
  have hl := layout_of_process hp
  have hne : t.vmarSubtree vmarId ≠ [] :=
    List.ne_nil_of_mem (subset_subtreeFrom _ _ _ (List.mem_singleton_self vmarId))
  have hbelow := fun {id : ℕ} (hid : id ∈ t.vmarSubtree vmarId) =>
    owner_of_mem_vmarSubtree hst hv hparent hid
  refine wp_unmapRegions hst hne hl (fun u l hu hregions hlayout hfree => ?_) fun _ _ ht => ht
  have hsame : ∀ id, u.spaces.region id = t.spaces.region id := fun id => by
    unfold Spaces.region
    rw [hregions]
  rw [wp_bind]
  refine wp_markDead fun w hw => ?_
  have hdead : w.Laid := by
    unfold Laid
    rw [hw]
    refine hu.kill (fun id hid v hvid => ?_) fun pid k hk m hm hid => ?_
    · obtain ⟨x, hx, -, hxparent⟩ := hbelow hid
      rw [hsame, hx, some_inj] at hvid
      exact hvid ▸ hxparent
    · -- a mapping of these regions would belong to their owner, who has none left
      obtain ⟨x, hx, howner, -⟩ := hbelow hid
      obtain ⟨y, hy, hpid, -⟩ := (hu.placed pid k hk m hm).inside
      rw [hsame, hx, some_inj] at hy
      subst hy
      have hpid' : pid = region.owner := hpid.symm.trans howner
      subst hpid'
      rw [hlayout, some_inj] at hk
      exact hfree m (hk ▸ hm) hid
  exact Moves.keep inferInstance hdead

/-! ### Processes -/

theorem laid_dropMappings (id : ℕ) (hroot : ∀ p, (f p).rootVmar = p.rootVmar)
    (hsub : ∀ p, (f p).mappings.Subperm p.mappings) :
    Moves (Keeps Laid) (modify (modifyProcess id f) : RtM B Unit) := by
  refine .of_keeps fun s hs => ?_
  unfold ends
  rw [wp_modify]
  cases hp : s.processes[id]? with
  | none =>
    have hnone : s.processes.length ≤ id := List.getElem?_eq_none_iff.mp hp
    unfold modifyProcess
    rw [List.modify_eq_self hnone]
    exact hs
  | some p =>
    have hl := layout_of_process hp
    exact laid_modifyProcess hp (hs.dropMappings hl (hroot p) (hsub p))

instance (id) : Moves (Keeps Laid)
    (modify (modifyProcess id fun p => { p with mappings := [] }) : RtM B Unit) :=
  laid_dropMappings id (fun _ => rfl) fun _ => List.nil_subperm

instance (id heap) : Moves (Keeps Laid)
    (modify (modifyProcess id fun p => { p with heapVmar := heap }) : RtM B Unit) :=
  laid_dropMappings id (fun _ => rfl) fun _ => List.Subperm.refl _

set_option synthInstance.maxSize 100000 in
instance (id) : Moves (Keeps Laid) (retireResources id : RtM B Unit) := by
  unfold retireResources
  infer_instance

set_option synthInstance.maxSize 100000 in
instance (name package hardware group realtime job) :
    Moves (Keeps Laid)
      (createProcessWithFixedPolicy name package hardware group realtime job :
        RtM B (ℕ × ℕ)) := by
  refine .of_keeps fun s hs => ?_
  simp only [createProcessWithFixedPolicy, wp_bind, wp_get, wp_check]
  refine ⟨fun _ => ?_, fun _ => hs⟩
  refine wp_aside (fun root t ht => ?_) fun _ _ ht => laid_of_spaces hs ht
  rw [wp_bind]
  refine wp_aside (fun asid u hu => ?_) fun _ _ hu => laid_of_spaces hs (hu.trans ht)
  have hsu := laid_of_spaces hs (hu.trans ht)
  have hlen : s.processes.length = u.spaces.layouts.length := by
    rw [hu.trans ht]
    exact (List.length_map _).symm
  rw [wp_bind]
  refine wp_insertVmar hsu ?_ fun _ => hsu
  intro w hw hlaid
  rw [wp_bind, wp_modify]
  -- the new process has the new region for its root
  have hregion := Spaces.region_addRegion (a := u.spaces)
    ⟨s.processes.length, none, (Backend.arch B).userStart,
      USER_END - (Backend.arch B).userStart, READ ||| WRITE ||| EXECUTE ||| MAP ||| ADMIN, 0,
      false⟩ u.spaces.regions.length
  rw [if_pos rfl, ← hw] at hregion
  have hnew : ({ w with
      processes := w.processes ++ [w.newProcess name package hardware group realtime job root
        asid u.spaces.regions.length] } : Runtime B).Laid := by
    have hadd := hlaid.addLayout (l := (w.newProcess name package hardware group realtime job
      root asid u.spaces.regions.length).layout) hregion ?_ rfl
    · unfold Laid
      simp only [spaces, List.map_append, List.map_cons, List.map_nil]
      exact hadd
    · have hlayouts : w.spaces.layouts = u.spaces.layouts := by rw [hw]; rfl
      rw [hlayouts, ← hlen]
      exact Spaces.isRoot_new _ _
  exact Moves.keep inferInstance hnew

/-! ### Handovers -/

/-- A change of the handover that leaves its target and its mappings. -/
instance (handles : Handover → List ℕ) (pins : Handover → List UInt64)
    (session : Handover → Session) :
    Moves (Keeps Laid)
      (modify (modifyHandover fun h =>
        { h with handles := handles h, pins := pins h, session := session h }) :
        RtM B Unit) := by
  refine .of_keeps fun s hs => ?_
  unfold ends
  rw [wp_modify]
  refine hs.setHandover _ fun o ho => ?_
  obtain ⟨h, hh, rfl⟩ := map_eq_some_iff.mp ho
  obtain ⟨haligned, hbounds, hexclusive, hinRoot, hapart⟩ := hs.prepared h hh
  exact ⟨haligned, hbounds, hexclusive, hinRoot, hapart⟩

instance : Moves (Keeps Laid) (modify fun s => { s with handover := none } : RtM B Unit) := by
  refine .of_keeps fun s hs => ?_
  unfold ends
  rw [wp_modify]
  exact hs.setHandover none fun _ ho => by cases ho

instance (coordinator : Runtime B → ℕ) (source target session) : Moves (Keeps Laid) (modify fun s =>
        { s with
          handover := some
            { coordinator := coordinator s
              source, target, session
              handles := []
              mappings := []
              pins := []
              sourceRunning := true } } : RtM B Unit) := by
  refine .of_keeps fun s hs => ?_
  unfold ends
  rw [wp_modify]
  refine hs.setHandover _ fun o ho => ?_
  obtain rfl := Option.some.inj ho
  have hnone : ∀ m ∈ ([] : List Mapping), False := fun _ hm => List.not_mem_nil hm
  exact ⟨fun _ hm => (hnone _ hm).elim, fun _ hm => (hnone _ hm).elim,
    fun _ hm => (hnone _ hm).elim, fun _ hm => (hnone _ hm).elim, List.Pairwise.nil⟩

omit [Backend B] in
/-- Listing a handle changes nothing but the list. -/
theorem wp_preserveHandle {s : Runtime B} {handle : ℕ} {h : Handover} (hh : s.handover = some h)
    {Q : Unit → Runtime B → Prop} {E : Status → Runtime B → Prop}
    (hQ : ∀ (t : Runtime B) handles, t = { s with handover := some { h with handles } } → Q () t)
    (hE : ∀ e, E e s) : wp (preserveHandle handle) Q E s := by
  have hsame : s = { s with handover := some { h with handles := h.handles } } := by
    rw [← hh]
  simp only [preserveHandle, handoverActor, wp_bind, wp_get, wp_some?, wp_check, wp_pure, wp_when,
    wp_modify, hh, hE, implies_true, and_true]
  rintro _ ⟨⟩ _ _ c _ _ _
  refine ⟨fun _ => ?_, fun _ => ?_⟩
  · refine hQ _ (h.handles ++ [handle]) ?_
    unfold modifyHandover
    rw [hh, map_some]
  · exact hQ s h.handles hsame

/-- A preserved place is free of the mappings preserved before. -/
theorem prepared_append (vmo : ℕ) (hprepared : a.Prepared (Backend.arch B) h)
    (hl : a.layouts[h.target]? = some p.layout) {vmoSize offset}
    (hplace : preservedPlaceOk p h (Backend.arch B) vmoSize offset va size = true)
    (hexclusive : rights &&& (WRITE ||| EXECUTE) ≠ WRITE ||| EXECUTE) (handles : List ℕ) :
    a.Prepared (Backend.arch B)
      { h with
        handles
        mappings := h.mappings ++ [⟨vmo, p.rootVmar, offset, va, size, rights⟩] } := by
  simp only [preservedPlaceOk, Bool.and_eq_true, bne_iff_ne, beq_iff_eq, Bool.not_eq_true',
    decide_eq_true_eq, ge_iff_le, UInt64.le_iff_toNat_le] at hplace
  obtain ⟨⟨⟨⟨⟨⟨⟨-, hsize⟩, -⟩, hva⟩, -⟩, hstart⟩, hend⟩, hfree⟩ := hplace
  have hlast : (spanOf va size).last ≤ USER_END.toNat :=
    last_le_of_not_endsAbove (Bool.not_eq_true _ ▸ hend)
  have hword : USER_END.toNat < 2 ^ 64 := USER_END.toNat_lt
  refine ⟨?_, ?_, ?_, ?_, ?_⟩
  · exact List.forall_mem_append.mpr ⟨hprepared.aligned, by simpa using ⟨hva, hsize⟩⟩
  · exact List.forall_mem_append.mpr ⟨hprepared.bounds, by simpa using ⟨hstart, hlast⟩⟩
  · exact List.forall_mem_append.mpr ⟨hprepared.exclusive, by simpa using hexclusive⟩
  · refine List.forall_mem_append.mpr ⟨hprepared.inRoot, fun m hm => ?_⟩
    obtain rfl := mem_singleton.mp hm
    exact ⟨p.layout, hl, rfl⟩
  · rw [List.pairwise_append]
    refine ⟨hprepared.disjoint, List.pairwise_singleton _ _, fun n hn m hm => ?_⟩
    obtain rfl := mem_singleton.mp hm
    have hnlast := (hprepared.bounds n hn).2
    refine ((disjoint_iff_not_lt (Nat.lt_of_le_of_lt hlast hword)
      (Nat.lt_of_le_of_lt hnlast hword)).mpr fun hover => ?_).symm
    have hclear := List.any_eq_false.mp hfree n (List.mem_append_right _ hn)
    exact hclear (by simpa [Mapping.overlapsRange] using hover)

instance (handle offset va size rights) :
    Moves (Keeps Laid) (preserveMapping handle offset va size rights : RtM B Unit) := by
  refine .of_keeps fun s hs => ?_
  simp only [preserveMapping, handoverActor, wp_bind, wp_get, wp_some?, wp_check, wp_pure,
    wp_unwrap, hs, implies_true, and_true]
  intro h hh _ c _ _ vmo _ hrights v _ p hp hplace
  refine wp_preserveHandle hh (fun t handles ht => ?_) fun _ => hs
  rw [wp_modify]
  simp only [not_or] at hrights
  have hl := layout_of_process hp
  have hnew := prepared_append vmo (hs.prepared h hh) hl hplace hrights.2.2.2 handles
  subst ht
  refine hs.setHandover _ fun o ho => ?_
  obtain rfl := Option.some.inj ho
  exact hnew

/-- The mappings of a handover are clear of the live children of the region they name. -/
def CommitClear (s : Runtime B) : Prop :=
  ∀ h ∈ s.handover, ∀ m ∈ h.mappings, ∀ c ∈ s.liveChildren m.vmar, m.span.Disjoint c.span
  deriving Decidable

theorem placed_of_prepared (hs : s.Laid) (hclear : s.CommitClear) (hh : s.handover = some h)
    (hm : m ∈ h.mappings) :
    s.spaces.Placed h.target m := by
  have hprepared := hs.prepared h hh
  obtain ⟨l, hl, hvmar⟩ := hprepared.inRoot m hm
  obtain ⟨v, hv, hroot⟩ := hs.root h.target l hl
  have hbounds := hprepared.bounds m hm
  refine ⟨hprepared.aligned m hm, ⟨v, hvmar ▸ hv, hroot.owner, hroot.live, ⟨?_, ?_⟩, ?_⟩, ?_,
    hprepared.exclusive m hm⟩
  · show v.base.toNat ≤ m.va.toNat
    rw [hroot.base]
    exact hbounds.1
  · rw [hroot.last]
    exact hbounds.2
  · unfold AccessWithin
    rw [UInt32.and_assoc, hroot.rights, UInt32.and_zero]
  · intro id c hc hparent hlive
    obtain ⟨w, hw, hbase, hsize⟩ := mem_liveChildren hc hparent hlive
    have hspan : w.span = c.span := by
      unfold Vmar.span
      rw [hbase, hsize]
    exact hspan ▸ hclear h hh m hm w hw

/-- The mappings of a handover that are still to be installed. -/
structure Installing (a : Spaces) (target : ℕ) (rest : List Mapping) (s : Runtime B) : Prop where
  laid : s.Laid
  regions : s.spaces.regions = a.regions
  placed : ∀ m ∈ rest, a.Placed target m
  apart : rest.Pairwise fun m n => m.span.Disjoint n.span
  free : ∃ l : Layout, s.spaces.layouts[target]? = some l ∧
    ∀ m ∈ rest, ∀ n ∈ l.mappings, n.span.Disjoint m.span

theorem wp_installMapping {target rest} (hs : Installing a target (m :: rest) s) :
    wp (installMapping target m) (fun _ => Installing a target rest) (fun _ => Laid) s := by
  obtain ⟨hlaid, hregions, hplaced, hapart, l, hl, hfree⟩ := hs
  obtain ⟨p, hp, rfl⟩ := map_eq_some_iff.mp (layouts_spaces s target ▸ hl)
  simp only [installMapping, wp_bind, wp_get, wp_unwrap, wp_modify]
  intro v _
  have hplaced' : s.spaces.Placed target m := by
    have hsame : ∀ id, s.spaces.region id = a.region id := fun id => by
      unfold Spaces.region
      rw [hregions]
    exact (hplaced m List.mem_cons_self).mono (fun _ hv _ => (hsame _).trans hv)
      fun _ _ hc _ _ => .inl ((hsame _).symm.trans hc)
  have hmem := List.forall_mem_cons.mp hfree
  have hnew : (modifyProcess target (fun p : Process =>
      { p with nextVa := max p.nextVa (m.va + m.size), mappings := p.mappings ++ [m] })
      (modifyVmo m.vmo (fun v => { v with refs := v.refs + 1 }) s)).spaces = _ :=
    spaces_modifyProcess _ hp
  refine ⟨?_, ?_, fun n hn => hplaced n (List.mem_cons_of_mem _ hn), hapart.of_cons, ?_⟩
  · unfold Laid
    rw [hnew]
    exact hlaid.addMapping hl rfl rfl hplaced' hmem.1
  · rw [hnew]
    exact hregions
  · refine ⟨{ p.layout with
      nextVa := max p.nextVa (m.va + m.size), mappings := p.mappings ++ [m] }, ?_, ?_⟩
    · rw [hnew]
      exact List.getElem?_set_self (getElem?_eq_some_iff.mp hl).1
    · intro n hn x hx
      rcases List.mem_append.mp hx with hold | hadded
      · exact hmem.2 n hn x hold
      · obtain rfl := mem_singleton.mp hadded
        exact (List.pairwise_cons.mp hapart).1 n hn

/-- The checks of `commit_handover` find the places in the target free. -/
theorem wp_checkCommit (hs : s.Laid) (hh : s.handover = some h) {Q : Process → Runtime B → Prop}
    (hQ : ∀ p (l : Layout) t, t.spaces = s.spaces → s.spaces.layouts[h.target]? = some l →
      (∀ m ∈ h.mappings, ∀ n ∈ l.mappings, n.span.Disjoint m.span) → Q p t)
    (hE : ∀ e t, t.spaces = s.spaces → E e t) : wp (checkCommit h) Q E s := by
  simp only [checkCommit, wp_bind, wp_get, wp_check]
  refine ⟨fun _ => ⟨fun _ => ⟨fun _ => ?_, fun _ => hE _ _ rfl⟩, fun _ => hE _ _ rfl⟩,
    fun _ => hE _ _ rfl⟩
  refine wp_aside (fun _ t ht => ?_) fun _ _ ht => hE _ _ ht
  rw [wp_bind]
  refine wp_aside (fun _ u hu => ?_) fun _ _ hu => hE _ _ (hu.trans ht)
  simp only [wp_bind, wp_unwrap, wp_check, wp_pure]
  refine fun p hp => ⟨fun hfree => ?_, fun _ => hE _ _ (hu.trans ht)⟩
  have hl := layout_of_process hp
  refine hQ p p.layout u (hu.trans ht) hl fun m hm n hn => ?_
  have hmlast := (hs.prepared h hh).bounds m hm
  have hword : USER_END.toNat < 2 ^ 64 := USER_END.toNat_lt
  refine ((disjoint_iff_not_lt (Nat.lt_of_le_of_lt hmlast.2 hword)
    (hs.mapping_lt hl hn)).mpr fun hover => hfree ?_).symm
  refine any_eq_true.mpr ⟨m, hm, any_eq_true.mpr ⟨n, hn, ?_⟩⟩
  rw [Bool.and_eq_true, decide_eq_true_eq, decide_eq_true_eq]
  exact hover

set_option synthInstance.maxSize 100000 in
theorem wp_finishHandover (hs : Installing a h.target h.mappings s) :
    ends (finishHandover h) Laid s := by
  simp only [finishHandover, movePreserved, wp_bind, wp_modify]
  have hlaid : ({ s with handover := none } : Runtime B).Laid :=
    hs.laid.setHandover none fun _ ho => by cases ho
  refine wp_aside (fun _ t ht => ?_) fun _ _ ht => laid_of_spaces hlaid ht
  rw [wp_bind]
  refine wp_aside (fun _ u hu => ?_) fun _ _ hu => laid_of_spaces hlaid (hu.trans ht)
  have hspaces := hu.trans ht
  refine wp_forEach (Installing a h.target) (fun m rest v hv => wp_installMapping hv)
    (fun v hv => Moves.keep inferInstance hv.laid) h.mappings u ⟨laid_of_spaces hlaid hspaces,
      by rw [hspaces]; exact hs.regions, hs.placed, hs.apart, ?_⟩
  rw [hspaces]
  exact hs.free

set_option synthInstance.maxSize 100000 in
/-- A commit keeps the invariant if the preserved mappings are clear of the live children of
the region they go to. -/
theorem wp_commitHandover (hs : s.Laid) (hclear : s.CommitClear) (now) :
    ends (commitHandover now) Laid s := by
  simp only [commitHandover, wp_bind, wp_get, wp_some?]
  refine ⟨fun h hh => ?_, fun _ => hs⟩
  refine wp_checkCommit hs hh (fun p l t ht hl hfree => ?_) fun _ _ ht => laid_of_spaces hs ht
  refine (laid_of_spaces hs ht).past fun mapped u hu hsu => hsu.past fun _ v hv hlaid => ?_
  have hspaces := hv.trans (hu.trans ht)
  simp only [wp_bind, wp_get]
  -- the session changes, the layouts and the regions do not
  refine wp_mono (wp_and (Moves.keep inferInstance hlaid)
    (Moves.run (R := Touches (.handover :: offLayout)) v)) (fun r w hw => ?_) fun _ _ hw => hw.1
  obtain ⟨hwlaid, htouch⟩ := hw
  have hregions : w.spaces.regions = s.spaces.regions :=
    (show w.spaces.regions = v.spaces.regions from htouch .regions (by decide)).trans
      (congrArg Spaces.regions hspaces)
  have hlayouts : w.spaces.layouts = s.spaces.layouts :=
    (show w.spaces.layouts = v.spaces.layouts from htouch .layout (by decide)).trans
      (congrArg Spaces.layouts hspaces)
  cases r with
  | ok _ =>
    exact wp_finishHandover ⟨hwlaid, hregions, fun m hm => placed_of_prepared hs hclear hh hm,
      (hs.prepared h hh).disjoint, l, hlayouts ▸ hl, hfree⟩
  | error _ => exact Moves.keep inferInstance hwlaid

/-! ### Runs -/

/-- A commit moves mappings only to where no live child region is. -/
def ClearCommits (s : Runtime B) (op : Op B) : Prop := op.commits = true → s.CommitClear
  deriving Decidable

set_option synthInstance.maxSize 100000 in
theorem exec_keeps_laid (op : Op B) (hop : ∀ now, op ≠ .commitHandover now) :
    Moves (Keeps Laid) (exec op) := by
  cases op with
  | commitHandover now => exact absurd rfl (hop now)
  | _ => unfold exec; infer_instance

theorem wp_exec_laid {op} (hs : s.Laid) (hop : s.ClearCommits op) : ends (exec op) Laid s := by
  by_cases hcommit : ∃ now, op = .commitHandover now
  · obtain ⟨now, rfl⟩ := hcommit
    exact wp_commitHandover hs (hop rfl) now
  · exact (exec_keeps_laid op fun now h => hcommit ⟨now, h⟩).keep hs

/-- The layout of every address space: mappings are page aligned, apart, inside the live
region they name and clear of its live children; regions are inside their parents and apart
from their siblings; access does not grow; nothing is writable and executable at once. -/
structure LayoutOk (s : Runtime B) : Prop where
  aligned : ∀ (pid : ℕ) (p : Process), s.processes[pid]? = some p → ∀ m ∈ p.mappings,
    m.va % PAGE = 0 ∧ m.size % PAGE = 0
  disjoint : ∀ (pid : ℕ) (p : Process), s.processes[pid]? = some p →
    p.mappings.Pairwise fun m n => m.span.Disjoint n.span
  inside : ∀ (pid : ℕ) (p : Process), s.processes[pid]? = some p → ∀ m ∈ p.mappings,
    ∃ v, s.vmar m.vmar = some v ∧ v.owner = pid ∧ v.destroyed = false ∧
      m.span.Within v.span ∧ AccessWithin m.rights v.rights
  clear : ∀ (pid : ℕ) (p : Process), s.processes[pid]? = some p → ∀ m ∈ p.mappings,
    ∀ c ∈ s.liveChildren m.vmar, m.span.Disjoint c.span
  exclusive : ∀ (pid : ℕ) (p : Process), s.processes[pid]? = some p → ∀ m ∈ p.mappings,
    ¬ (m.rights &&& WRITE ≠ 0 ∧ m.rights &&& EXECUTE ≠ 0)
  nested : ∀ (id q : ℕ) (c : Vmar), s.vmar id = some c → c.parent = some q →
    ∃ v, s.vmar q = some v ∧ c.span.Within v.span ∧ AccessWithin c.rights v.rights
  siblings : ∀ (i j q : ℕ) (c d : Vmar), i ≠ j → s.vmar i = some c → s.vmar j = some d →
    c.parent = some q → d.parent = some q → c.destroyed = false → d.destroyed = false →
    c.span.Disjoint d.span

/-- The invariant of spaces is what is promised of the tables. -/
theorem layoutOk_of_laid (hs : s.Laid) : s.LayoutOk := by
  constructor
  case aligned => exact fun pid p hp m hm => (hs.placed pid _ (layout_of_process hp) m hm).aligned
  case disjoint => exact fun pid p hp => hs.disjoint pid _ (layout_of_process hp)
  case inside =>
    intro pid p hp m hm
    obtain ⟨v, hv, hrest⟩ := (hs.placed pid _ (layout_of_process hp) m hm).inside
    rw [region_spaces] at hv
    obtain ⟨w, hw, rfl⟩ := map_eq_some_iff.mp hv
    exact ⟨w, hw, hrest⟩
  case clear =>
    intro pid p hp m hm c hc
    simp only [liveChildren, List.mem_filter, List.mem_filterMap, id_eq, exists_eq_right,
      Bool.and_eq_true, beq_iff_eq, Bool.not_eq_true'] at hc
    obtain ⟨hmem, hparent, hlive⟩ := hc
    obtain ⟨id, hid⟩ := List.mem_iff_getElem?.mp hmem
    have hc' : s.vmar id = some c := by
      unfold vmar
      rw [hid, Option.join_some]
    exact (hs.placed pid _ (layout_of_process hp) m hm).clear id c.region (region_of_vmar hc')
      hparent hlive
  case exclusive =>
    intro pid p hp m hm ⟨hwrite, hexecute⟩
    refine (hs.placed pid _ (layout_of_process hp) m hm).exclusive ?_
    have hw : m.rights &&& WRITE = WRITE := (UInt32.and_twoPow m.rights 2).resolve_left hwrite
    have hx : m.rights &&& EXECUTE = EXECUTE :=
      (UInt32.and_twoPow m.rights 3).resolve_left hexecute
    rw [UInt32.and_or, hw, hx]
  case nested =>
    intro id q c hc hq
    obtain ⟨w, hw, -, hin, haccess⟩ := hs.nested id c.region q (region_of_vmar hc) hq
    rw [region_spaces] at hw
    obtain ⟨v, hv, rfl⟩ := map_eq_some_iff.mp hw
    exact ⟨v, hv, hin, haccess⟩
  case siblings =>
    intro i j q c d hij hc hd
    exact hs.siblings i j c.region d.region q hij (region_of_vmar hc) (region_of_vmar hd)

theorem laid_new (backend : B) (cpuCount : ℕ) (support : AsidSupport) :
    (withCpuCount backend cpuCount support).Laid := by
  have hempty : (withCpuCount backend cpuCount support).spaces = ⟨[], [], none⟩ := by
    unfold withCpuCount
    split <;> rfl
  unfold Laid
  rw [hempty]
  constructor <;> intros <;> simp_all [Spaces.region]

/-- **The layout of address spaces.** It holds in every state of every run whose commits move
mappings only to where no live child region is. -/
theorem layout_ok_of_reaches {t : Runtime B} (ht : Reaches ClearCommits t) : t.LayoutOk :=
  layoutOk_of_laid (ht.invariant laid_new fun _ _ hs hop => wp_exec_laid hs hop)

open TestBackend in
/-- The first process quiesces, the second runs and is ready. -/
def cutover : List (Op TestBackend) :=
  [.handoverBulk 1, .handoverCatchUp 2, .quiesceHandover 0 3, .scheduleAtOnCpu 0 1 idle,
    .readyHandover 0 4]

open TestBackend in
/-- A handover with a mapping preserved outside the target's child regions is committed, and
the layout holds. -/
theorem layout_ok_of_clear_commit :
    ∃ t : Runtime TestBackend, Reaches ClearCommits t ∧ t.handover = none ∧
      ((t.processes[1]?).map fun p => p.mappings.map (·.va)) =
        some [0x80000000, 0x80001000, 0x90000000] ∧ t.LayoutOk := by
  obtain ⟨t, ht, hnone, hmappings⟩ := exists_reaches_of_run ClearCommits
    (fun t => t.handover = none ∧
      ((t.processes[1]?).map fun p => p.mappings.map (·.va)) =
        some [0x80000000, 0x80001000, 0x90000000])
    (handoverBegun ++ [.preserveMapping 4 0 0x90000000 0x1000 (READ ||| WRITE)] ++
      cutover ++ [.commitHandover 5]) (by decide +kernel)
  exact ⟨t, ht, hnone, hmappings, layout_ok_of_reaches ht⟩

/-- A mapping of a process lies over a live child of its root region. -/
def OverChild (t : Runtime B) (pid : ℕ) : Prop :=
  ∃ p ∈ t.processes[pid]?, ∃ m ∈ p.mappings, ∃ c ∈ t.liveChildren m.vmar,
    ¬ m.span.Disjoint c.span
  deriving Decidable

open TestBackend in
/-- A handover that preserves a mapping at the start of the target's heap region is committed
all the same, and the layout is broken. -/
theorem layout_broken_by_commit :
    ∃ t : Runtime TestBackend, Reaches (fun _ _ => True) t ∧ ¬ t.LayoutOk := by
  obtain ⟨t, ht, p, hp, m, hm, c, hc, hover⟩ := exists_reaches_of_run (fun _ _ => True)
    (fun t => t.OverChild 1)
    (handoverBegun ++
      [.preserveMapping 4 0 USER_HEAP_VMAR_BASE 0x1000 (READ ||| WRITE)] ++ cutover ++
      [.commitHandover 5]) (by decide +kernel)
  exact ⟨t, ht, fun hok => hover (hok.clear 1 p hp m hm c hc)⟩

end Runtime

end Bexos
