/-
The physical frame allocator (`kernel/src/memory/mod.rs`).

`Frames` is a bitmap of the page frames of the machine's memory.  `allocate` searches a run
of free frames from a hint to the end of memory, and then from the start to the hint.

* `Frames.scan_eq_some`, `Frames.scan_eq_none` — what the search finds, and what it rules out;
* `Frames.Reaches` — what allocations and releases of whole runs lead to, with the runs that
  are still outstanding;
* `Frames.Accounted` — the invariant: the used frames are the reserved ones and those of the
  outstanding runs, and none of them twice;
* `allocate_exclusive_complete` — runs are handed out exclusively, and an allocation fails
  only for want of a run, exactly if not all runs that are long enough lie across the hint;
* `allocate_missed` — a state in which they do.

Design notes: the contents of the frames are not modelled.  An assertion that fails is
`none`.
-/
import Mathlib.Data.Finset.Card
import Bexos.Bitmap
import Bexos.RuntimeState

namespace Bexos

/-! ### The model -/

namespace Arch

def ramStart : Arch → UInt64
  | .x86_64 => 0x1000000
  | .aarch64 => 0x4000_0000

def ramEnd : Arch → UInt64
  | .x86_64 => 0x30000000
  | .aarch64 => 0x8000_0000

def frameCount (arch : Arch) : ℕ := ((arch.ramEnd - arch.ramStart) / PAGE).toNat

def frameWords (arch : Arch) : ℕ := arch.frameCount / 64

theorem frameCount_eq (arch : Arch) : arch.frameCount = 64 * arch.frameWords := by
  cases arch <;> decide

/-- Memory ends where its last frame ends. -/
theorem ramEnd_eq (arch : Arch) :
    arch.ramEnd.toNat = arch.ramStart.toNat + 4096 * arch.frameCount := by
  cases arch <;> decide

end Arch

/-- The parts of the boot handoff that say which memory is taken. -/
structure BootHandoff where
  ramEnd : UInt64
  bootfsAddr : UInt64
  bootfsLen : UInt64
  updateBase : UInt64
  updateLen : UInt64
  bootEvidenceAddr : UInt64
  bootEvidenceLen : UInt64
  /-- The address and the length of the framebuffer, if it is valid. -/
  framebuffer : Option (UInt64 × UInt64)

/-- The regions that are taken: the framebuffer, the boot file system, the page of boot
evidence, and the update area. -/
def BootHandoff.regions (h : BootHandoff) : List (UInt64 × UInt64) :=
  h.framebuffer.toList ++
    [(h.bootfsAddr, h.bootfsLen),
      (h.bootEvidenceAddr, UInt64.ofNat ((h.bootEvidenceLen.toNat + 4095) / 4096 * 4096)),
      (h.updateBase, h.updateLen)]

structure Frames (arch : Arch) where
  used : List UInt64
  wasBootfs : List UInt64
  reused : UInt64
  allocationHint : ℕ
  dirty : Option (DirtySet ℕ)
  length_used : used.length = arch.frameWords
  length_wasBootfs : wasBootfs.length = arch.frameWords

namespace Frames

variable {arch : Arch}

def pageIndexAtOrAfter (arch : Arch) (address : UInt64) : ℕ :=
  if address ≤ arch.ramStart then 0
  else min (((address - arch.ramStart).toNat + 4095) / 4096) arch.frameCount

/-- Write a range of the bitmap of used frames. -/
def setUsedRange (start finish : ℕ) (value : Bool) (f : Frames arch) : Frames arch :=
  { f with
    used := Bitmap.setRange f.used start finish value
    length_used := Bitmap.length_setRange.trans f.length_used }

/-- Reserve a region of memory, as far as it lies among the frames to be allocated. -/
def reserve (allocStart allocEnd : ℕ) (f : Frames arch) (region : UInt64 × UInt64) : Frames arch :=
  setUsedRange (max (pageIndexAtOrAfter arch region.1) allocStart)
    (min (pageIndexAtOrAfter arch (region.1 + region.2)) allocEnd) true f

def new (first : UInt64) (handoff : BootHandoff) : Frames arch :=
  let allocStart := pageIndexAtOrAfter arch first
  let allocEnd := pageIndexAtOrAfter arch handoff.ramEnd
  let f : Frames arch :=
    { used := List.replicate arch.frameWords Bitmap.allOnes
      wasBootfs := Bitmap.setRange (List.replicate arch.frameWords 0)
        (pageIndexAtOrAfter arch handoff.bootfsAddr)
        (pageIndexAtOrAfter arch (handoff.bootfsAddr + handoff.bootfsLen)) true
      reused := 0
      allocationHint := 0
      dirty := none
      length_used := List.length_replicate
      length_wasBootfs := Bitmap.length_setRange.trans List.length_replicate }
  handoff.regions.foldl (reserve allocStart allocEnd) (setUsedRange allocStart allocEnd false f)

def isUsed (f : Frames arch) (i : ℕ) : Bool := Bitmap.test f.used i

/-- Note a change, if a snapshot is being taken. -/
def mark (word : ℕ) (f : Frames arch) : Frames arch :=
  { f with dirty := f.dirty.map (DirtySet.mark word) }

def setUsed (i : ℕ) (value : Bool) (f : Frames arch) : Frames arch :=
  { f.mark (i / 64) with
    used := Bitmap.set f.used i value
    length_used := Bitmap.length_set.trans f.length_used }

def setWasBootfs (i : ℕ) (value : Bool) (f : Frames arch) : Frames arch :=
  { f.mark (arch.frameWords + i / 64) with
    wasBootfs := Bitmap.set f.wasBootfs i value
    length_wasBootfs := Bitmap.length_set.trans f.length_wasBootfs }

/-- Search frames, in order, for a run of free ones; `run` frames before them are free. -/
def scan (used : ℕ → Bool) (pages : ℕ) : List ℕ → ℕ → Option ℕ
  | [], _ => none
  | i :: is, run =>
    if used i then scan used pages is 0
    else if run + 1 = pages then some (i + 1 - pages) else scan used pages is (run + 1)

def findFreeRun (f : Frames arch) (start finish pages : ℕ) : Option ℕ :=
  scan f.isUsed pages (List.range' start (finish - start)) 0

/-- Take one frame. -/
def take (f : Frames arch) (j : ℕ) : Frames arch :=
  let f := f.setUsed j true
  if Bitmap.test f.wasBootfs j then
    ({ f with reused := f.reused + 1 }.mark (2 * arch.frameWords)).setWasBootfs j false
  else f

def allocate (pages : UInt64) (f : Frames arch) : Option UInt64 × Frames arch :=
  let pages := pages.toNat
  if pages = 0 ∨ pages > arch.frameCount then (none, f)
  else
    let hint := min f.allocationHint arch.frameCount
    match (f.findFreeRun hint arch.frameCount pages).or (f.findFreeRun 0 hint pages) with
    | none => (none, f)
    | some first =>
      let g := (List.range' first pages).foldl take f
      (some (arch.ramStart + UInt64.ofNat first * PAGE),
        { g with allocationHint := (first + pages) % arch.frameCount })

/-- Give back frames, each of which must be in use. -/
def giveBack : List ℕ → Frames arch → Option (Frames arch)
  | [], f => some f
  | i :: is, f => if f.isUsed i then giveBack is (f.setUsed i false) else none

def release (base pages : UInt64) (f : Frames arch) : Option (Frames arch) :=
  if base % PAGE = 0 ∧ base ≥ arch.ramStart ∧
      base.toNat + pages.toNat * 4096 ≤ arch.ramEnd.toNat then
    let first := ((base - arch.ramStart) / PAGE).toNat
    (giveBack (List.range' first pages.toNat) f).map fun g =>
      { g with allocationHint := min g.allocationHint first }
  else none

/-! ### The bits -/

section Bits

variable {f g : Frames arch} {i j first n : ℕ}

theorem isUsed_setUsed {value} (hi : i < arch.frameCount) :
    (f.setUsed i value).isUsed j = if j = i then value else f.isUsed j := by
  have hword : i / 64 < f.used.length := by
    rw [f.length_used]
    have := arch.frameCount_eq
    omega
  exact Bitmap.test_set hword

theorem take_isUsed : (f.take i).isUsed j = (f.setUsed i true).isUsed j := by
  unfold take
  dsimp only
  split <;> rfl

/-- Taking a run makes exactly its frames used. -/
theorem isUsed_foldl_take (hn : first + n ≤ arch.frameCount) :
    ((List.range' first n).foldl take f).isUsed j =
      if first ≤ j ∧ j < first + n then true else f.isUsed j := by
  induction n generalizing f first with
  | zero =>
    rw [if_neg (by omega)]
    rfl
  | succ n ih =>
    rw [List.range'_succ, List.foldl_cons, ih (by omega), take_isUsed,
      isUsed_setUsed (by omega)]
    by_cases hj : first ≤ j ∧ j < first + (n + 1)
    · rw [if_pos hj]
      split
      · rfl
      · rw [if_pos (by omega)]
    · rw [if_neg hj, if_neg (by omega), if_neg (by omega)]

theorem pageIndexAtOrAfter_le (arch address) :
    pageIndexAtOrAfter arch address ≤ arch.frameCount := by
  unfold pageIndexAtOrAfter
  split
  · exact Nat.zero_le _
  · exact Nat.min_le_right _ _

theorem isUsed_setUsedRange {s e value} (he : e ≤ arch.frameCount) :
    (setUsedRange s e value f).isUsed i = if s ≤ i ∧ i < e then value else f.isUsed i :=
  Bitmap.test_setRange (by
    rw [f.length_used]
    exact he.trans arch.frameCount_eq.le)

theorem isUsed_foldl_reserve {s e} (he : e ≤ arch.frameCount) (regions : List (UInt64 × UInt64)) :
    (regions.foldl (reserve s e) f).isUsed i = false ↔ f.isUsed i = false ∧
      ∀ r ∈ regions, ¬ (max (pageIndexAtOrAfter arch r.1) s ≤ i ∧
        i < min (pageIndexAtOrAfter arch (r.1 + r.2)) e) := by
  induction regions generalizing f with
  | nil => simp
  | cons r regions ih =>
    rw [List.foldl_cons, ih, reserve,
      isUsed_setUsedRange ((Nat.min_le_right _ _).trans he), List.forall_mem_cons]
    split
    · rename_i hin
      exact ⟨fun h => absurd h.1 (by decide), fun h => absurd hin h.2.1⟩
    · rename_i hout
      exact ⟨fun h => ⟨h.1, hout, h.2⟩, fun h => ⟨h.1, h.2.2⟩⟩

/-- The frames that are free at first: those of the memory beyond the kernel that no region
touches. -/
theorem isUsed_new {first handoff} (hi : i < arch.frameCount) :
    (new first handoff : Frames arch).isUsed i = false ↔
      pageIndexAtOrAfter arch first ≤ i ∧ i < pageIndexAtOrAfter arch handoff.ramEnd ∧
      ∀ r ∈ handoff.regions, ¬ (pageIndexAtOrAfter arch r.1 ≤ i ∧
        i < pageIndexAtOrAfter arch (r.1 + r.2)) := by
  have hend := pageIndexAtOrAfter_le arch handoff.ramEnd
  unfold new
  dsimp only
  rw [isUsed_foldl_reserve hend, isUsed_setUsedRange hend]
  have hones : Bitmap.test (List.replicate arch.frameWords Bitmap.allOnes) i = true := by
    have hcount := arch.frameCount_eq
    rw [Bitmap.test_eq_bit, List.getD_eq_getElem?_getD,
      List.getElem?_replicate_of_lt (by omega : i / 64 < arch.frameWords)]
    exact Bitmap.bit_allOnes (Nat.mod_lt _ (by decide))
  constructor
  · rintro ⟨hrange, hregions⟩
    split at hrange
    · rename_i hin
      exact ⟨hin.1, hin.2, fun r hr h => hregions r hr ⟨by omega, by omega⟩⟩
    · exact absurd (hones.symm.trans hrange) (by decide)
  · rintro ⟨hlow, hhigh, hregions⟩
    rw [if_pos ⟨hlow, hhigh⟩]
    exact ⟨rfl, fun r hr h => hregions r hr ⟨by omega, by omega⟩⟩

/-- Giving back a run makes exactly its frames free. -/
theorem giveBack_eq_some (hn : first + n ≤ arch.frameCount)
    (h : giveBack (List.range' first n) f = some g) :
    g.allocationHint = f.allocationHint ∧
      ∀ j, g.isUsed j = if first ≤ j ∧ j < first + n then false else f.isUsed j := by
  induction n generalizing f first with
  | zero =>
    obtain rfl := Option.some.inj h
    exact ⟨rfl, fun j => by rw [if_neg (by omega)]⟩
  | succ n ih =>
    rw [List.range'_succ, giveBack] at h
    split at h
    · obtain ⟨hhint, hused⟩ := ih (by omega) h
      refine ⟨hhint, fun j => ?_⟩
      rw [hused, isUsed_setUsed (by omega)]
      by_cases hj : first ≤ j ∧ j < first + (n + 1)
      · rw [if_pos hj]
        split
        · rfl
        · rw [if_pos (by omega)]
      · rw [if_neg hj, if_neg (by omega), if_neg (by omega)]
    · cases h

theorem giveBack_isSome (hn : first + n ≤ arch.frameCount)
    (h : ∀ j, first ≤ j → j < first + n → f.isUsed j = true) :
    ∃ g, giveBack (List.range' first n) f = some g := by
  induction n generalizing f first with
  | zero => exact ⟨f, rfl⟩
  | succ n ih =>
    rw [List.range'_succ, giveBack, if_pos (h first (le_refl _) (by omega))]
    refine ih (by omega) fun j hj hlt => ?_
    rw [isUsed_setUsed (by omega), if_neg (by omega)]
    exact h j (by omega) (by omega)

end Bits

/-! ### The search -/

section Scan

variable {used : ℕ → Bool} {pages a n run first : ℕ}

/-- A run of free frames. -/
def FreeRun (used : ℕ → Bool) (first pages : ℕ) : Prop :=
  ∀ i, first ≤ i → i < first + pages → used i = false

theorem scan_eq_some (hrun : run ≤ a) (hfree : FreeRun used (a - run) run)
    (h : scan used pages (List.range' a n) run = some first) :
    a - run ≤ first ∧ first + pages ≤ a + n ∧ FreeRun used first pages := by
  induction n generalizing a run with
  | zero => cases h
  | succ n ih =>
    rw [List.range'_succ, scan] at h
    split at h
    · obtain ⟨hlow, hhigh, hfirst⟩ := ih (Nat.zero_le _) (fun i hi hlt => by omega) h
      exact ⟨by omega, by omega, hfirst⟩
    · rename_i ha
      have hnext : FreeRun used (a - run) (run + 1) := by
        intro i hi hlt
        by_cases hia : i = a
        · rw [hia]
          exact Bool.eq_false_iff.mpr ha
        · exact hfree i hi (by omega)
      split at h
      · rename_i hpages
        obtain rfl := Option.some.inj h
        have hstart : a + 1 - pages = a - run := by omega
        rw [hstart, ← hpages]
        exact ⟨by omega, by omega, hnext⟩
      · have hshift : a + 1 - (run + 1) = a - run := by omega
        obtain ⟨hlow, hhigh, hfirst⟩ := ih (by omega) (hshift ▸ hnext) h
        exact ⟨by omega, by omega, hfirst⟩

/-- Runs that begin with the free frames before the search, or in it, are not missed. -/
theorem scan_eq_none (hrun : run ≤ a) (hshort : run < pages)
    (h : scan used pages (List.range' a n) run = none) (hfirst : a - run ≤ first)
    (hend : first + pages ≤ a + n) : ¬ FreeRun used first pages := by
  induction n generalizing a run with
  | zero => omega
  | succ n ih =>
    rw [List.range'_succ, scan] at h
    split at h
    · rename_i ha
      by_cases hafter : a < first
      · exact ih (Nat.zero_le _) (by omega) h (by omega) (by omega)
      · -- a run that begins here contains the used frame
        intro hfree
        exact absurd (ha.symm.trans (hfree a (by omega) (by omega))) (by decide)
    · split at h
      · cases h
      · exact ih (by omega) (by omega) h (by omega) (by omega)

end Scan

variable {f g : Frames arch} {pages : UInt64}

/-- The runs on either side of the hint that an allocation considers. -/
def Beside (hint first pages : ℕ) : Prop := first + pages ≤ hint ∨ hint ≤ first

/-- What an allocation does. -/
theorem allocate_cases (f : Frames arch) (pages : UInt64) :
    (f.allocate pages = (none, f) ∧ (0 < pages.toNat → ∀ first,
      first + pages.toNat ≤ arch.frameCount → Beside f.allocationHint first pages.toNat →
      ¬ FreeRun f.isUsed first pages.toNat)) ∨
    ∃ first, 0 < pages.toNat ∧ first + pages.toNat ≤ arch.frameCount ∧
      FreeRun f.isUsed first pages.toNat ∧ Beside f.allocationHint first pages.toNat ∧
      f.allocate pages = (some (arch.ramStart + UInt64.ofNat first * PAGE),
        { (List.range' first pages.toNat).foldl take f with
          allocationHint := (first + pages.toNat) % arch.frameCount }) := by
  unfold allocate
  dsimp only
  split
  · exact .inl ⟨rfl, fun hpos first hend _ => by omega⟩
  · rename_i hpages
    cases hsearch : (f.findFreeRun (min f.allocationHint arch.frameCount) arch.frameCount
        pages.toNat).or (f.findFreeRun 0 (min f.allocationHint arch.frameCount) pages.toNat) with
    | none =>
      refine .inl ⟨rfl, fun hpos first hend hbeside => ?_⟩
      obtain ⟨habove, hbelow⟩ := Option.or_eq_none_iff.mp hsearch
      unfold findFreeRun at habove hbelow
      rcases hbeside with hbeside | hbeside
      · exact scan_eq_none (Nat.zero_le _) hpos hbelow (by omega) (by omega)
      · exact scan_eq_none (Nat.zero_le _) hpos habove (by omega) (by omega)
    | some first =>
      have hfound : first + pages.toNat ≤ arch.frameCount ∧
          FreeRun f.isUsed first pages.toNat ∧ Beside f.allocationHint first pages.toNat := by
        rcases Option.or_eq_some_iff.mp hsearch with hfound | ⟨_, hfound⟩
        · obtain ⟨hstart, hend, hfree⟩ :=
            scan_eq_some (Nat.zero_le _) (fun i hi hlt => by omega) hfound
          exact ⟨by omega, hfree, .inr (by omega)⟩
        · obtain ⟨_, hend, hfree⟩ :=
            scan_eq_some (Nat.zero_le _) (fun i hi hlt => by omega) hfound
          exact ⟨by omega, hfree, .inl (by omega)⟩
      exact .inr ⟨first, by omega, hfound.1, hfound.2.1, hfound.2.2, rfl⟩

/-! ### Runs of the allocator -/

/-- The address of a frame. -/
def address (arch : Arch) (first : ℕ) : UInt64 := arch.ramStart + UInt64.ofNat first * PAGE

/-- The frame at an address. -/
def frameAt (arch : Arch) (base : UInt64) : ℕ := ((base - arch.ramStart) / PAGE).toNat

theorem address_spec {first} (h : first ≤ arch.frameCount) :
    (address arch first).toNat = arch.ramStart.toNat + first * 4096 ∧
      frameAt arch (address arch first) = first := by
  have hcount : arch.frameCount ≤ 262144 := by cases arch <;> decide
  have hstart : arch.ramStart.toNat ≤ 0x4000_0000 := by cases arch <;> decide
  have hoffset : (UInt64.ofNat first * PAGE).toNat = first * 4096 := by
    rw [UInt64.toNat_mul, UInt64.toNat_ofNat', show PAGE.toNat = 4096 from rfl]
    omega
  have haddress : (address arch first).toNat = arch.ramStart.toNat + first * 4096 := by
    rw [address, UInt64.toNat_add, hoffset]
    omega
  refine ⟨haddress, ?_⟩
  have hle : arch.ramStart ≤ address arch first := by
    rw [UInt64.le_iff_toNat_le]
    omega
  rw [frameAt, UInt64.toNat_div, UInt64.toNat_sub_of_le _ _ hle, haddress,
    show PAGE.toNat = 4096 from rfl]
  omega

/-- A run that was handed out: its address and its number of pages. -/
structure Run where
  base : UInt64
  pages : UInt64
  deriving DecidableEq

/-- The frames of a run. -/
def Run.Covers (arch : Arch) (r : Run) (i : ℕ) : Prop :=
  frameAt arch r.base ≤ i ∧ i < frameAt arch r.base + r.pages.toNat

/-- What allocations, and releases of whole runs that were handed out, lead to, with the runs
that are outstanding. -/
inductive Reaches (start : Frames arch) : Frames arch → List Run → Prop
  | start : Reaches start start []
  | allocated {f g : Frames arch} {out : List Run} {base pages : UInt64} :
      Reaches start f out → f.allocate pages = (some base, g) →
      Reaches start g (⟨base, pages⟩ :: out)
  | refused {f g : Frames arch} {out : List Run} {pages : UInt64} :
      Reaches start f out → f.allocate pages = (none, g) → Reaches start g out
  | released {f g : Frames arch} {out : List Run} {r : Run} :
      Reaches start f out → r ∈ out → f.release r.base r.pages = some g →
      Reaches start g (out.erase r)

/-- The frames that are neither reserved nor outstanding. -/
def Free (start : Frames arch) (out : List Run) (i : ℕ) : Prop :=
  start.isUsed i = false ∧ ∀ r ∈ out, ¬ r.Covers arch i

/-- The bitmap accounts for the frames that are reserved or outstanding, and for no other. -/
structure Accounted (start f : Frames arch) (out : List Run) : Prop where
  placed : ∀ r ∈ out, ∃ first, r.base = address arch first ∧ 0 < r.pages.toNat ∧
    first + r.pages.toNat ≤ arch.frameCount
  used : ∀ i, i < arch.frameCount → (f.isUsed i = false ↔ Free start out i)
  unreserved : ∀ r ∈ out, ∀ i, r.Covers arch i → start.isUsed i = false
  disjoint : out.Pairwise fun r s => ∀ i, r.Covers arch i → ¬ s.Covers arch i

theorem accounted_start (start : Frames arch) : Accounted start start [] :=
  { placed := fun r hr => by cases hr
    used := fun i _ => ⟨fun h => ⟨h, fun r hr => by cases hr⟩, fun h => h.1⟩
    unreserved := fun r hr => by cases hr
    disjoint := List.Pairwise.nil }

variable {start : Frames arch} {out : List Run}

theorem Accounted.allocated (h : Accounted start f out) {base}
    (ha : f.allocate pages = (some base, g)) :
    Accounted start g (⟨base, pages⟩ :: out) ∧
      ∀ i, Run.Covers arch ⟨base, pages⟩ i → i < arch.frameCount ∧ Free start out i := by
  rcases allocate_cases f pages with ⟨hnone, _⟩ | ⟨first, hpos, hend, hfree, _, hsome⟩
  · rw [hnone] at ha
    cases ha
  rw [hsome] at ha
  cases ha
  have hframe : frameAt arch (address arch first) = first := (address_spec (by omega)).2
  have hcovers : ∀ i, Run.Covers arch ⟨address arch first, pages⟩ i ↔
      first ≤ i ∧ i < first + pages.toNat := fun i => by
    rw [Run.Covers, hframe]
  have hwas : ∀ i, Run.Covers arch ⟨address arch first, pages⟩ i → Free start out i := by
    intro i hi
    obtain ⟨hlow, hhigh⟩ := (hcovers i).mp hi
    exact (h.used i (by omega)).mp (hfree i hlow hhigh)
  -- the frames of the run were free, so they overlap no other run
  refine ⟨{ placed := fun r hr => ?_, used := fun i hi => ?_, unreserved := fun r hr i hi => ?_,
            disjoint := ?_ }, fun i hi => ⟨?_, hwas i hi⟩⟩
  · rcases List.mem_cons.mp hr with rfl | hr
    · exact ⟨first, rfl, hpos, hend⟩
    · exact h.placed r hr
  · show ((List.range' first pages.toNat).foldl take f).isUsed i = false ↔ _
    rw [isUsed_foldl_take hend]
    by_cases hin : first ≤ i ∧ i < first + pages.toNat
    · rw [if_pos hin]
      refine ⟨fun hfalse => absurd hfalse (by decide), fun hfree => ?_⟩
      exact absurd ((hcovers i).mpr hin) (hfree.2 _ List.mem_cons_self)
    · rw [if_neg hin, h.used i hi]
      refine ⟨fun hfree => ⟨hfree.1, fun r hr => ?_⟩, fun hfree => ⟨hfree.1, fun r hr => ?_⟩⟩
      · rcases List.mem_cons.mp hr with rfl | hr
        · exact fun hc => hin ((hcovers i).mp hc)
        · exact hfree.2 r hr
      · exact hfree.2 r (List.mem_cons_of_mem _ hr)
  · rcases List.mem_cons.mp hr with rfl | hr
    · exact (hwas i hi).1
    · exact h.unreserved r hr i hi
  · exact List.pairwise_cons.mpr ⟨fun r hr i hi => (hwas i hi).2 r hr, h.disjoint⟩
  · have := (hcovers i).mp hi
    omega

theorem Accounted.released (h : Accounted start f out) {r} (hr : r ∈ out)
    (hrelease : f.release r.base r.pages = some g) : Accounted start g (out.erase r) := by
  obtain ⟨first, hbase, hpos, hend⟩ := h.placed r hr
  have hframe : frameAt arch r.base = first := hbase ▸ (address_spec (by omega)).2
  have hperm := List.perm_cons_erase hr
  have hsymm : ∀ {r s : Run}, (∀ i, r.Covers arch i → ¬ s.Covers arch i) →
      ∀ i, s.Covers arch i → ¬ r.Covers arch i := fun h i hs hr => h i hr hs
  have hdisjoint := List.pairwise_cons.mp (h.disjoint.perm hperm hsymm)
  have hsub : ∀ s ∈ out.erase r, s ∈ out := fun s hs => List.mem_of_mem_erase hs
  have hused : ∀ j, g.isUsed j = if first ≤ j ∧ j < first + r.pages.toNat then false
      else f.isUsed j := by
    unfold release at hrelease
    split at hrelease
    · obtain ⟨g', hg', rfl⟩ := Option.map_eq_some_iff.mp hrelease
      rw [show ((r.base - arch.ramStart) / PAGE).toNat = first from hframe] at hg'
      exact (giveBack_eq_some hend hg').2
    · cases hrelease
  have hcovers : ∀ i, r.Covers arch i ↔ first ≤ i ∧ i < first + r.pages.toNat := fun i => by
    rw [Run.Covers, hframe]
  refine { placed := fun s hs => h.placed s (hsub s hs), used := fun i hi => ?_,
           unreserved := fun s hs => h.unreserved s (hsub s hs), disjoint := hdisjoint.2 }
  rw [hused]
  by_cases hin : first ≤ i ∧ i < first + r.pages.toNat
  · rw [if_pos hin]
    have hr' := (hcovers i).mpr hin
    exact ⟨fun _ => ⟨h.unreserved r hr i hr', fun s hs => hdisjoint.1 s hs i hr'⟩, fun _ => rfl⟩
  · rw [if_neg hin, h.used i hi]
    refine ⟨fun hfree => ⟨hfree.1, fun s hs => hfree.2 s (hsub s hs)⟩,
      fun hfree => ⟨hfree.1, fun s hs => ?_⟩⟩
    rcases List.mem_cons.mp (hperm.mem_iff.mp hs) with rfl | hs
    · exact fun hc => hin ((hcovers i).mp hc)
    · exact hfree.2 s hs

theorem Reaches.accounted (h : Reaches start f out) : Accounted start f out := by
  induction h with
  | start => exact accounted_start start
  | allocated _ ha ih => exact (ih.allocated ha).1
  | @refused f g out pages _ ha ih =>
    rcases allocate_cases f pages with ⟨hnone, _⟩ | ⟨first, _, _, _, _, hsome⟩
    · rw [hnone] at ha
      cases ha
      exact ih
    · rw [hsome] at ha
      cases ha
  | released _ hr hrelease ih => exact ih.released hr hrelease

/-- A run of `pages` frames that are neither reserved nor outstanding. -/
def Available (start : Frames arch) (out : List Run) (first pages : ℕ) : Prop :=
  0 < pages ∧ first + pages ≤ arch.frameCount ∧
    ∀ i, first ≤ i → i < first + pages → Free start out i

theorem Accounted.available_iff (h : Accounted start f out) {first n} :
    Available start out first n ↔
      0 < n ∧ first + n ≤ arch.frameCount ∧ FreeRun f.isUsed first n := by
  refine and_congr_right fun _ => and_congr_right fun hend => ?_
  exact forall_congr' fun i => forall_congr' fun _ => forall_congr' fun hi =>
    (h.used i (by omega)).symm

/-- **The frame allocator.** In every state that allocations, and releases of runs handed out,
lead to, a run that is handed out has no frame that is reserved or outstanding; and an
allocation fails only if there is no run of that many free frames, exactly when, if there is
one, there is one beside the hint: below it, or from it on. -/
theorem allocate_exclusive_complete (h : Reaches start f out) (pages : UInt64) :
    (∀ base g, f.allocate pages = (some base, g) → ∀ i, Run.Covers arch ⟨base, pages⟩ i →
      i < arch.frameCount ∧ Free start out i) ∧
    (((f.allocate pages).1 = none → ¬ ∃ first, Available start out first pages.toNat) ↔
      ((∃ first, Available start out first pages.toNat) →
        ∃ first, Available start out first pages.toNat ∧
          Beside f.allocationHint first pages.toNat)) := by
  have haccounted := h.accounted
  refine ⟨fun base g ha i hi => (haccounted.allocated ha).2 i hi, ?_, ?_⟩
  · intro hcomplete havailable
    rcases allocate_cases f pages with ⟨hnone, _⟩ | ⟨first, hpos, hend, hfree, hside, _⟩
    · exact absurd havailable (hcomplete (by rw [hnone]))
    · exact ⟨first, haccounted.available_iff.mpr ⟨hpos, hend, hfree⟩, hside⟩
  · intro hbeside hnone havailable
    obtain ⟨first, havailable, hside⟩ := hbeside havailable
    obtain ⟨hpos, hend, hfree⟩ := haccounted.available_iff.mp havailable
    rcases allocate_cases f pages with ⟨_, hmissed⟩ | ⟨_, _, _, _, _, hsome⟩
    · exact hmissed hpos first hend hside hfree
    · rw [hsome] at hnone
      cases hnone

/-! ### A run across the hint -/

theorem address_inj {i j : ℕ} (hi : i ≤ arch.frameCount) (hj : j ≤ arch.frameCount)
    (h : address arch i = address arch j) : i = j := by
  rw [← (address_spec hi).2, h, (address_spec hj).2]

/-- A page that is outstanding can be released; the hint then is no higher than the page. -/
theorem Reaches.release_page (h : Reaches start f out) {i} (hi : i < arch.frameCount)
    (hmem : ⟨address arch i, 1⟩ ∈ out) :
    ∃ g, Reaches start g (out.erase ⟨address arch i, 1⟩) ∧
      g.allocationHint = min f.allocationHint i ∧
      ∀ j, g.isUsed j = if j = i then false else f.isUsed j := by
  have haccounted := h.accounted
  obtain ⟨haddress, hframe⟩ := address_spec hi.le
  have hused : ∀ j, i ≤ j → j < i + 1 → f.isUsed j = true := by
    intro j hij hji
    obtain rfl : j = i := by omega
    rw [← Bool.not_eq_false, haccounted.used j hi]
    refine fun hfree => hfree.2 _ hmem ?_
    rw [Run.Covers, hframe]
    exact ⟨le_refl _, Nat.lt_succ_self _⟩
  obtain ⟨g', hg'⟩ := giveBack_isSome (by omega) hused
  have hend := arch.ramEnd_eq
  have hramStart : arch.ramStart.toNat % 4096 = 0 := by cases arch <;> decide
  have hbounds : address arch i % PAGE = 0 ∧ address arch i ≥ arch.ramStart ∧
      (address arch i).toNat + (1 : UInt64).toNat * 4096 ≤ arch.ramEnd.toNat := by
    refine ⟨UInt64.toNat_inj.mp ?_, UInt64.le_iff_toNat_le.mpr (by omega), ?_⟩
    · rw [UInt64.toNat_mod, haddress]
      show (_ + i * 4096) % 4096 = 0
      omega
    · show _ + 1 * 4096 ≤ _
      omega
  have hrelease : f.release (address arch i) 1 =
      some { g' with allocationHint := min g'.allocationHint i } := by
    unfold release
    rw [if_pos hbounds]
    dsimp only
    rw [show ((address arch i - arch.ramStart) / PAGE).toNat = i from hframe]
    show (giveBack (List.range' i 1) f).map _ = _
    rw [hg']
    rfl
  obtain ⟨hhint, hbits⟩ := giveBack_eq_some (by omega) hg'
  refine ⟨_, h.released hmem hrelease, congrArg (min · i) hhint, fun j => ?_⟩
  refine (hbits j).trans ?_
  by_cases hj : j = i
  · rw [if_pos hj, if_pos (by omega)]
  · rw [if_neg hj, if_neg (by omega)]

/-- The free frames. -/
def freeFrames (f : Frames arch) : Finset ℕ :=
  (Finset.range arch.frameCount).filter fun i => f.isUsed i = false

/-- Taking pages one by one uses up all memory, since no single page lies across the hint. -/
theorem Reaches.fill (h : Reaches start f out) (hpages : ∀ r ∈ out, r.pages = 1) :
    ∃ g out', Reaches start g out' ∧ (∀ r ∈ out', r.pages = 1) ∧
      ∀ i, i < arch.frameCount → g.isUsed i = true := by
  -- by induction on the number of frames that are free
  generalize hn : (freeFrames f).card = n
  induction n generalizing f out with
  | zero =>
    refine ⟨f, out, h, hpages, fun i hi => ?_⟩
    have hempty := Finset.card_eq_zero.mp hn
    by_contra hfree
    have hmem : i ∈ freeFrames f :=
      Finset.mem_filter.mpr ⟨Finset.mem_range.mpr hi, Bool.eq_false_iff.mpr hfree⟩
    rw [hempty] at hmem
    cases hmem
  | succ n ih =>
    obtain ⟨i, hi⟩ := Finset.card_pos.mp (by omega : 0 < (freeFrames f).card)
    obtain ⟨hrange, hfree⟩ := Finset.mem_filter.mp hi
    have hi := Finset.mem_range.mp hrange
    have hone : (1 : UInt64).toNat = 1 := rfl
    -- a free frame is a run of one page that does not lie across the hint
    rcases allocate_cases f 1 with ⟨_, hmissed⟩ | ⟨first, hpos, hend, hfirst, _, hsome⟩
    · refine absurd (fun j hij hji => ?_)
        (hmissed (by decide) i hi (by unfold Beside; rw [hone]; omega))
      exact (by omega : j = i) ▸ hfree
    · refine ih (h.allocated hsome) (fun r hr => ?_) ?_
      · rcases List.mem_cons.mp hr with rfl | hr
        · rfl
        · exact hpages r hr
      · rw [hone] at hend hfirst
        have herase : freeFrames ({ (List.range' first 1).foldl take f with
            allocationHint := (first + 1) % arch.frameCount } : Frames arch) =
            (freeFrames f).erase first := by
          ext j
          rw [Finset.mem_erase, freeFrames, freeFrames, Finset.mem_filter, Finset.mem_filter]
          show _ ∧ ((List.range' first 1).foldl take f).isUsed j = false ↔ _
          rw [isUsed_foldl_take hend]
          by_cases hj : j = first
          · rw [if_pos (by omega)]
            exact ⟨fun h => absurd h.2 (by decide), fun h => absurd hj h.1⟩
          · rw [if_neg (by omega)]
            exact ⟨fun h => ⟨hj, h⟩, fun h => h.2⟩
        have hmem : first ∈ freeFrames f :=
          Finset.mem_filter.mpr ⟨Finset.mem_range.mpr (by omega),
            hfirst first (le_refl _) (by omega)⟩
        refine (congrArg Finset.card herase).trans ?_
        rw [Finset.card_erase_of_mem hmem, hn]
        rfl

/-- When no frame is left, each that was free is outstanding as a page of its own. -/
theorem Reaches.mem_of_full (h : Reaches start f out) (hpages : ∀ r ∈ out, r.pages = 1)
    (hfull : ∀ i, i < arch.frameCount → f.isUsed i = true) {i} (hi : i < arch.frameCount)
    (hfree : start.isUsed i = false) : (⟨address arch i, 1⟩ : Run) ∈ out := by
  have hused := hfull i hi
  rw [← Bool.not_eq_false, h.accounted.used i hi] at hused
  have hcovered : ∃ r ∈ out, r.Covers arch i := by
    by_contra hnone
    push Not at hnone
    exact hused ⟨hfree, hnone⟩
  obtain ⟨⟨base, pages⟩, hr, hcovers⟩ := hcovered
  obtain ⟨first, hbase, _, hend⟩ := h.accounted.placed _ hr
  obtain rfl : pages = 1 := hpages _ hr
  obtain rfl : base = address arch first := hbase
  change first + 1 ≤ arch.frameCount at hend
  rw [Run.Covers, (address_spec (by omega)).2] at hcovers
  change first ≤ i ∧ i < first + 1 at hcovers
  obtain rfl : first = i := by omega
  exact hr

/-- Four free frames in a row lead to two free frames across the hint, and no other. -/
theorem exists_across_hint {a} (ha : a + 4 < arch.frameCount)
    (hfree : ∀ i, a ≤ i → i < a + 4 → start.isUsed i = false) :
    ∃ f out, Reaches start f out ∧ Available start out a 2 ∧ (f.allocate 2).1 = none := by
  obtain ⟨f, out, hreach, hpages, hfull⟩ :=
    (Reaches.start : Reaches start start []).fill fun r hr => by cases hr
  have hout : ∀ i, a ≤ i → i < a + 4 → (⟨address arch i, 1⟩ : Run) ∈ out := fun i hai hia =>
    hreach.mem_of_full hpages hfull (by omega) (hfree i hai hia)
  have hne : ∀ {i j : ℕ}, i < arch.frameCount → j < arch.frameCount → i ≠ j →
      (⟨address arch i, 1⟩ : Run) ≠ ⟨address arch j, 1⟩ := fun hi hj hij h =>
    hij (address_inj hi.le hj.le (Run.mk.inj h).1)
  -- free the third and the fourth frame, and the first
  obtain ⟨f₁, hreach₁, hhint₁, hused₁⟩ :=
    hreach.release_page (by omega) (hout (a + 2) (by omega) (by omega))
  obtain ⟨f₂, hreach₂, hhint₂, hused₂⟩ := hreach₁.release_page (i := a + 3) (by omega)
    ((List.mem_erase_of_ne (hne (by omega) (by omega) (by omega))).mpr
      (hout (a + 3) (by omega) (by omega)))
  obtain ⟨f₃, hreach₃, hhint₃, hused₃⟩ := hreach₂.release_page (i := a) (by omega)
    ((List.mem_erase_of_ne (hne (by omega) (by omega) (by omega))).mpr
      ((List.mem_erase_of_ne (hne (by omega) (by omega) (by omega))).mpr
        (hout a (by omega) (by omega))))
  have hfree₃ : ∀ j, j < arch.frameCount →
      (f₃.isUsed j = false ↔ j = a ∨ j = a + 2 ∨ j = a + 3) := by
    intro j hj
    rw [hused₃, hused₂, hused₁, hfull j hj]
    by_cases h₀ : j = a <;> by_cases h₂ : j = a + 2 <;> by_cases h₃ : j = a + 3 <;>
      simp [h₀, h₂, h₃]
  have htwo : (2 : UInt64).toNat = 2 := rfl
  -- two pages go to the third and the fourth frame, and the hint goes beyond them
  rcases allocate_cases f₃ 2 with ⟨_, hmissed⟩ | ⟨first, _, hend, hrun, _, hsome⟩
  · refine absurd (fun j hlow hhigh => ?_) (hmissed (by decide) (a + 2) (by omega) (.inr (by omega)))
    rw [hfree₃ j (by omega)]
    omega
  rw [htwo] at hend hrun hsome
  have hfirst : first = a + 2 := by
    have h₀ := (hfree₃ first (by omega)).mp (hrun first (by omega) (by omega))
    have h₁ := (hfree₃ (first + 1) (by omega)).mp (hrun (first + 1) (by omega) (by omega))
    omega
  subst hfirst
  have hreach₄ := hreach₃.allocated hsome
  -- the second frame joins the first, and the hint goes between them
  have hmem : (⟨address arch (a + 1), 1⟩ : Run) ∈ (⟨address arch (a + 2), 2⟩ : Run) ::
      ((out.erase ⟨address arch (a + 2), 1⟩).erase ⟨address arch (a + 3), 1⟩).erase
        ⟨address arch a, 1⟩ := by
    refine List.mem_cons_of_mem _ ?_
    refine (List.mem_erase_of_ne (hne (by omega) (by omega) (by omega))).mpr ?_
    refine (List.mem_erase_of_ne (hne (by omega) (by omega) (by omega))).mpr ?_
    refine (List.mem_erase_of_ne (hne (by omega) (by omega) (by omega))).mpr ?_
    exact hout (a + 1) (by omega) (by omega)
  obtain ⟨f₅, hreach₅, hhint₅, hused₅⟩ := hreach₄.release_page (i := a + 1) (by omega) hmem
  have hhint : f₅.allocationHint = a + 1 := by
    rw [hhint₅]
    show min ((a + 2 + 2) % arch.frameCount) (a + 1) = a + 1
    rw [Nat.mod_eq_of_lt (by omega)]
    omega
  have hfree₅ : ∀ j, j < arch.frameCount → (f₅.isUsed j = false ↔ j = a ∨ j = a + 1) := by
    intro j hj
    rw [hused₅]
    show (if j = a + 1 then false else ((List.range' (a + 2) 2).foldl take f₃).isUsed j) = false ↔ _
    rw [isUsed_foldl_take (by omega)]
    by_cases h₁ : j = a + 1
    · simp [h₁]
    · by_cases h₂ : a + 2 ≤ j ∧ j < a + 2 + 2
      · rw [if_neg h₁, if_pos h₂]
        exact ⟨fun h => absurd h (by decide), fun h => by omega⟩
      · rw [if_neg h₁, if_neg h₂, hfree₃ j hj]
        omega
  refine ⟨f₅, _, hreach₅, hreach₅.accounted.available_iff.mpr ⟨by omega, by omega, ?_⟩, ?_⟩
  · intro j hlow hhigh
    rw [hfree₅ j (by omega)]
    omega
  · rcases allocate_cases f₅ 2 with ⟨hnone, _⟩ | ⟨first, _, hend, hrun, hside, _⟩
    · rw [hnone]
    · rw [htwo] at hend hrun hside
      have h₀ := (hfree₅ first (by omega)).mp (hrun first (by omega) (by omega))
      have h₁ := (hfree₅ (first + 1) (by omega)).mp (hrun (first + 1) (by omega) (by omega))
      rw [hhint] at hside
      unfold Beside at hside
      omega

/-- The memory of a machine with the layout that the boot loader sets up by default. -/
def defaultHandoff : BootHandoff :=
  { ramEnd := 0x8000_0000
    bootfsAddr := 0x4400_0000
    bootfsLen := 0x0200_0000
    updateBase := 0x4200_0000
    updateLen := 0x0140_0000
    bootEvidenceAddr := 0x43f0_0000
    bootEvidenceLen := 4096
    framebuffer := none }

theorem defaultHandoff_free (i) (hlow : 4608 ≤ i) (hhigh : i < 4612) :
    (new 0x4120_0000 defaultHandoff : Frames .aarch64).isUsed i = false := by
  have hcount : Arch.aarch64.frameCount = 262144 := by decide
  rw [isUsed_new (by omega)]
  have hfirst : pageIndexAtOrAfter .aarch64 0x4120_0000 = 4608 := by decide
  have hend : pageIndexAtOrAfter .aarch64 defaultHandoff.ramEnd = 262144 := by decide
  rw [hfirst, hend]
  refine ⟨hlow, by omega, fun r hr h => ?_⟩
  have hregions : (defaultHandoff.regions.all fun r =>
      decide (8192 ≤ pageIndexAtOrAfter .aarch64 r.1)) = true := by decide
  have := of_decide_eq_true (List.all_eq_true.mp hregions r hr)
  omega

/-- Two free frames that an allocation of two pages does not find. -/
theorem allocate_missed : ∃ (f : Frames .aarch64) (out : List Run) (first : ℕ),
      Reaches (new 0x4120_0000 defaultHandoff) f out ∧
      Available (new 0x4120_0000 defaultHandoff : Frames .aarch64) out first (2 : UInt64).toNat ∧
      (f.allocate 2).1 = none := by
  have hcount : Arch.aarch64.frameCount = 262144 := by decide
  obtain ⟨f, out, hreach, havailable, hnone⟩ :=
    exists_across_hint (a := 4608) (by omega) defaultHandoff_free
  exact ⟨f, out, 4608, hreach, havailable, hnone⟩

theorem allocate_exclusive_complete_default :
    ∃ base g, (new 0x4120_0000 defaultHandoff : Frames .aarch64).allocate 2 = (some base, g) ∧
      ∀ i, Run.Covers .aarch64 ⟨base, 2⟩ i → i < Arch.aarch64.frameCount ∧
        Free (new 0x4120_0000 defaultHandoff : Frames .aarch64) [] i := by
  have hcount : Arch.aarch64.frameCount = 262144 := by decide
  rcases allocate_cases (new 0x4120_0000 defaultHandoff : Frames .aarch64) 2 with
    ⟨_, hmissed⟩ | ⟨first, _, _, _, _, hsome⟩
  · refine absurd (fun i hlow hhigh => ?_)
      (hmissed (by decide) 4608 (by rw [hcount]; decide) (.inr (Nat.zero_le _)))
    change i < 4608 + 2 at hhigh
    exact defaultHandoff_free i hlow (by omega)
  · exact ⟨_, _, hsome, (allocate_exclusive_complete Reaches.start 2).1 _ _ hsome⟩

end Frames

end Bexos
