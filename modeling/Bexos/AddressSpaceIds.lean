/-
Address-space identifiers.

`create_process` takes an identifier (ASID) from a counter that starts again at 1 after the
greatest identifier; nothing takes one back, and no process ever changes its identifier.  So
the process with index `i` has the identifier `i % max + 1`, where `max` is the greatest one.

* `asids_distinct` — with identifiers of 16 bits two processes alive at one time never share
  one; with 8 bits only the first and the 256th process can, and they do;
* `asids_shared` — 256 processes at 8 bits.

Design notes: a process is alive until it has exited.  The identifier 0 is reserved: the
kernel flushes the translations whenever it switches to an address space with it, and only
then.
-/
import Bexos.SlotFrames
import Bexos.RuntimeOps

namespace Bexos

open Prog

/-- Does an operation create a process? -/
def Op.populates {B : Type} : Op B → Bool
  | .createProcessWithPolicy .. | .createProcessInJob .. => true
  | _ => false

namespace AsidAllocator

/-- The identifier of the process with a given index. -/
def nth (a : AsidAllocator) (i : ℕ) : ℕ := if a.max = 0 then 0 else i % a.max.toNat + 1

/-- The greatest identifiers there are. -/
def Supported (a : AsidAllocator) : Prop := a.max = 0 ∨ a.max = 0xff ∨ a.max = 0xffff

variable {a : AsidAllocator}

theorem Supported.toNat (ha : a.Supported) (hmax : a.max ≠ 0) :
    a.max.toNat = 255 ∨ a.max.toNat = 65535 := by
  rcases ha with h | h | h
  · exact absurd h hmax
  · exact .inl (by rw [h]; rfl)
  · exact .inr (by rw [h]; rfl)

/-- The counter is ready for the process with index `n`. -/
def Ready (a : AsidAllocator) (n : ℕ) : Prop :=
  a.Supported ∧ (a.max ≠ 0 → a.next.toNat = a.nth n)

theorem ready_new (support) : (new support).Ready 0 := by
  cases support
  · exact ⟨.inl rfl, fun h => absurd rfl h⟩
  · exact ⟨.inr (.inl rfl), fun _ => rfl⟩
  · exact ⟨.inr (.inr rfl), fun _ => rfl⟩

/-- The counter goes round. -/
theorem Ready.allocate {b n asid} (ha : a.Ready n) (h : a.allocate = some (asid, b)) :
    asid.toNat = a.nth n ∧ b.Ready (n + 1) ∧ b.max = a.max := by
  obtain ⟨hsupported, hnext⟩ := ha
  unfold AsidAllocator.allocate at h
  by_cases hmax : a.max = 0
  · rw [if_pos hmax] at h
    obtain ⟨rfl, rfl⟩ := Prod.mk.inj (Option.some.inj h)
    exact ⟨by rw [nth, if_pos hmax]; rfl, ⟨hsupported, fun hne => absurd hmax hne⟩, rfl⟩
  rw [if_neg hmax] at h
  split at h
  · cases h
  obtain ⟨rfl, rfl⟩ := Prod.mk.inj (Option.some.inj h)
  refine ⟨hnext hmax, ⟨hsupported, fun _ => ?_⟩, rfl⟩
  have hnow := hnext hmax
  unfold nth at hnow ⊢
  rw [if_neg hmax] at hnow
  rw [if_neg hmax]
  have hlast : a.next = a.max ↔ n % a.max.toNat + 1 = a.max.toNat := by
    rw [← UInt16.toNat_inj, hnow]
  have hwidth := hsupported.toNat hmax
  by_cases h : a.next = a.max
  · rw [if_pos h]
    have := hlast.mp h
    show 1 = (n + 1) % a.max.toNat + 1
    rcases hwidth with hwidth | hwidth <;> rw [hwidth] at this ⊢ <;> omega
  · rw [if_neg h, UInt16.toNat_add, hnow]
    have := mt hlast.mpr h
    show (n % a.max.toNat + 1 + 1) % 65536 = (n + 1) % a.max.toNat + 1
    rcases hwidth with hwidth | hwidth <;> rw [hwidth] at this ⊢ <;> omega

/-- The first identifier to come twice. -/
theorem Supported.nth_inj (ha : a.Supported) {i j} (hi : i < j) (hj : j < 256)
    (hzero : a.nth i ≠ 0) : a.nth i = a.nth j ↔ a.max = 0xff ∧ i = 0 ∧ j = 255 := by
  unfold nth at hzero ⊢
  rcases ha with h | h | h
  · rw [if_pos h] at hzero
    exact absurd rfl hzero
  · rw [h]
    show i % 255 + 1 = j % 255 + 1 ↔ _
    simp only [true_and]
    omega
  · rw [h]
    show i % 65535 + 1 = j % 65535 + 1 ↔ _
    have hne : (0xffff : UInt16) ≠ 0xff := by decide
    simp only [hne, false_and, iff_false]
    omega

end AsidAllocator

namespace Runtime

variable {B : Type} {s : Runtime B} {rights : UInt32}

/-- No two processes alive at one time have the same identifier, unless it is the reserved one. -/
def AsidsDistinct (s : Runtime B) : Prop :=
  ∀ (i j : ℕ) (p q : Process), s.processes[i]? = some p → s.processes[j]? = some q →
    p.exited = false → q.exited = false → p.asid ≠ 0 → p.asid = q.asid → i = j

/-- There is a process with a given index, and it has not exited. -/
def Alive (s : Runtime B) (i : ℕ) : Prop := ∃ p, s.processes[i]? = some p ∧ p.exited = false

/-! ### The identifiers are numbered through -/

/-- The processes have their identifiers in turn, and the counter is ready for the next one. -/
structure Numbered (s : Runtime B) : Prop where
  count : s.processes.length ≤ MAX_PROCESSES
  ready : s.asids.Ready s.processes.length
  asid : ∀ i p, s.processes[i]? = some p → p.asid.toNat = s.asids.nth i

/-- The parts of the state other than the processes there are and the identifiers. -/
abbrev offPopulation : List Part :=
  [.handover, .dirty, .reclaim, .backend, .layout, .life, .space, .jobs, .current, .threadLife,
    .threadRun, .threadContext, .vmos, .regions, .vmarRefs, .handles, .channels, .sockets,
    .profiles, .scheduler, .pins, .iommuDomains, .dmaMappings, .interrupts, .counters]

variable {t : Runtime B} {owner : ℕ} {parent : Option ℕ}

theorem Numbered.of_touches (hs : s.Numbered) (ht : Touches offPopulation s t) : t.Numbered := by
  obtain ⟨hpopulation, hasids⟩ := ht .population (by decide)
  have hlen : t.processes.length = s.processes.length := by
    simpa using congrArg List.length hpopulation
  refine ⟨hlen ▸ hs.count, by rw [hasids, hlen]; exact hs.ready, fun i q hq => ?_⟩
  obtain ⟨p, hp, heq⟩ := exists_of_map_eq (getElem?_of_map_eq hpopulation i) hq
  have hasid : p.asid = q.asid := congrArg (fun x => x.2.2.2.2.2.2) heq
  rw [hasids, ← hasid, hs.asid i p hp]

/-- One more process, with the next identifier. -/
theorem Numbered.push {p} (hs : s.Numbered) (hroom : s.processes.length < MAX_PROCESSES)
    (hprocesses : t.processes = s.processes ++ [p])
    (hasid : s.asids.allocate = some (p.asid, t.asids)) : t.Numbered := by
  obtain ⟨hnth, hready, hmax⟩ := hs.ready.allocate hasid
  have hnths : t.asids.nth = s.asids.nth := by
    funext i
    unfold AsidAllocator.nth
    rw [hmax]
  have hlen : t.processes.length = s.processes.length + 1 := by rw [hprocesses]; simp
  refine ⟨by omega, hlen ▸ hready, fun i q hq => ?_⟩
  rw [hnths]
  rcases of_getElem?_concat (hprocesses ▸ hq) with ⟨rfl, rfl⟩ | hq
  · exact hnth
  · exact hs.asid i q hq

variable [Backend B]

set_option synthInstance.maxSize 100000 in
theorem numbered_exec {op : Op B} (hop : op.populates = false) :
    Moves (Touches offPopulation) (exec op) := by
  cases op <;> first
    | exact Bool.noConfusion hop
    | (unfold exec; infer_instance)

/-- The root region of a new process is always accepted. -/
theorem wp_insertVmar_root {R : Runtime B → Runtime B → Prop} {Q : ℕ → Runtime B → Prop}
    {E : Status → Runtime B → Prop}
    [hR : Moves R (insertVmar owner none (Backend.arch B).userStart
      (USER_END - (Backend.arch B).userStart) rights : RtM B ℕ)] (hQ : ∀ id t, R s t → Q id t) :
    wp (insertVmar owner none (Backend.arch B).userStart
      (USER_END - (Backend.arch B).userStart) rights) Q E s := by
  have haligned : ¬ (USER_END - (Backend.arch B).userStart = 0 ∨
      (USER_END - (Backend.arch B).userStart) % PAGE ≠ 0 ∨
      (Backend.arch B).userStart % PAGE ≠ 0) := by
    cases Backend.arch B <;> decide
  have hbounds : ¬ (endsAbove (Backend.arch B).userStart
      (USER_END - (Backend.arch B).userStart) USER_END ∨
      (Backend.arch B).userStart < (Backend.arch B).userStart) := by
    cases Backend.arch B <;> decide
  have hok : wp (insertVmar owner none (Backend.arch B).userStart
      (USER_END - (Backend.arch B).userStart) rights) (fun _ _ => True) (fun _ _ => False) s := by
    simp only [insertVmar, checkVmarParent, changed, wp_bind, wp_check, wp_get, wp_modify,
      wp_pure]
    exact ⟨fun _ => ⟨fun _ => trivial, fun h => absurd hbounds h⟩, fun h => absurd haligned h⟩
  exact wp_mono (wp_and (hR.run s) hok) (fun id t ht => hQ id t ht.1) fun _ _ h => h.2.elim

set_option synthInstance.maxSize 100000 in
theorem numbered_createProcess {name package hardware group realtime job} (hs : s.Numbered) :
    ends (createProcessWithFixedPolicy name package hardware group realtime job) Numbered s := by
  simp only [createProcessWithFixedPolicy, wp_bind, wp_get, wp_check]
  refine ⟨fun hok => ?_, fun _ => hs⟩
  have hroom : s.processes.length < MAX_PROCESSES := by
    simp only [not_or, Nat.not_le] at hok
    exact hok.2.2.2.2.2
  refine wp_of_moves (R := Touches offPopulation) (fun root t ht => ?_) fun _ _ ht =>
    hs.of_touches ht
  have hlen : t.processes.length = s.processes.length := by
    simpa using congrArg List.length (ht .population (by decide)).1
  simp only [allocateAsid, wp_bind, wp_get, wp_some?, wp_modify, wp_pure]
  refine ⟨fun p hasid => ?_, fun _ => hs.of_touches ht⟩
  obtain ⟨asid, asids⟩ := p
  refine wp_insertVmar_root (R := Touches offPopulation) fun rootVmar u hu => ?_
  -- but for the counter the processes are those of the state before
  obtain ⟨hpopulation, hasids⟩ := hu .population (by decide)
  have hold : ({ u with asids := t.asids } : Runtime B).Numbered := by
    refine (hs.of_touches ht).of_touches fun p hp => ?_
    cases p <;> first | exact absurd (by decide) hp | exact And.intro hpopulation rfl
  have hlen' : u.processes.length = t.processes.length := by
    simpa using congrArg List.length hpopulation
  have hnew : ({ u with
      processes := u.processes ++ [u.newProcess name package hardware group realtime job root
        asid rootVmar] } : Runtime B).Numbered :=
    hold.push (by show u.processes.length < MAX_PROCESSES; omega) rfl
      (hasid.trans (by rw [hasids]; rfl))
  rw [wp_bind, wp_modify]
  exact wp_of_moves (R := Touches offPopulation) (fun _ _ hv => hnew.of_touches hv)
    fun _ _ hv => hnew.of_touches hv

/-- What the creation of a process keeps, each operation that creates one keeps. -/
theorem keeps_of_populates {op : Op B} {I : Runtime B → Prop} (hop : op.populates = true)
    (hs : I s) (hnew : ∀ name package hardware group realtime job,
      ends (createProcessWithFixedPolicy name package hardware group realtime job) I s) :
    ends (exec op) I s := by
  cases op <;> first | exact Bool.noConfusion hop | unfold exec discard
  case createProcessWithPolicy =>
    unfold ends createProcessWithPolicy
    rw [wp_bind, wp_bind]
    refine wp_of_moves (R := Eq) ?_ fun _ _ ht => ht ▸ hs
    rintro _ _ rfl
    exact wp_mono (hnew ..) fun _ _ hu => (wp_pure _).mpr hu
  case createProcessInJob =>
    unfold createProcessInJob
    simp only [wp_bind, wp_get, wp_check]
    refine ⟨fun _ => wp_cap (fun c _ => ?_) fun _ => hs, fun _ => hs⟩
    simp only [wp_bind, wp_some?, wp_check, hs, implies_true, and_true]
    exact fun id _ policy _ _ =>
      wp_mono (hnew ..) fun _ _ hu => (wp_pure _).mpr hu

/-! ### Runs -/

omit [Backend B] in
theorem numbered_new (backend : B) (cpuCount : ℕ) (support : AsidSupport) :
    (withCpuCount backend cpuCount support).Numbered := by
  unfold withCpuCount
  split <;>
    exact ⟨Nat.zero_le _, AsidAllocator.ready_new support, fun i p hp => by
      simp [Runtime.new] at hp⟩

theorem numbered_of_reaches {C : Runtime B → Op B → Prop} (h : Reaches C s) : s.Numbered := by
  refine h.invariant numbered_new fun s op hs _ => ?_
  cases hop : op.populates with
  | true => exact keeps_of_populates hop hs fun _ _ _ _ _ _ => numbered_createProcess hs
  | false =>
    exact wp_mono ((numbered_exec hop).run s) (fun _ _ ht => hs.of_touches ht)
      fun _ _ ht => hs.of_touches ht

/-- **Address-space identifiers are not shared,** in any state that a runtime reaches, unless
identifiers have 8 bits and the first and the 256th process are alive at one time. -/
theorem asids_distinct {s : Runtime B} (h : Reaches (fun _ _ => True) s) :
    s.AsidsDistinct ↔ ¬ (s.asids.max = 0xff ∧ s.Alive 0 ∧ s.Alive 255) := by
  have hs := numbered_of_reaches h
  have hsupported := hs.ready.1
  constructor
  · rintro hdistinct ⟨hmax, ⟨p, hp, hplive⟩, q, hq, hqlive⟩
    have hpasid := hs.asid 0 p hp
    have hqasid := hs.asid 255 q hq
    unfold AsidAllocator.nth at hpasid hqasid
    rw [hmax] at hpasid hqasid
    have hne : p.asid ≠ 0 := fun h => by rw [h] at hpasid; exact absurd hpasid (by decide)
    have heq : p.asid = q.asid := UInt16.toNat_inj.mp (hpasid.trans hqasid.symm)
    exact absurd (hdistinct 0 255 p q hp hq hplive hqlive hne heq) (by decide)
  · intro hspared i j p q hp hq hplive hqlive hne heq
    have hlt : ∀ {k : ℕ} {r : Process}, s.processes[k]? = some r → k < 256 := fun hr =>
      Nat.lt_of_lt_of_le (getElem?_eq_some_iff.mp hr).1 hs.count
    have hpasid := hs.asid i p hp
    have hqasid := hs.asid j q hq
    have hzero : p.asid.toNat ≠ 0 := fun h => hne (UInt16.toNat_inj.mp h)
    rcases Nat.lt_trichotomy i j with hij | hij | hij
    · obtain ⟨hmax, rfl, rfl⟩ := (hsupported.nth_inj hij (hlt hq) (hpasid ▸ hzero)).mp
        (by rw [← hpasid, heq, hqasid])
      exact absurd ⟨hmax, ⟨p, hp, hplive⟩, q, hq, hqlive⟩ hspared
    · exact hij
    · obtain ⟨hmax, rfl, rfl⟩ :=
        (hsupported.nth_inj hij (hlt hp) (by rw [← hqasid, ← heq]; exact hzero)).mp
        (by rw [← hpasid, heq, hqasid])
      exact absurd ⟨hmax, ⟨q, hq, hqlive⟩, p, hp, hplive⟩ hspared

/-! ### As many processes as there can be -/

omit [Backend B] in
theorem noHalt_fillSlot (c s) : NoHalt (fillSlot c : RtM B ℕ) s := by
  simp only [fillSlot, changed, noHalt_bind, wp_get, wp_modify, noHalt_get, noHalt_modify,
    noHalt_pure, and_self]

omit [Backend B] in
theorem noHalt_grant_vmar {id} (hfound : (s.vmar id).isSome) :
    NoHalt (grant owner (.vmar id) rights : RtM B ℕ) s := by
  obtain ⟨v, hv⟩ := Option.isSome_iff_exists.mp hfound
  simp only [grant, markObject, acquireRef, changed, noHalt_bind, wp_bind, wp_get, wp_modify,
    wp_unwrap, noHalt_get, noHalt_modify, noHalt_fillSlot, true_and, implies_true, and_true]
  exact noHalt_unwrap (a := v) hv

theorem noHalt_insertVmar {base size} (howner : parent = none ∨ owner < s.processes.length) :
    NoHalt (insertVmar owner parent base size rights) s := by
  have hparent : NoHalt (checkVmarParent owner base size rights parent) s := by
    cases parent with
    | none => exact noHalt_pure ()
    | some id =>
      have hp := List.getElem?_eq_getElem (howner.resolve_left (by simp))
      simp only [checkVmarParent, noHalt_bind, wp_get, wp_some?, wp_check, wp_unwrap, noHalt_get,
        noHalt_some?, noHalt_check, true_and, implies_true, and_true]
      exact fun _ _ _ _ => noHalt_unwrap hp
  simp only [insertVmar, changed, noHalt_bind, wp_check, wp_get, wp_modify, noHalt_check,
    noHalt_get, noHalt_modify, noHalt_pure, hparent, true_and, implies_true, and_true]
  exact fun _ _ => wp_true _

/-- A region that was made is there. -/
theorem wp_insertVmar_found {base size} :
    wp (insertVmar owner parent base size rights) (fun id t => (t.vmar id).isSome)
      (fun _ _ => True) s := by
  simp only [insertVmar, changed, wp_bind, wp_check, implies_true, and_true]
  refine fun _ _ => wp_mono (wp_true _) fun _ t _ => ?_
  simp [vmar]

/-- The creation of a process does not stop the kernel. -/
theorem noHalt_createProcess (name package : Text) (hardware group : UInt32) (realtime : Bool)
    (job : Option ℕ) (s : Runtime B) :
    NoHalt (createProcessWithFixedPolicy name package hardware group realtime job) s := by
  simp only [createProcessWithFixedPolicy, noHalt_bind, wp_get, wp_check, noHalt_get,
    noHalt_check, true_and]
  refine ⟨fun _ => ?_, fun _ => trivial⟩
  simp only [tryBackend, allocateAsid, noHalt_bind, wp_bind, wp_get, wp_modify, wp_lift, wp_some?,
    wp_pure, noHalt_get, noHalt_modify, noHalt_lift, noHalt_some?, noHalt_pure, true_and, and_true,
    implies_true]
  intro root _ asid _
  refine ⟨noHalt_insertVmar (.inl rfl), ?_⟩
  refine wp_of_moves (R := Touches offPopulation) fun rootVmar t ht => ?_
  have hlen : t.processes.length = s.processes.length := by
    simpa using congrArg List.length (ht .population (by decide)).1
  refine ⟨noHalt_insertVmar (.inr (by simp [hlen])), ?_⟩
  refine wp_mono wp_insertVmar_found fun heapVmar u hu => ?_
  -- what is left are three capabilities, one of them to a region
  refine ⟨noHalt_grant_vmar hu, wp_mono (wp_true _) fun _ v _ => ?_⟩
  simp only [grantCurrent, grant, markObject, acquireRef, changed, noHalt_bind, wp_get, wp_pure,
    wp_modify, noHalt_get, noHalt_modify, noHalt_pure, noHalt_fillSlot, true_and]
  exact wp_mono (wp_true _) fun _ _ _ => wp_true _

/-- `n` processes on a machine with identifiers of 8 bits, all alive; the first of them, which
may create processes, runs. -/
structure Peopled (n : ℕ) (s : Runtime B) : Prop where
  count : s.processes.length = n
  width : s.asids.max = 0xff
  live : ∀ (i : ℕ) (p : Process), s.processes[i]? = some p → p.exited = false
  current : s.current = 0
  factory : 0 < n → s.hasAuthority AUTH_APP_MANAGER = true

/-- The parts of the state other than the processes there are, what happens to them, and which
of them runs. -/
abbrev offPeople : List Part :=
  [.handover, .dirty, .reclaim, .backend, .layout, .space, .jobs, .threadLife, .threadRun,
    .threadContext, .vmos, .regions, .vmarRefs, .handles, .channels, .sockets, .profiles,
    .scheduler, .pins, .iommuDomains, .dmaMappings, .interrupts, .counters]

omit [Backend B] in
theorem hasAuthority_eq (s : Runtime B) (authority : UInt32) :
    s.hasAuthority authority = ((s.processes[s.current]?).map Process.life).any fun l =>
      !l.quarantined && l.authority &&& authority == authority := by
  rw [Option.any_map]
  rfl

omit [Backend B] in
theorem Peopled.of_touches {n} (hs : s.Peopled n) (ht : Touches offPeople s t) : t.Peopled n := by
  have hcurrent := (ht .current (by decide)).1
  have hlife := getElem?_of_map_eq (ht .life (by decide))
  refine ⟨?_, ?_, fun i q hq => ?_, hcurrent.trans hs.current, fun hn => ?_⟩
  · have hlen := congrArg List.length (ht .life (by decide))
    simp only [List.length_map] at hlen
    exact hlen.trans hs.count
  · exact (congrArg AsidAllocator.max (ht .population (by decide)).2).trans hs.width
  · obtain ⟨p, hp, heq⟩ := exists_of_map_eq (hlife i) hq
    exact (congrArg Life.exited heq).symm.trans (hs.live i p hp)
  · rw [hasAuthority_eq, hcurrent, hlife, ← hasAuthority_eq]
    exact hs.factory hn

omit [Backend B] in
/-- One more process, which is alive. -/
theorem Peopled.push {s t : Runtime B} {p : Process} {n : ℕ} (hs : s.Peopled n)
    (hprocesses : t.processes = s.processes ++ [p]) (hcurrent : t.current = s.current)
    (hmax : t.asids.max = s.asids.max) (hlive : p.exited = false)
    (hfirst : n = 0 → p.quarantined = false ∧ p.authority = AUTH_APP_MANAGER) :
    t.Peopled (n + 1) := by
  have hlen := hs.count
  refine ⟨by rw [hprocesses, List.length_append, hlen]; rfl, hmax.trans hs.width,
    fun i q hq => ?_, hcurrent.trans hs.current, fun _ => ?_⟩
  · rw [hprocesses] at hq
    rcases List.mem_append.mp (List.mem_of_getElem? hq) with hmem | hmem
    · obtain ⟨j, hj⟩ := List.mem_iff_getElem?.mp hmem
      exact hs.live j q hj
    · rw [List.mem_singleton.mp hmem]
      exact hlive
  · unfold hasAuthority
    rw [hcurrent, hs.current, hprocesses]
    cases n with
    | zero =>
      rw [List.eq_nil_of_length_eq_zero hlen]
      obtain ⟨hquarantined, hauthority⟩ := hfirst rfl
      simp [hquarantined, hauthority]
    | succ n =>
      have hfactory := hs.factory (Nat.succ_pos n)
      unfold hasAuthority at hfactory
      rw [hs.current] at hfactory
      rw [List.getElem?_append_left (by omega)]
      exact hfactory

set_option synthInstance.maxSize 100000 in
open TestBackend in
/-- One more process of the service. -/
theorem peopled_create {n : ℕ} {s : Runtime TestBackend} (hs : s.Peopled n) (hnumbered : s.Numbered)
    (hn : n < 256) :
    ends (createProcessWithPolicy service service 0 1 false) (fun t => t.Peopled (n + 1)) s := by
  have hfactory : s.processes = [] ∨ s.hasAuthority AUTH_APP_MANAGER = true := by
    rcases Nat.eq_zero_or_pos n with hzero | hpos
    · exact .inl (List.eq_nil_of_length_eq_zero (hs.count.trans hzero))
    · exact .inr (hs.factory hpos)
  have hargs : ¬ (service.len = 0 ∨ service.len > 64 ∨ service.len > 96 ∨ (0 : UInt32) > 2 ∨
      (1 : UInt32) = 0 ∨ s.processes.length ≥ MAX_PROCESSES) := by
    have hlen : ¬ s.processes.length ≥ MAX_PROCESSES := by
      rw [hs.count]
      exact Nat.not_le.mpr hn
    simp only [hlen, or_false]
    decide
  -- the counter always gives an identifier
  obtain ⟨asid, asids, hasid⟩ : ∃ asid asids, s.asids.allocate = some (asid, asids) := by
    have hnext := hnumbered.ready.2 (by rw [hs.width]; decide)
    unfold AsidAllocator.allocate AsidAllocator.nth at *
    rw [hs.width] at hnext ⊢
    have hne : s.asids.next ≠ 0 := fun h => by rw [h] at hnext; cases hnext
    rw [if_neg (by decide), if_neg hne]
    exact ⟨_, _, rfl⟩
  have hmax : asids.max = s.asids.max := (hnumbered.ready.allocate hasid).2.2
  simp only [createProcessWithPolicy, checkFactory, createProcessWithFixedPolicy, wp_bind, wp_get,
    wp_check]
  refine ⟨fun _ => ⟨fun _ => ?_, fun h => absurd hargs h⟩, fun h => absurd hfactory h⟩
  simp only [tryBackend, allocateAsid, wp_bind, wp_get, wp_modify, wp_lift, wp_some?, wp_pure]
  refine ⟨fun root _ => ⟨fun x hx => ?_, fun hnone => ?_⟩, fun _ h => by cases h⟩
  · obtain rfl : (asid, asids) = x := Option.some.inj (hasid.symm.trans hx)
    refine wp_insertVmar_root (R := Touches offPeople) fun rootVmar t ht => ?_
    have hold : t.Peopled n := by
      refine Peopled.of_touches ?_ ht
      refine ⟨hs.count, hmax.trans hs.width, hs.live, hs.current, fun hn => ?_⟩
      have hfactory := hs.factory hn
      unfold hasAuthority at hfactory ⊢
      exact hfactory
    have hnew : ({ t with
        processes := t.processes ++ [t.newProcess service service 0 1 false none root asid
          rootVmar] } : Runtime TestBackend).Peopled (n + 1) := by
      refine hold.push rfl rfl rfl rfl fun hzero => ⟨rfl, if_pos (hold.count.trans hzero)⟩
    rw [wp_bind, wp_modify]
    exact wp_of_moves (R := Touches offPeople) (fun _ _ hu => hnew.of_touches hu)
      fun _ _ hu => hnew.of_touches hu
  · cases hasid.symm.trans hnone

open TestBackend in
/-- Up to 256 processes can be alive at one time. -/
theorem exists_peopled {n : ℕ} (hn : n ≤ 256) :
    ∃ s : Runtime TestBackend, Reaches (fun _ _ => True) s ∧ s.Peopled n := by
  induction n with
  | zero =>
    refine ⟨withCpuCount ⟨0x45000000⟩ 1 .bits8, ⟨_, _, _, .refl⟩, rfl, rfl, fun i p hp => ?_, rfl,
      fun h => absurd h (Nat.lt_irrefl 0)⟩
    rw [show (withCpuCount (⟨0x45000000⟩ : TestBackend) 1 .bits8).processes = [] from rfl] at hp
    cases hp
  | succ n ih =>
    obtain ⟨s, hreaches, hs⟩ := ih (by omega)
    have hends : NoHalt (exec (.createProcessWithPolicy service service 0 1 false)) s := by
      unfold exec discard createProcessWithPolicy checkFactory
      simp only [noHalt_bind, noHalt_get, noHalt_check, noHalt_pure, noHalt_createProcess, wp_true,
        and_self]
    obtain ⟨t, ht, hpeopled⟩ := exists_state_of_noHalt (P := Peopled (n + 1)) hends (by
      unfold ends exec discard
      rw [wp_bind]
      exact wp_mono (peopled_create hs (numbered_of_reaches hreaches) (by omega))
        fun _ _ h => (wp_pure _).mpr h)
    obtain ⟨backend, cpuCount, support, hsteps⟩ := hreaches
    exact ⟨t, ⟨backend, cpuCount, support, hsteps.tail trivial ht⟩, hpeopled⟩

/-- Two processes, with the identifiers 1 and 2. -/
theorem asids_distinct_two :
    ∃ s : Runtime TestBackend, Reaches (fun _ _ => True) s ∧ s.processes.length = 2 ∧
      s.AsidsDistinct := by
  obtain ⟨s, hreaches, hs⟩ := exists_peopled (n := 2) (by decide)
  refine ⟨s, hreaches, hs.count, (asids_distinct hreaches).mpr ?_⟩
  rintro ⟨_, _, q, hq, _⟩
  have hlt := (getElem?_eq_some_iff.mp hq).1
  rw [hs.count] at hlt
  omega

/-- With identifiers of 8 bits the 256th process has the identifier of the first. -/
theorem asids_shared : ∃ (s : Runtime TestBackend) (p q : Process), Reaches (fun _ _ => True) s ∧
      s.processes[0]? = some p ∧ s.processes[255]? = some q ∧ p.exited = false ∧
      q.exited = false ∧ p.asid = 1 ∧ q.asid = 1 ∧ ¬ s.AsidsDistinct := by
  obtain ⟨s, hreaches, hs⟩ := exists_peopled (n := 256) (le_refl _)
  have hnumbered := numbered_of_reaches hreaches
  have hfirst := List.getElem?_eq_getElem (l := s.processes) (i := 0) (by rw [hs.count]; decide)
  have hlast := List.getElem?_eq_getElem (l := s.processes) (i := 255) (by rw [hs.count]; decide)
  have hasid : ∀ {i : ℕ} {p : Process}, s.processes[i]? = some p → i % 255 = 0 → p.asid = 1 := by
    intro i p hp hi
    have h := hnumbered.asid i p hp
    unfold AsidAllocator.nth at h
    rw [hs.width, if_neg (by decide)] at h
    refine UInt16.toNat_inj.mp (h.trans ?_)
    show i % 255 + 1 = 1
    rw [hi]
  refine ⟨s, _, _, hreaches, hfirst, hlast, hs.live _ _ hfirst, hs.live _ _ hlast,
    hasid hfirst rfl, hasid hlast rfl, fun hdistinct => ?_⟩
  have hsame := hdistinct 0 255 _ _ hfirst hlast (hs.live _ _ hfirst) (hs.live _ _ hlast)
    (by rw [hasid hfirst rfl]; decide) ((hasid hfirst rfl).trans (hasid hlast rfl).symm)
  exact absurd hsame (by decide)

end Runtime

end Bexos
