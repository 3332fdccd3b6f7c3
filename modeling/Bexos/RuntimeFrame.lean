/-
What each operation may change.

The state is divided into parts (`Part`).  `Touches F s t` says that `s` and `t` agree on
every part that is not listed in `F`.  For each operation an instance of `Moves (Touches F)`
holds for every `F` that has the parts the operation writes (`Has`); a result about a few
parts of the state takes `F` to be all the others, and every operation that does not write
those parts is then covered by instance resolution.

Design notes: a process record is divided into its address-space layout, its life cycle, its
saved state and what never changes, the address-space identifier among it; a thread record
likewise.  Regions are compared up to their reference counts, which are a part of their own.
-/
import Bexos.RuntimeRestricted

namespace Bexos

open Prog

/-! ### Parts of the state -/

inductive Part where
  | handover | dirty | reclaim | backend | layout | life | space | population | jobs | current
  | threadLife | threadRun | threadContext | vmos | regions | vmarRefs | handles | channels
  | sockets | profiles | scheduler | pins | iommuDomains | dmaMappings | interrupts | counters
  deriving DecidableEq

/-- The address space of a process, as the runtime records it. -/
structure Layout where
  rootVmar : ℕ
  heapVmar : ℕ
  mappings : List Mapping
  nextVa : UInt64

/-- What happens to a process. -/
structure Life where
  exited : Bool
  running : Bool
  authority : UInt32
  quarantined : Bool

def Process.layout (p : Process) : Layout := ⟨p.rootVmar, p.heapVmar, p.mappings, p.nextVa⟩

def Process.life (p : Process) : Life := ⟨p.exited, p.running, p.authority, p.quarantined⟩

def Process.space (p : Process) : UInt64 × PacKeyMaterial × Context :=
  (p.root, p.userspacePacKey, p.context)

def Process.population (p : Process) : Text × Text × UInt32 × UInt32 × Option ℕ × Bool × UInt16 :=
  (p.name, p.package, p.hardware, p.resourceGroupId, p.job, p.realtimeScheduling, p.asid)

def Thread.life (t : Thread) : ℕ × Bool := (t.process, t.exited)

def Thread.run (t : Thread) : Bool × Option UInt64 × Bool :=
  (t.running, t.blockedFutex, t.blockedWaitMany)

def Thread.saved (t : Thread) : Context × Int32 × Option RestrictedBinding :=
  (t.context, t.exitCode, t.restricted)

/-- A region without its reference count. -/
def Vmar.region (v : Vmar) : Vmar := { v with refs := 0 }

namespace Runtime

variable {B : Type}

/-- Two states agree on a part. -/
def Same : Part → Runtime B → Runtime B → Prop
  | .handover, s, t => t.handover = s.handover
  | .dirty, s, t => t.dirty = s.dirty
  | .reclaim, s, t => t.deferReclamation = s.deferReclamation ∧ t.reclaimCursor = s.reclaimCursor
  | .backend, s, t => t.backend = s.backend
  | .layout, s, t => t.processes.map Process.layout = s.processes.map Process.layout
  | .life, s, t => t.processes.map Process.life = s.processes.map Process.life
  | .space, s, t => t.processes.map Process.space = s.processes.map Process.space
  | .population, s, t =>
    t.processes.map Process.population = s.processes.map Process.population ∧ t.asids = s.asids
  | .jobs, s, t => t.jobs = s.jobs
  | .current, s, t => t.current = s.current ∧ t.currentThread = s.currentThread
  | .threadLife, s, t => t.threads.map Thread.life = s.threads.map Thread.life
  | .threadRun, s, t => t.threads.map Thread.run = s.threads.map Thread.run
  | .threadContext, s, t => t.threads.map Thread.saved = s.threads.map Thread.saved
  | .vmos, s, t => t.vmos = s.vmos
  | .regions, s, t => t.vmars.map (Option.map Vmar.region) = s.vmars.map (Option.map Vmar.region)
  | .vmarRefs, s, t => t.vmars.map (Option.map Vmar.refs) = s.vmars.map (Option.map Vmar.refs)
  | .handles, s, t => t.handles = s.handles
  | .channels, s, t => t.channels = s.channels
  | .sockets, s, t => t.sockets = s.sockets
  | .profiles, s, t => t.profiles = s.profiles
  | .scheduler, s, t => t.scheduler = s.scheduler
  | .pins, s, t => t.pins = s.pins
  | .iommuDomains, s, t => t.iommuDomains = s.iommuDomains
  | .dmaMappings, s, t => t.dmaMappings = s.dmaMappings
  | .interrupts, s, t => t.interrupts = s.interrupts
  | .counters, s, t => t.bootfsPages = s.bootfsPages ∧
      t.reclaimedPages = s.reclaimedPages ∧ t.zeroPage = s.zeroPage ∧ t.pacSeed = s.pacSeed ∧
      t.entropy = s.entropy ∧ t.realtimeSlew = s.realtimeSlew ∧ t.timePageVmo = s.timePageVmo

/-- Two states agree on every part that is not listed. -/
def Touches (F : List Part) (s t : Runtime B) : Prop := ∀ p, p ∉ F → Same p s t

variable (F : List Part) (id : ℕ)

instance : Std.Refl (Touches (B := B) F) :=
  ⟨fun _ p _ => by cases p <;> simp [Same]⟩

instance : IsTrans (Runtime B) (Touches F) where
  trans s t u h₁ h₂ p hp := by
    have hst := h₁ p hp
    have htu := h₂ p hp
    cases p <;> simp only [Same] at hst htu ⊢ <;> simp_all

variable {s t : Runtime B}

theorem Touches.weaken {F G} (h : Touches F s t) (hFG : ∀ p ∈ F, p ∈ G) : Touches G s t :=
  fun p hp => h p fun hF => hp (hFG p hF)

/-- A list of parts has a part. -/
class Has (p : Part) (F : List Part) : Prop where
  mem : p ∈ F

instance {p F} : Has p (p :: F) := ⟨List.mem_cons_self⟩

instance {p q F} [h : Has p F] : Has p (q :: F) :=
  ⟨List.mem_cons_of_mem _ h.mem⟩

/-- A relation allows every change of the listed parts. -/
class Covers (R : Runtime B → Runtime B → Prop) (F : outParam (List Part)) : Prop where
  le : ∀ s t, Touches F s t → R s t

instance : Covers (Touches (B := B) F) F := ⟨fun _ _ h => h⟩

instance (priority := low) moves_of_covers {R : Runtime B → Runtime B → Prop} {F}
    [hR : Covers R F] {ε α : Type} (x : Prog (Runtime B) ε α) [h : Moves (Touches F) x] :
    Moves R x :=
  h.mono hR.le

/-! ### Writing one part -/

section Writes

variable {F : List Part} {ε : Type} {s t : Runtime B}

theorem touches_of (ps : List Part) (hF : ∀ p ∈ ps, p ∈ F) (h : ∀ q, q ∉ ps → Same q s t) :
    Touches F s t :=
  fun q hq => h q fun hp => hq (hF q hp)

theorem touches_one (p) [hp : Has p F] (h : ∀ q, q ≠ p → Same q s t) : Touches F s t :=
  fun q hq => h q fun he => hq (he ▸ hp.mem)

/-- A write that touches only the parts `F`. -/
abbrev Writes (B ε : Type) (F : List Part) (f : Runtime B → Runtime B) : Prop :=
  Moves (Touches F) (modify f : Prog (Runtime B) ε Unit)

/-- A write that leaves every other part, which for the fields of the state is plain. -/
theorem moves_write (p : Part) [Has p F] {f : Runtime B → Runtime B}
    (h : ∀ s q, q ≠ p → Same q s (f s) := by intro s q hq; cases q <;> simp [Same] at *) :
    Writes B ε F f :=
  .modify fun s => touches_one p (h s)

variable (g : Runtime B → ℕ)

instance write_handover [Has .handover F] (g : Runtime B → Option Handover) :
    Writes B ε F fun s => { s with handover := g s } := moves_write .handover

instance write_dirty [Has .dirty F] (g : Runtime B → Option (DirtySet RecordKey)) :
    Writes B ε F fun s => { s with dirty := g s } := moves_write .dirty

instance write_reclaimCursor [Has .reclaim F] :
    Writes B ε F fun s => { s with reclaimCursor := g s } := moves_write .reclaim

instance write_backend [Has .backend F] (g : Runtime B → B) :
    Writes B ε F fun s => { s with backend := g s } := moves_write .backend

instance write_jobs [Has .jobs F] (g : Runtime B → List Job) :
    Writes B ε F fun s => { s with jobs := g s } := moves_write .jobs

instance write_current [Has .current F] (h : Runtime B → ℕ) :
    Writes B ε F fun s => { s with currentThread := g s, current := h s } :=
  moves_write .current

instance write_currentProcess [hc : Has .current F] [hr : Has .reclaim F] (h : Runtime B → Bool) :
    Writes B ε F fun s => { s with current := g s, deferReclamation := h s } :=
  .modify fun _ => touches_of [.current, .reclaim] (by simp [hc.mem, hr.mem])
    fun q hq => by cases q <;> simp [Same] at *

instance write_vmos [Has .vmos F] (g : Runtime B → List (Option Vmo)) :
    Writes B ε F fun s => { s with vmos := g s } := moves_write .vmos

instance write_vmars [hr : Has .regions F] [hn : Has .vmarRefs F]
    (g : Runtime B → List (Option Vmar)) : Writes B ε F fun s => { s with vmars := g s } :=
  .modify fun _ => touches_of [.regions, .vmarRefs] (by simp [hr.mem, hn.mem])
    fun q hq => by cases q <;> simp [Same] at *

instance write_handles [Has .handles F] (g : Runtime B → List (Option Capability)) :
    Writes B ε F fun s => { s with handles := g s } := moves_write .handles

instance write_channels [Has .channels F] (g : Runtime B → List Channel) :
    Writes B ε F fun s => { s with channels := g s } := moves_write .channels

instance write_sockets [Has .sockets F] (g : Runtime B → List Socket) :
    Writes B ε F fun s => { s with sockets := g s } := moves_write .sockets

instance write_profiles [Has .profiles F] (g : Runtime B → List SchedulingProfile) :
    Writes B ε F fun s => { s with profiles := g s } := moves_write .profiles

instance write_pins [Has .pins F] (g : Runtime B → List (Option (ℕ × ℕ))) :
    Writes B ε F fun s => { s with pins := g s } := moves_write .pins

instance write_iommuDomains [Has .iommuDomains F] (g : Runtime B → List (Option IommuDomain)) :
    Writes B ε F fun s => { s with iommuDomains := g s } := moves_write .iommuDomains

instance write_dmaMappings [Has .dmaMappings F] (g : Runtime B → List (Option DmaMapping)) :
    Writes B ε F fun s => { s with dmaMappings := g s } := moves_write .dmaMappings

instance write_interrupts [Has .interrupts F] (g : Runtime B → List (Option Interrupt)) :
    Writes B ε F fun s => { s with interrupts := g s } := moves_write .interrupts

/-- The counters of the summary record, any of them. -/
instance write_counters [Has .counters F] (bootfs reclaimed : Runtime B → UInt64)
    (zero : Runtime B → Option UInt64) (seed : Runtime B → List.Vector UInt64 4)
    (entropy : Runtime B → Option Entropy) (slew : Runtime B → SlewState)
    (page : Runtime B → Option ℕ) :
    Writes B ε F fun s => { s with
          bootfsPages := bootfs s
          reclaimedPages := reclaimed s
          zeroPage := zero s
          pacSeed := seed s
          entropy := entropy s
          realtimeSlew := slew s
          timePageVmo := page s } :=
  moves_write .counters

instance write_asids [Has .population F] (g : Runtime B → AsidAllocator) :
    Writes B ε F fun s => { s with asids := g s } := moves_write .population

/-- A new process. -/
instance write_processes [hy : Has .layout F] [hl : Has .life F] [hs : Has .space F]
    [hp : Has .population F] (g : Runtime B → List Process) :
    Writes B ε F fun s => { s with processes := g s } :=
  .modify fun _ => touches_of [.layout, .life, .space, .population]
    (by simp [hy.mem, hl.mem, hs.mem, hp.mem]) fun q hq => by cases q <;> simp [Same] at *

/-- A new thread. -/
instance write_threads [hl : Has .threadLife F] [hr : Has .threadRun F]
    [hc : Has .threadContext F] (g : Runtime B → List Thread) :
    Writes B ε F fun s => { s with threads := g s } :=
  .modify fun _ => touches_of [.threadLife, .threadRun, .threadContext]
    (by simp [hl.mem, hr.mem, hc.mem]) fun q hq => by cases q <;> simp [Same] at *

/-! ### Writing a record -/

theorem map_modify_of_eq {α β : Type} (f : α → β) (g : α → α) (h : ∀ a, f (g a) = f a)
    (i : ℕ) (as : List α) : (as.modify i g).map f = as.map f := by
  refine List.ext_getElem? fun j => ?_
  rw [List.getElem?_map, List.getElem?_map, List.getElem?_modify]
  by_cases hij : i = j
  · subst hij
    cases as[i]? <;> simp [h]
  · simp [hij]

section Records

/-- A write to a record, which leaves every part made of its other fields. -/
theorem moves_record (p : Part) [Has p F] {f : Runtime B → Runtime B}
    (h : ∀ s q, q ≠ p → Same q s (f s) := by
      intro s q hq
      cases q <;> first
        | (apply map_modify_of_eq; intro _; rfl)
        | (apply map_modify_of_eq; rintro (_ | _) <;> rfl)
        | exact And.intro (by apply map_modify_of_eq; intro _; rfl) rfl
        | simp [Same, modifyProcess, modifyBinding, modifyThread, modifyVmar] at *) :
    Writes B ε F f :=
  moves_write p h

variable (id : ℕ)

/-- A write to the life cycle of a process. -/
instance write_life [Has .life F] (exited running quarantined : Process → Bool)
    (authority : Process → UInt32) :
    Writes B ε F (modifyProcess id fun p =>
      { p with
        exited := exited p
        running := running p
        authority := authority p
        quarantined := quarantined p }) :=
  moves_record .life

/-- A write to the layout of a process. -/
instance write_layout [Has .layout F] (root heap : Process → ℕ)
    (mappings : Process → List Mapping) (nextVa : Process → UInt64) :
    Writes B ε F (modifyProcess id fun p =>
      { p with
        rootVmar := root p
        heapVmar := heap p
        mappings := mappings p
        nextVa := nextVa p }) :=
  moves_record .layout

/-- A write to the saved state of a process. -/
instance write_space [Has .space F] (root : Process → UInt64) (context : Process → Context) :
    Writes B ε F (modifyProcess id fun p => { p with root := root p, context := context p }) :=
  moves_record .space

/-- The start of a process. -/
instance write_started [hs : Has .space F] [hl : Has .life F] (context : Process → Context)
    (running : Process → Bool) :
    Writes B ε F (modifyProcess id fun p => { p with context := context p, running := running p }) :=
  .modify fun _ => touches_of [.space, .life] (by simp [hs.mem, hl.mem]) fun q hq => by
    cases q <;> first
      | (apply map_modify_of_eq; intro _; rfl)
      | exact And.intro (by apply map_modify_of_eq; intro _; rfl) rfl
      | simp [Same, modifyProcess] at *

/-- A write to what a thread waits for. -/
instance write_threadRun [Has .threadRun F] (running blocked : Thread → Bool)
    (futex : Thread → Option UInt64) :
    Writes B ε F (modifyThread id fun t =>
      { t with running := running t, blockedFutex := futex t, blockedWaitMany := blocked t }) :=
  moves_record .threadRun

/-- A write to the saved state of a thread. -/
instance write_threadContext [Has .threadContext F] (context : Thread → Context)
    (restricted : Thread → Option RestrictedBinding) :
    Writes B ε F (modifyThread id fun t =>
      { t with context := context t, restricted := restricted t }) :=
  moves_record .threadContext

/-- The end of a thread. -/
instance write_thread [hl : Has .threadLife F] [hr : Has .threadRun F] [hc : Has .threadContext F]
    (f : Thread → Thread) : Writes B ε F (modifyThread id f) := by
  unfold modifyThread
  infer_instance

/-- A write to the reference count of a region. -/
instance write_vmarRefs [Has .vmarRefs F] (refs : Vmar → ℕ) :
    Writes B ε F (modifyVmar id fun v => { v with refs := refs v }) := moves_record .vmarRefs

/-- The destruction of a region. -/
instance write_destroyed [Has .regions F] (destroyed : Vmar → Bool) :
    Writes B ε F (modifyVmar id fun v => { v with destroyed := destroyed v }) := moves_record .regions

instance [Has .vmos F] (f : Vmo → Vmo) : Writes B ε F (modifyVmo id f) := by
  unfold modifyVmo
  infer_instance

instance [Has .channels F] (f : Channel → Channel) : Writes B ε F (modifyChannel id f) := by
  unfold modifyChannel
  infer_instance

instance [Has .sockets F] (f : Socket → Socket) : Writes B ε F (modifySocket id f) := by
  unfold modifySocket
  infer_instance

instance [Has .iommuDomains F] (f : IommuDomain → IommuDomain) :
    Writes B ε F (modifyIommuDomain id f) := by
  unfold modifyIommuDomain
  infer_instance

instance [Has .interrupts F] (f : Interrupt → Interrupt) : Writes B ε F (modifyInterrupt id f) := by
  unfold modifyInterrupt
  infer_instance

instance [Has .handles F] (i) : Writes B ε F (clearSlot i) := by
  unfold clearSlot
  infer_instance

instance [Has .handles F] (i owner) : Writes B ε F (setOwner i owner) := by
  unfold setOwner
  infer_instance

instance [Has .handover F] (f : Handover → Handover) : Writes B ε F (modifyHandover f) := by
  unfold modifyHandover
  infer_instance

instance [Has .threadContext F] (f : RestrictedBinding → RestrictedBinding) :
    Writes B ε F (modifyBinding f) :=
  moves_record .threadContext

end Records

/-! ### Reading -/

section Reads

variable {R : Runtime B → Runtime B → Prop} [Std.Refl R] [IsTrans (Runtime B) R]

instance (h rights) : Moves R (cap h rights : RtM B Capability) := by
  unfold cap
  infer_instance

instance : Moves R (currentProcess : RtM B Process) := by
  unfold currentProcess
  infer_instance

end Reads

/-! ### Objects -/

section Objects

variable [Has .dirty F]

instance (kind index) : Moves (Touches F) (changed kind index : RtM B Unit) := by
  unfold changed
  infer_instance

instance [Has .backend F] (f : B → B) : Moves (Touches F) (onBackend f : RtM B Unit) := by
  unfold onBackend
  infer_instance

instance [Has .backend F] {α : Type} (f : B → Except Status α × B) :
    Moves (Touches F) (tryBackend f : RtM B α) := by
  unfold tryBackend
  infer_instance

omit [Has .dirty F] in
theorem touches_scheduler [Has .scheduler F] (s : Runtime B) (x : Scheduler) :
    Touches F s { s with scheduler := x } :=
  touches_one .scheduler fun q hq => by cases q <;> simp [Same] at *

instance [Has .scheduler F] {α : Type} (x : SchedM α) : Moves (Touches F)
      (zoom scheduler (fun t s => { s with scheduler := t }) x : Prog (Runtime B) _ α) :=
  ⟨fun s => by
    rw [wp_zoom]
    unfold wp
    cases x s.scheduler <;> first | exact touches_scheduler s _ | trivial⟩

instance [Has .scheduler F] {α : Type} (x : SchedM α) :
    Moves (Touches F) (sched x : RtM B (Except SchedulerError α)) := by
  unfold sched
  infer_instance

instance [Has .scheduler F] {α : Type} (x : SchedM α) :
    Moves (Touches F) (schedOrStatus x : RtM B α) := by
  unfold schedOrStatus
  infer_instance

end Objects

end Writes

end Runtime

end Bexos
