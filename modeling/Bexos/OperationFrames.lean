/-
The footprint of the operations that work on the state directly: they move along every relation
that covers the parts they write.

The operations that work through others are gone through once for all relations, in
`OperationMoves`.

Design notes: an operation whose text is only a sequence of others is an `abbrev`, so that
instance search reads its footprint off its text; what branches or recurses is gone through here.
-/
import Bexos.RuntimeFrame

namespace Bexos

open Prog

namespace Runtime

variable {B : Type} [Backend B] {R : Runtime B → Runtime B → Prop} [Std.Refl R]
  [IsTrans (Runtime B) R] {F : List Part} [Covers R F] [Has .dirty F]
  (id index h rounds i pid target : ℕ) (v : Vmo)
  (offset root va base ticks frequencyHz token size now sequence : UInt64) (bytes : Bytes)
  (offsets mapped : List UInt64) (rights options : UInt32) (device : Bool) (m : Mapping)
  (object : Object) (parent : Option ℕ) (host guest : Context)

/-! ### Memory objects -/

section Memory

variable [Has .backend F] [Has .vmos F] [Has .counters F] [Has .reclaim F]

instance : Moves R (deferVmoReclamation id) := by
  unfold deferVmoReclamation
  infer_instance

instance : Moves R (freePages v) := by
  unfold freePages
  split <;> infer_instance

instance (pages) : Moves R (reclaimBootfs v pages) := by
  unfold reclaimBootfs
  infer_instance

set_option synthInstance.maxSize 100000 in
instance : Moves R (retireVmo id v) := by
  unfold retireVmo
  infer_instance

set_option synthInstance.maxSize 100000 in
instance : Moves R (releaseVmo id) := by
  unfold releaseVmo
  infer_instance

instance [Has .dmaMappings F] (p : DmaMapping → Bool) : Moves R (dropDmaMapping p index) := by
  unfold dropDmaMapping
  refine .next fun s => ?_
  split <;> infer_instance

instance : Moves R (ensureZeroPage) := by
  unfold ensureZeroPage
  refine .next fun s => ?_
  split <;> infer_instance

instance (forWrite) : Moves R (vmoPagePhys id offset forWrite) := by
  unfold vmoPagePhys
  refine .next fun _ => .next fun s => .next fun v => ?_
  split
  · infer_instance
  · infer_instance
  · refine .next fun page => ?_
    split <;> infer_instance

instance : Moves R (unmapPages root va offsets) := by
  unfold unmapPages
  infer_instance

instance : Moves R (mapPages id root offset va rights device mapped offsets) := by
  induction offsets generalizing mapped with
  | nil => unfold mapPages; infer_instance
  | cons off rest ih =>
    unfold mapPages
    refine .next fun ⟨pa, zeroPage⟩ => .next fun r => ?_
    cases r with
    | ok _ => exact ih _
    | error e => dsimp only; infer_instance

instance (newBase pages) : Moves R (copyPages newBase pages) := by
  unfold copyPages
  infer_instance

instance (newBase) : Moves R (remapContiguous newBase device root m) := by
  unfold remapContiguous
  infer_instance

set_option synthInstance.maxSize 100000 in
instance : Moves R (materializeContiguousVmo id) := by
  unfold materializeContiguousVmo
  refine .next fun s => .next fun v => ?_
  split <;> infer_instance

instance (pos) : Moves R (copyToUserAt rounds pos bytes) := by
  induction rounds generalizing pos bytes with
  | zero => cases bytes <;> (unfold copyToUserAt; infer_instance)
  | succ n ih =>
    cases bytes with
    | nil => unfold copyToUserAt; infer_instance
    | cons b bs =>
      unfold copyToUserAt
      refine .next fun s => .next fun m => ?_
      dsimp only
      infer_instance

instance (run) : Moves R (allocateRun rounds run) := by
  induction rounds generalizing run with
  | zero => unfold allocateRun; infer_instance
  | succ n ih =>
    unfold allocateRun
    refine .next fun r => ?_
    cases r <;> dsimp only <;> infer_instance

instance (start first count committed) :
    Moves R (commitRuns m root start first count rounds committed) := by
  induction rounds generalizing committed with
  | zero => unfold commitRuns; infer_instance
  | succ n ih =>
    unfold commitRuns
    refine @Moves.ite _ _ _ _ _ _ _ _ ?_ inferInstance
    refine .next fun ⟨base, run⟩ => .next fun s => .next fun v => ?_
    split <;> infer_instance

instance (len) : Moves R (commitUserRange va len) := by
  unfold commitUserRange
  refine .next fun s => .next fun _ => .next fun last => .next fun p => ?_
  split <;> infer_instance

instance : Moves R (updateTimePage ticks frequencyHz) := by
  unfold updateTimePage
  refine .next fun s => ?_
  split <;> infer_instance

instance : Moves R (timePage) := by
  unfold timePage
  refine .next fun s => ?_
  split <;> infer_instance

instance [Has .pins F] : Moves R (dropPin id i) := by
  unfold dropPin
  refine .next fun s => ?_
  split <;> infer_instance

end Memory

/-! ### Objects and capabilities -/

instance : Moves R (markObject object) := by
  cases object <;> (unfold markObject; infer_instance)

instance [Has .vmos F] [Has .vmarRefs F] [Has .channels F] [Has .sockets F] [Has .iommuDomains F] :
    Moves R (acquireRef object) := by
  cases object <;> (unfold acquireRef; infer_instance)

instance [Has .handles F] (c) : Moves R (fillSlot c) := by
  unfold fillSlot
  infer_instance

section Waking

variable [Has .scheduler F] [Has .threadRun F]

instance : Moves R (clearUnblockedWaitManyThreads) := by
  unfold clearUnblockedWaitManyThreads
  infer_instance

end Waking

section Objects

variable [Has .backend F] [Has .vmos F] [Has .counters F] [Has .reclaim F] [Has .vmarRefs F]
  [Has .iommuDomains F] [Has .dmaMappings F] [Has .interrupts F] [Has .channels F]
  [Has .sockets F] [Has .handles F]

instance : Moves R (releaseVmar id) := by
  unfold releaseVmar
  infer_instance

instance : Moves R (releaseIommuDomain id) := by
  unfold releaseIommuDomain
  refine .next fun s => ?_
  split <;> infer_instance

set_option synthInstance.maxSize 100000 in
instance : Moves R (releaseRef object) := by
  cases object <;> (unfold releaseRef; infer_instance)

instance : Moves R (insertChannel) := by
  unfold insertChannel
  infer_instance

/-! ### Memory that is handed out -/

set_option synthInstance.maxSize 100000 in
instance (domain length permissions) :
    Moves R (mapDma domain h offset length permissions) := by
  unfold mapDma
  refine .next fun ⟨domainId, d⟩ => ?_
  dsimp only
  infer_instance

/-! ### Address spaces -/

section Spaces

variable [Has .layout F]

instance (owner) : Moves R (checkVmarParent owner base size rights parent) := by
  cases parent <;> (unfold checkVmarParent; infer_instance)

instance [Has .regions F] (owner) : Moves R (insertVmar owner parent base size rights) := by
  unfold insertVmar
  infer_instance

set_option synthInstance.maxSize 100000 in
instance (vmarId) : Moves R (checkPlacement pid vmarId id offset size va rights) := by
  unfold checkPlacement
  infer_instance

instance (last) : Moves R (recordMapping pid m last) := by
  unfold recordMapping
  infer_instance

instance (vmarId) : Moves R (mapAt pid vmarId h offset size va rights) := by
  unfold mapAt
  refine .next fun id => .next fun _ => .next fun ⟨v, root, last⟩ => ?_
  dsimp only
  infer_instance

instance (space) : Moves R (spaceProcess space) := by
  cases space <;> (unfold spaceProcess; infer_instance)

set_option synthInstance.maxSize 100000 in
instance (vmars) : Moves R (unmapMatching pid vmars va size) := by
  unfold unmapMatching
  infer_instance

end Spaces

/-! ### Waiting and messages -/

section Messages

variable [Has .scheduler F] [Has .threadRun F] [Has .profiles F]

instance (profile) : Moves R (validateProfileRequest profile) := by
  cases profile <;> (unfold validateProfileRequest; infer_instance)

instance : Moves R (resourceGroupParent parent) := by
  cases parent <;> (unfold resourceGroupParent; infer_instance)

instance : Moves R (channelEnd h rights) := by
  unfold channelEnd
  refine .next fun c => .next fun ⟨id, e⟩ => ?_
  dsimp only
  infer_instance

instance (inherit donate) : Moves R (setChannelPolicy h inherit donate) := by
  unfold setChannelPolicy
  refine .next fun ⟨id, e, channel⟩ => ?_
  dsimp only
  infer_instance

instance (callerEnd) : Moves R (takeCompletedCallReply id callerEnd) := by
  unfold takeCompletedCallReply
  refine .next fun s => ?_
  dsimp only
  split <;> infer_instance

/-! ### Sockets and interrupts -/

instance : Moves R (socketEnd h rights) := by
  unfold socketEnd
  refine .next fun c => .next fun ⟨id, e⟩ => ?_
  dsimp only
  infer_instance

instance : Moves R (acknowledgeInterrupt h) := by
  unfold acknowledgeInterrupt
  refine .next fun ⟨id, i⟩ => ?_
  dsimp only
  infer_instance

instance (masked) : Moves R (maskInterrupt h masked) := by
  unfold maskInterrupt
  refine .next fun ⟨id, i⟩ => ?_
  dsimp only
  infer_instance

end Messages

/-! ### Processes and threads -/

section Processes

variable [Has .scheduler F] [Has .threadRun F]

instance (seed) : Moves R (setBootEntropySeed seed) := by
  cases seed <;> (unfold setBootEntropySeed; dsimp only; infer_instance)

instance [Has .population F] : Moves R (allocateAsid) := by
  unfold allocateAsid
  refine .next fun s => .next fun ⟨asid, asids⟩ => ?_
  dsimp only
  infer_instance

section Threads

variable [Has .threadLife F] [Has .threadContext F] [Has .current F]

instance (binding) : Moves R (releaseRestricted binding) := by
  cases binding <;> (unfold releaseRestricted; infer_instance)

end Threads

instance [Has .threadContext F] [Has .space F] (context) : Moves R (saveContext context) := by
  unfold saveContext
  infer_instance

instance [Has .current F] (next frame) : Moves R (switchTo next frame) := by
  unfold switchTo
  refine .next fun s => ?_
  split
  · infer_instance
  · split
    · infer_instance
    · split <;> infer_instance

instance [Has .current F] (cpu) : Moves R (bindCurrentCpu cpu) := by
  unfold bindCurrentCpu
  refine .next fun s => ?_
  split
  · infer_instance
  · split <;> infer_instance

instance (budget released) : Moves R (reclaimFrom budget rounds released) := by
  induction rounds generalizing released with
  | zero => unfold reclaimFrom; infer_instance
  | succ n ih =>
    unfold reclaimFrom
    refine .next fun s => ?_
    dsimp only
    refine @Moves.ite _ _ _ _ _ _ _ _ ?_ inferInstance
    split
    · infer_instance
    · split
      · split <;> infer_instance
      · infer_instance

end Processes

end Objects

/-! ### Handovers -/

section Actors

instance (h) : Moves R (checkPinOwner h token : RtM B Unit) := by
  unfold checkPinOwner
  refine .next fun s => .next fun ⟨owner, vmo, domain⟩ => ?_
  dsimp only
  infer_instance

instance (h) : Moves R (checkPinBacking h token : RtM B Unit) := by
  unfold checkPinBacking
  refine .next fun s => .next fun ⟨owner, vmo, domain⟩ => ?_
  dsimp only
  infer_instance

set_option synthInstance.maxSize 100000 in
instance (h) : Moves R (checkCommit h : RtM B Process) := by
  unfold checkCommit
  infer_instance

set_option synthInstance.maxSize 100000 in
/-- Listing a handle moves along what longer lists of handles move along. -/
instance (handle) [∀ f : Handover → List ℕ,
      Moves R (modify (modifyHandover fun h => { h with handles := f h }) : RtM B Unit)] :
    Moves R (preserveHandle handle : RtM B Unit) := by
  unfold preserveHandle
  infer_instance

instance [∀ f : Handover → List UInt64,
      Moves R (modify (modifyHandover fun h => { h with pins := f h }) : RtM B Unit)] :
    Moves R (preservePin token : RtM B Unit) := by
  unfold preservePin
  refine .next fun h => .next fun _ => .next fun s => .next fun ⟨_, _, _⟩ => ?_
  dsimp only
  infer_instance

/-! The phases move along what new sessions move along. -/

variable [∀ x : Session,
  Moves R (modify (modifyHandover fun h => { h with session := x }) : RtM B Unit)]

instance {α : Type} (x) : Moves R (onSession x : RtM B (Except MigrationError α)) := by
  unfold onSession
  refine .next fun s => .next fun h => ?_
  split <;> infer_instance

instance (status x) : Moves R (sessionOr status x : RtM B Unit) := by
  unfold sessionOr
  refine .next fun r => ?_
  cases r <;> dsimp only <;> infer_instance

end Actors

section Handovers

variable [Has .handover F]

section Preserved

variable [Has .backend F] [Has .vmos F] [Has .counters F] [Has .reclaim F]

instance (vas) : Moves R (unmapAll root vas) := by
  unfold unmapAll
  infer_instance

instance : Moves R (mapPreservedPages root m device offsets mapped) := by
  induction offsets generalizing mapped with
  | nil => unfold mapPreservedPages; infer_instance
  | cons off rest ih =>
    unfold mapPreservedPages
    refine .next fun ⟨pa, zeroPage⟩ => .next fun r => ?_
    cases r with
    | ok _ => exact ih _
    | error e => dsimp only; infer_instance

instance (ms) : Moves R (mapPreserved root ms mapped) := by
  induction ms generalizing mapped with
  | nil | cons m ms ih => unfold mapPreserved; infer_instance

end Preserved

section Moved

variable [Has .handles F] [Has .pins F] [Has .dmaMappings F] [Has .vmos F] [Has .layout F]

instance : Moves R (movePin target token) := by
  unfold movePin
  infer_instance

instance : Moves R (installMapping target m) := by
  unfold installMapping
  infer_instance

end Moved

end Handovers

/-! ### Restricted mode -/

section Restricted

variable [Has .backend F] [Has .vmos F] [Has .counters F] [Has .reclaim F] [Has .threadContext F]

instance : Moves R (enterVector host) := by
  unfold enterVector
  split
  · infer_instance
  · dsimp only
    infer_instance

set_option synthInstance.maxSize 100000 in
instance (entry context pointer) :
    Moves R (restrictedEnter options entry context host pointer) := by
  unfold restrictedEnter
  refine .next fun s => .next fun _ => .next fun t => .next fun binding => .next fun _ => .next
    fun ⟨guest, p⟩ => ?_
  dsimp only
  infer_instance

set_option synthInstance.maxSize 100000 in
instance (frame) : Moves R (restrictedDeliverPendingKick frame) := by
  unfold restrictedDeliverPendingKick
  refine .next fun s => .next fun t => @Moves.ite _ _ _ _ _ _ _ _ (.next fun r => ?_)
    inferInstance
  cases r <;> dsimp only <;> infer_instance

end Restricted

/-! ### Operations that do not fail -/

section Infallible

instance (kind) : NoFail (changed kind index : RtM B Unit) := by
  unfold changed
  infer_instance

instance (f : B → B) : NoFail (onBackend f : RtM B Unit) := by
  unfold onBackend
  infer_instance

instance {α : Type} (x) : NoFail (sched x : RtM B (Except SchedulerError α)) := by
  unfold sched
  infer_instance

instance : NoFail (deferVmoReclamation id : RtM B Unit) := by
  unfold deferVmoReclamation
  infer_instance

instance : NoFail (freePages v : RtM B Unit) := by
  unfold freePages
  split <;> infer_instance

instance (pages) : NoFail (reclaimBootfs v pages : RtM B Unit) := by
  unfold reclaimBootfs
  infer_instance

instance : NoFail (retireVmo id v : RtM B Unit) := by
  unfold retireVmo
  infer_instance

instance : NoFail (releaseVmo id : RtM B Unit) := by
  unfold releaseVmo
  infer_instance

instance (b) : NoFail (releaseRestricted b : RtM B Unit) := by
  cases b <;> unfold releaseRestricted <;> infer_instance

instance (t exitCode) : NoFail (endThread i t exitCode : RtM B Unit) := by
  unfold endThread
  infer_instance

instance (p : Thread → Bool) (exitCode) : NoFail (endThreads id p exitCode : RtM B Unit) := by
  unfold endThreads
  infer_instance

instance (p : DmaMapping → Bool) : NoFail (dropDmaMapping p index : RtM B Unit) := by
  unfold dropDmaMapping
  refine .next fun s => ?_
  split <;> infer_instance

instance : NoFail (dropPin id i : RtM B Unit) := by
  unfold dropPin
  refine .next fun s => ?_
  split <;> infer_instance

instance : NoFail (clearUnblockedWaitManyThreads : RtM B Unit) := by
  unfold clearUnblockedWaitManyThreads
  infer_instance

instance (signals) : NoFail (wakeWaitersForObject object signals : RtM B Unit) := by
  unfold wakeWaitersForObject
  infer_instance

instance : NoFail (markObject object : RtM B Unit) := by
  cases object <;> (unfold markObject; infer_instance)

instance : NoFail (acquireRef object : RtM B Unit) := by
  cases object <;> (unfold acquireRef; infer_instance)

set_option synthInstance.maxSize 100000 in
instance : NoFail (retireResources id : RtM B Unit) := by
  unfold retireResources
  infer_instance

set_option synthInstance.maxSize 100000 in
instance : NoFail (retireProcess id : RtM B Unit) := by
  unfold retireProcess
  infer_instance

instance : NoFail (movePin target token : RtM B Unit) := by
  unfold movePin
  infer_instance

instance : NoFail (installMapping target m : RtM B Unit) := by
  unfold installMapping
  infer_instance

instance (h) : NoFail (movePreserved h : RtM B Unit) := by
  unfold movePreserved
  infer_instance

end Infallible

/-! ### Handles -/

omit [Backend B] in
theorem slot_of_capability {s : Runtime B} {h : ℕ} {rights : UInt32} {c : Capability}
    (hc : s.capability h rights = .ok c) : s.slot h = some c := by
  unfold capability at hc
  cases hslot : s.slot h with
  | none => rw [hslot] at hc; cases hc
  | some c' =>
    rw [hslot] at hc
    dsimp only at hc
    split at hc
    · cases hc
    · split at hc
      · cases hc
      · rw [Except.ok.inj hc]

omit [Backend B] in
/-- A handle is looked up. -/
theorem wp_cap {s : Runtime B} {h : ℕ} {rights : UInt32} {Q : Capability → Runtime B → Prop}
    {E : Status → Runtime B → Prop} (hQ : ∀ c, s.slot h = some c → Q c s) (hE : ∀ e, E e s) :
    wp (cap h rights) Q E s := by
  simp only [cap, wp_bind, wp_get, wp_lift, wp_unwrap, wp_pure]
  exact ⟨fun c hc _ _ => hQ c (slot_of_capability hc), fun e _ => hE e⟩

/-- The parts that `grant` writes besides the slots. -/
abbrev refParts : List Part := [.dirty, .vmos, .vmarRefs, .channels, .sockets, .iommuDomains]

omit [Backend B] in
/-- A grant fills the first vacant slot. -/
theorem wp_grant {s : Runtime B} {owner : ℕ} {object : Object} {rights : UInt32}
    {Q : ℕ → Runtime B → Prop} {E : Status → Runtime B → Prop}
    (hQ : ∀ t, Touches (.handles :: refParts) s t →
      t.handles = putSlot s.handles (firstFree s.handles) ⟨object, rights, owner⟩ →
      Q (firstFree s.handles + 1) t) :
    wp (grant owner object rights) Q E s := by
  unfold grant
  rw [wp_bind]
  refine wp_of_total (R := Touches refParts) fun _ t ht => ?_
  rw [wp_bind]
  refine wp_of_total (R := Touches refParts) fun _ u hu => ?_
  have hsame : u.handles = s.handles := (hu .handles (by decide)).trans (ht .handles (by decide))
  simp only [fillSlot, changed, wp_bind, wp_get, wp_modify, wp_pure, hsame]
  refine hQ _ (fun p hp => ?_) rfl
  have htu := trans_of (Touches refParts) ht hu p fun h => hp (List.mem_cons_of_mem _ h)
  cases p <;> first | exact htu | exact absurd (by decide) hp

omit [Backend B] in
/-- What `grant` gives is what the new handle names. -/
theorem slot_of_grant {s t : Runtime B} {c : Capability}
    (ht : t.handles = putSlot s.handles (firstFree s.handles) c) :
    t.slot (firstFree s.handles + 1) = some c := by
  unfold slot
  rw [if_neg (Nat.succ_ne_zero _), ht, Nat.add_sub_cancel,
    getElem?_putSlot (firstFree_le _), if_pos rfl, Option.join_some]

end Runtime

end Bexos
