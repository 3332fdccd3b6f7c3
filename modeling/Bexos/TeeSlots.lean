/-
The A/B slots of the secure runtime.

`orchestrator/tee_slots.rs` selects one of two firmware slots.  A new image is staged in the
slot that is not active, switched to for a trial, and committed durably once it is healthy; until
then every failure goes back to the slot that was active before.

* `SlotChange` — everything that one call can do, given what it observes of the durable commit;
* `wp_exec` — every call is such a change;
* `Agrees` — the state against the record of an observer, who only sees the results of calls;
* `never_regress` — the committed image survives until another one is observed as committed;
* `rolls_back_iff` — when a rollback succeeds.

Design notes: `commit_durably` takes the writer as a function.  A writer that never returns
leaves the state as it was at its call, which is the operation `commitLost`.
-/
import Bexos.Outcome
import Bexos.Words
import Mathlib.Data.Vector.Basic

namespace Bexos

open Prog

/-! ### The state machine -/

inductive SlotId where
  | a
  | b
  deriving DecidableEq, Repr

def SlotId.other : SlotId → SlotId
  | .a => .b
  | .b => .a

inductive OrchestratorError where
  | invalidTransition
  | invalidState
  | rollbackGeneration
  | deadlineExceeded
  | commitFailed
  | commitUncertain
  deriving DecidableEq, Repr

def PREPARATION_DEADLINE_NS : UInt64 := 30_000_000_000
def CUTOVER_DEADLINE_NS : UInt64 := 150_000_000

inductive TeeUpdatePhase where
  | idle
  | verifying
  | staged
  | prepared
  | liveSwitch
  | rebootPending
  | healthWindow
  | commitPending
  | commitUncertain
  | completed
  | rolledBack
  | failed
  deriving DecidableEq, Repr

abbrev ImageHash := List.Vector UInt8 32

structure TeeCommit where
  slot : SlotId
  generation : UInt64
  imageHash : ImageHash
  deriving DecidableEq

inductive CommitOutcome where
  | committed
  | notCommitted
  | unknown
  deriving DecidableEq, Repr

structure TeeSlotState where
  activeSlot : SlotId
  pendingSlot : Option SlotId
  /-- The generation committed durably, never that of a candidate. -/
  generation : UInt64
  rollbackSlot : Option SlotId
  rebootRequired : Bool
  phase : TeeUpdatePhase
  slotHashes : SlotId → ImageHash
  pendingGeneration : Option UInt64
  preparationStarted : Option UInt64
  cutoverStarted : Option UInt64
  lastTick : UInt64

abbrev SlotM := Prog TeeSlotState OrchestratorError

namespace TeeSlotState

def new (activeSlot : SlotId) (generation : UInt64) (slotHashes : SlotId → ImageHash) :
    TeeSlotState :=
  { activeSlot, generation, slotHashes
    pendingSlot := none
    rollbackSlot := none
    rebootRequired := false
    phase := .idle
    pendingGeneration := none
    preparationStarted := none
    cutoverStarted := none
    lastTick := 0 }

def clearPending (s : TeeSlotState) : TeeSlotState :=
  { s with
    pendingSlot := none
    pendingGeneration := none
    preparationStarted := none
    cutoverStarted := none
    rebootRequired := false }

def pendingCommit (s : TeeSlotState) : Except OrchestratorError TeeCommit :=
  match s.pendingSlot, s.pendingGeneration with
  | some slot, some generation => .ok ⟨slot, generation, s.slotHashes slot⟩
  | _, _ => .error .invalidTransition

def setPhase (phase : TeeUpdatePhase) (s : TeeSlotState) : TeeSlotState := { s with phase }

def requireGeneration (generation : UInt64) : SlotM Unit := do
  let s ← get
  check (s.pendingGeneration = some generation) .invalidTransition

def requirePhase (phase : TeeUpdatePhase) : SlotM Unit := do
  let s ← get
  check (s.phase = phase) .invalidTransition

def restorePrevious : SlotM Unit := do
  let s ← get
  check s.pendingSlot.isSome .invalidTransition
  let slot ← some? s.rollbackSlot .invalidTransition
  modify fun s => { s with activeSlot := slot }.clearPending

def checkTime (now : UInt64) (cutover : Bool) : SlotM Unit := do
  let s ← get
  let start ← some? (if cutover then s.cutoverStarted else s.preparationStarted)
    .invalidTransition
  let limit := if cutover then CUTOVER_DEADLINE_NS else PREPARATION_DEADLINE_NS
  if now < s.lastTick ∨ (now.checkedSub start).all (· > limit) then do
    restorePrevious
    modify (setPhase .rolledBack)
    fail .deadlineExceeded
  else modify fun s => { s with lastTick := now }

def stage (generation : UInt64) (imageHash : ImageHash) : SlotM SlotId := do
  let s ← get
  check (s.pendingSlot = none ∧
    (s.phase = .idle ∨ s.phase = .completed ∨ s.phase = .rolledBack)) .invalidTransition
  if generation ≤ s.generation then do
    modify (setPhase .rolledBack)
    fail .rollbackGeneration
  else do
    let inactive := s.activeSlot.other
    modify fun s =>
      { s with
        slotHashes := fun slot => if slot = inactive then imageHash else s.slotHashes slot
        pendingSlot := some inactive
        pendingGeneration := some generation
        rollbackSlot := some s.activeSlot
        phase := .staged }
    return inactive

def prepare (generation now : UInt64) : SlotM Unit := do
  requireGeneration generation
  requirePhase .staged
  modify fun s => { s with preparationStarted := some now, lastTick := now, phase := .verifying }

def candidateReady (now : UInt64) : SlotM Unit := do
  requirePhase .verifying
  checkTime now false
  modify (setPhase .prepared)

def quiesce (now : UInt64) : SlotM Unit := do
  requirePhase .prepared
  checkTime now false
  modify fun s => { s with cutoverStarted := some now, phase := .liveSwitch }

def liveSwitch (generation now : UInt64) : SlotM Unit := do
  requireGeneration generation
  requirePhase .liveSwitch
  checkTime now true
  let s ← get
  let slot ← some? s.pendingSlot .invalidTransition
  modify fun s =>
    { s with activeSlot := slot, rebootRequired := false, phase := .healthWindow }

def bootActivate (generation now : UInt64) : SlotM Unit := do
  requireGeneration generation
  requirePhase .prepared
  checkTime now false
  modify fun s => { s with rebootRequired := true, phase := .rebootPending }

def bootEntered (generation now : UInt64) : SlotM Unit := do
  requireGeneration generation
  requirePhase .rebootPending
  let s ← get
  let slot ← some? s.pendingSlot .invalidTransition
  modify fun s =>
    { s with
      activeSlot := slot
      cutoverStarted := some now
      lastTick := now
      rebootRequired := false
      phase := .healthWindow }

def confirmHealth (now : UInt64) : SlotM Unit := do
  requirePhase .healthWindow
  checkTime now true
  modify (setPhase .commitPending)

def pollDeadline (now : UInt64) : SlotM Unit := do
  let s ← get
  match s.phase with
  | .verifying | .prepared => checkTime now false
  | .liveSwitch | .healthWindow => checkTime now true
  | _ => return ()

def finishCommit : CommitOutcome → SlotM Unit
  | .committed => do
    let s ← get
    let generation ← some? s.pendingGeneration .invalidTransition
    modify fun s => ({ s with generation }.clearPending).setPhase .completed
  | .notCommitted => do
    restorePrevious
    modify (setPhase .rolledBack)
    fail .commitFailed
  | .unknown => do
    modify (setPhase .commitUncertain)
    fail .commitUncertain

/-- The commit is published: from now on its outcome is not known. -/
def publishCommit : SlotM TeeCommit := do
  requirePhase .commitPending
  let s ← get
  let record ← lift s.pendingCommit
  modify (setPhase .commitUncertain)
  return record

def commitDurably (persist : TeeCommit → CommitOutcome) : SlotM Unit := do
  let record ← publishCommit
  finishCommit (persist record)

/-- A durable commit whose writer does not return. -/
def commitLost : SlotM Unit := do
  let _ ← publishCommit

def resolveCommit (outcome : CommitOutcome) : SlotM Unit := do
  requirePhase .commitUncertain
  finishCommit outcome

def rollback : SlotM Unit := do
  let s ← get
  check (s.phase ≠ .commitUncertain) .commitUncertain
  restorePrevious
  modify (setPhase .rolledBack)

def abort : SlotM Unit := do
  rollback
  modify (setPhase .idle)

end TeeSlotState

/-- The calls on the state machine. -/
inductive SlotOp where
  | stage (generation : UInt64) (imageHash : ImageHash)
  | prepare (generation now : UInt64)
  | candidateReady (now : UInt64)
  | quiesce (now : UInt64)
  | liveSwitch (generation now : UInt64)
  | bootActivate (generation now : UInt64)
  | bootEntered (generation now : UInt64)
  | confirmHealth (now : UInt64)
  | pollDeadline (now : UInt64)
  | commitDurably (persist : TeeCommit → CommitOutcome)
  | commitLost
  | resolveCommit (outcome : CommitOutcome)
  | rollback
  | abort

namespace TeeSlotState

def exec : SlotOp → SlotM Unit
  | .stage generation imageHash => do let _ ← stage generation imageHash
  | .prepare generation now => prepare generation now
  | .candidateReady now => candidateReady now
  | .quiesce now => quiesce now
  | .liveSwitch generation now => liveSwitch generation now
  | .bootActivate generation now => bootActivate generation now
  | .bootEntered generation now => bootEntered generation now
  | .confirmHealth now => confirmHealth now
  | .pollDeadline now => pollDeadline now
  | .commitDurably persist => commitDurably persist
  | .commitLost => commitLost
  | .resolveCommit outcome => resolveCommit outcome
  | .rollback => rollback
  | .abort => abort

/-- The state after a call, whether it succeeded or returned an error. -/
def step (op : SlotOp) (s : TeeSlotState) : Option TeeSlotState := (exec op s).state?

/-! ### Where a phase stands -/

/-- What a phase says about the slots. -/
inductive Standing where
  /-- Nothing is pending. -/
  | vacant
  /-- A candidate is pending and has not been switched to. -/
  | trial
  /-- The candidate is active. -/
  | switched
  /-- Never reached. -/
  | dead
  deriving DecidableEq

end TeeSlotState

def TeeUpdatePhase.standing : TeeUpdatePhase → TeeSlotState.Standing
  | .idle | .completed | .rolledBack => .vacant
  | .staged | .verifying | .prepared | .liveSwitch | .rebootPending => .trial
  | .healthWindow | .commitPending | .commitUncertain => .switched
  | .failed => .dead

namespace TeeSlotState

/-- The slot that holds the committed image: a pending candidate never takes it. -/
def committedSlot (s : TeeSlotState) : SlotId :=
  match s.pendingSlot with
  | some slot => slot.other
  | none => s.activeSlot

/-- A candidate of a larger generation is pending, and the other slot can be restored. -/
def Pends (s : TeeSlotState) : Prop :=
  ∃ slot generation, s.pendingSlot = some slot ∧ s.pendingGeneration = some generation ∧
    s.rollbackSlot = some slot.other ∧ s.generation < generation

/-- The slots are those that the phase calls for. -/
def Coherent (s : TeeSlotState) : Prop :=
  match s.phase.standing with
  | .vacant => s.pendingSlot = none
  | .trial => s.Pends ∧ s.activeSlot = s.committedSlot
  | .switched => s.Pends ∧ s.activeSlot = s.committedSlot.other
  | .dead => False

/-! ### What a call does -/

/-- What a call tells an observer. -/
inductive Event where
  | quiet
  | staged (record : TeeCommit)
  | observed (outcome : CommitOutcome)

/-- The record that a durable commit hands to the writer. -/
def published (s : TeeSlotState) : Except OrchestratorError TeeCommit :=
  if s.phase = .commitPending then s.pendingCommit else .error .invalidTransition

/-- The event of a call from `s`: an image was staged, or an outcome of the commit was seen.  A
writer that does not return leaves the outcome unknown. -/
def event (s : TeeSlotState) : SlotOp → Event
  | .stage generation imageHash =>
    match stage generation imageHash s with
    | .ok slot _ => .staged ⟨slot, generation, imageHash⟩
    | _ => .quiet
  | .commitDurably persist =>
    match published s with
    | .ok record => .observed (persist record)
    | .error _ => .quiet
  | .commitLost =>
    match published s with
    | .ok _ => .observed .unknown
    | .error _ => .quiet
  | .resolveCommit outcome => if s.phase = .commitUncertain then .observed outcome else .quiet
  | _ => .quiet

/-- The previous slot is active again and nothing is pending. -/
def restored (s : TeeSlotState) (slot : SlotId) (phase : TeeUpdatePhase) : TeeSlotState :=
  ({ s with activeSlot := slot }.clearPending).setPhase phase

/-- Everything that one call can do to the slots. -/
inductive SlotChange (s : TeeSlotState) : Event → TeeSlotState → Prop
  | same : SlotChange s .quiet s
  | refuse (hs : s.phase.standing = .vacant) : SlotChange s .quiet (s.setPhase .rolledBack)
  | stage {generation : UInt64} {imageHash : ImageHash} (hs : s.phase.standing = .vacant)
      (hgeneration : s.generation < generation) :
      SlotChange s (.staged ⟨s.activeSlot.other, generation, imageHash⟩)
        { s with
          slotHashes := fun slot =>
            if slot = s.activeSlot.other then imageHash else s.slotHashes slot
          pendingSlot := some s.activeSlot.other
          pendingGeneration := some generation
          rollbackSlot := some s.activeSlot
          phase := .staged }
  | advance {phase : TeeUpdatePhase} {preparation cutover : Option UInt64} {tick : UInt64}
      {reboot : Bool} (hs : s.phase ≠ .commitUncertain)
      (hphase : phase.standing = s.phase.standing) (hvacant : s.phase.standing ≠ .vacant) :
      SlotChange s .quiet
        { s with
          phase
          preparationStarted := preparation
          cutoverStarted := cutover
          lastTick := tick
          rebootRequired := reboot }
  | switch {slot : SlotId} {cutover : Option UInt64} {tick : UInt64}
      (hs : s.phase.standing = .trial) (hslot : s.pendingSlot = some slot) :
      SlotChange s .quiet
        { s with
          activeSlot := slot
          cutoverStarted := cutover
          lastTick := tick
          rebootRequired := false
          phase := .healthWindow }
  | restore {slot : SlotId} {phase : TeeUpdatePhase} (hs : s.phase ≠ .commitUncertain)
      (hpending : s.phase.standing ≠ .vacant) (hslot : s.rollbackSlot = some slot)
      (hphase : phase.standing = .vacant) : SlotChange s .quiet (s.restored slot phase)
  | revert {slot : SlotId} (hs : s.phase.standing = .switched)
      (hslot : s.rollbackSlot = some slot) :
      SlotChange s (.observed .notCommitted) (s.restored slot .rolledBack)
  | doubt (hs : s.phase.standing = .switched) :
      SlotChange s (.observed .unknown) (s.setPhase .commitUncertain)
  | commit {generation : UInt64} (hs : s.phase.standing = .switched)
      (hgeneration : s.pendingGeneration = some generation) :
      SlotChange s (.observed .committed)
        (({ s with generation }.clearPending).setPhase .completed)

section Calls

variable {s : TeeSlotState} {cutover : Bool} {phase : TeeUpdatePhase}

theorem Coherent.pendingSlot_eq_none (h : s.Coherent) (hs : s.phase.standing = .vacant) :
    s.pendingSlot = none := by
  unfold Coherent at h
  rw [hs] at h
  exact h

theorem Coherent.pends (h : s.Coherent) (hs : s.phase.standing ≠ .vacant) : s.Pends := by
  unfold Coherent at h
  cases hphase : s.phase.standing with
  | vacant => exact absurd hphase hs
  | trial | switched => rw [hphase] at h; exact h.1
  | dead => rw [hphase] at h; exact h.elim

theorem Coherent.standing_of_pending (h : s.Coherent) (hs : s.pendingSlot.isSome) :
    s.phase.standing ≠ .vacant := fun hvacant => by
  rw [h.pendingSlot_eq_none hvacant] at hs
  cases hs

variable {E : OrchestratorError → TeeSlotState → Prop} {Q : Unit → TeeSlotState → Prop}
  {now : UInt64} {k : SlotM Unit}

/-- Going back to the previous slot. -/
theorem wp_restorePrevious (hQ : ∀ slot, s.pendingSlot.isSome → s.rollbackSlot = some slot →
      Q () { s with activeSlot := slot }.clearPending) (hE : E .invalidTransition s) :
    wp restorePrevious Q E s := by
  simp only [restorePrevious, wp_bind, wp_get, wp_check, wp_some?, wp_modify]
  exact ⟨fun hpending => ⟨fun slot hslot => hQ slot hpending hslot, fun _ => hE⟩, fun _ => hE⟩

/-- The clock goes on, or the deadline has passed and the previous slot is active again. -/
theorem wp_checkTime (hQ : Q () { s with lastTick := now })
    (hrestore : ∀ slot, s.pendingSlot.isSome → s.rollbackSlot = some slot →
      E .deadlineExceeded (s.restored slot .rolledBack)) (hE : E .invalidTransition s) :
    wp (checkTime now cutover) Q E s := by
  unfold checkTime
  rw [wp_bind, wp_get, wp_bind, wp_some?]
  refine ⟨fun start _ => ?_, fun _ => hE⟩
  rw [wp_ite]
  refine ⟨fun _ => ?_, fun _ => (wp_modify _).mpr hQ⟩
  rw [wp_bind]
  refine wp_restorePrevious (fun slot hpending hslot => ?_) hE
  simp only [wp_bind, wp_modify, wp_fail]
  exact hrestore slot hpending hslot

theorem wp_requirePhase (hQ : s.phase = phase → Q () s) (hE : E .invalidTransition s) :
    wp (requirePhase phase) Q E s := by
  simp only [requirePhase, wp_bind, wp_get, wp_check]
  exact ⟨hQ, fun _ => hE⟩

theorem wp_requireGeneration {generation} (hk : wp k Q E s) (hE : E .invalidTransition s) :
    wp (do requireGeneration generation; k) Q E s := by
  simp only [requireGeneration, wp_bind, wp_get, wp_check]
  exact ⟨fun _ => hk, fun _ => hE⟩

/-- A call that checks the deadline of its phase and then goes on. -/
theorem wp_timed (hk : s.phase = phase → wp k Q E { s with lastTick := now })
    (hrestore : ∀ slot, s.phase = phase → s.pendingSlot.isSome → s.rollbackSlot = some slot →
      E .deadlineExceeded (s.restored slot .rolledBack)) (hE : E .invalidTransition s) :
    wp (do requirePhase phase; checkTime now cutover; k) Q E s := by
  rw [wp_bind]
  refine wp_requirePhase (fun hs => ?_) hE
  rw [wp_bind]
  exact wp_checkTime (hk hs) (fun slot => hrestore slot hs) hE

/-- The deadline of a phase in which the candidate is pending. -/
theorem wp_timed_change (h : s.Coherent) (hphase : phase ≠ .commitUncertain)
    (hk : s.phase = phase → ends k (SlotChange s .quiet)
      { s with lastTick := now }) :
    ends (do requirePhase phase; checkTime now cutover; k) (SlotChange s .quiet) s := by
  refine wp_timed hk (fun slot hs hpending hslot => ?_) .same
  exact .restore (hs ▸ hphase) (h.standing_of_pending hpending) hslot rfl

theorem wp_stage (generation imageHash) : wp (stage generation imageHash)
      (fun slot => SlotChange s (.staged ⟨slot, generation, imageHash⟩))
      (fun _ => SlotChange s .quiet) s := by
  unfold stage
  rw [wp_bind, wp_get, wp_bind, wp_check]
  refine ⟨fun ⟨_, hphase⟩ => ?_, fun _ => .same⟩
  have hvacant : s.phase.standing = .vacant := by
    rcases hphase with hphase | hphase | hphase <;> rw [hphase] <;> rfl
  rw [wp_ite]
  constructor
  · intro _
    simp only [wp_bind, wp_modify, wp_fail]
    exact .refuse hvacant
  · intro hlt
    simp only [wp_bind, wp_modify, wp_pure]
    exact .stage hvacant (UInt64.not_le.mp hlt)

/-- An outcome of the commit. -/
theorem wp_finishCommit (h : s.Coherent) {u} (hs : s.phase.standing = .switched)
    (hu : u = s.setPhase .commitUncertain) (outcome) :
    ends (finishCommit outcome) (SlotChange s (.observed outcome)) u := by
  obtain ⟨slot, generation, hslot, hgeneration, hrollback, -⟩ := h.pends (by rw [hs]; nofun)
  subst hu
  cases outcome with
  | committed =>
    simp only [finishCommit, wp_bind, wp_get, wp_some?, wp_modify]
    refine ⟨fun g hg => .commit hs hg, fun hnone => ?_⟩
    rw [setPhase, hgeneration] at hnone
    cases hnone
  | notCommitted =>
    simp only [finishCommit, restorePrevious, wp_bind, wp_get, wp_check, wp_some?, wp_modify,
      wp_fail]
    refine ⟨fun _ => ⟨fun slot hslot => .revert hs hslot, fun hnone => ?_⟩, fun hnone => ?_⟩
    · rw [setPhase, hrollback] at hnone
      cases hnone
    · rw [setPhase, hslot] at hnone
      exact absurd rfl hnone
  | unknown =>
    simp only [finishCommit, wp_bind, wp_modify, wp_fail]
    exact .doubt hs

theorem wp_publishCommit {Q : TeeCommit → TeeSlotState → Prop}
    (hQ : ∀ record, s.phase = .commitPending → s.published = .ok record →
      Q record (s.setPhase .commitUncertain)) (hE : ∀ e, s.published = .error e → E e s) :
    wp publishCommit Q E s := by
  simp only [publishCommit, requirePhase, wp_bind, wp_get, wp_check, wp_lift, wp_modify, wp_pure]
  unfold published at hQ hE
  refine ⟨fun hs => ?_, fun hs => ?_⟩
  · rw [if_pos hs] at hQ hE
    exact ⟨fun record hrecord => hQ record hs hrecord, fun e he => hE e he⟩
  · rw [if_neg hs] at hE
    exact hE _ rfl

theorem wp_rollback (h : s.Coherent)
    (hQ : ∀ slot, s.phase ≠ .commitUncertain → s.phase.standing ≠ .vacant →
      s.rollbackSlot = some slot → Q () (s.restored slot .rolledBack)) (hE : ∀ e, E e s) :
    wp rollback Q E s := by
  simp only [rollback, wp_bind, wp_get, wp_check]
  refine ⟨fun hs => ?_, fun _ => hE _⟩
  refine wp_restorePrevious (fun slot hpending hslot => ?_) (hE _)
  exact (wp_modify _).mpr (hQ slot hs (h.standing_of_pending hpending) hslot)

/-- **Every call is one of the changes.** -/
theorem wp_exec (h : s.Coherent) (op) : ends (exec op) (SlotChange s (s.event op)) s := by
  cases op with
  | stage generation imageHash =>
    have hstage := wp_stage (s := s) generation imageHash
    unfold ends exec
    rw [wp_bind_pure]
    refine wp_of_run (fun slot t hrun => ?_) fun e t hrun => ?_
    · have hchange := of_ok hstage hrun
      simp only [event, hrun]
      exact hchange
    · have hchange := of_err hstage hrun
      simp only [event, hrun]
      exact hchange
  -- the candidate must be that of the staged generation
  | prepare generation now =>
    refine wp_requireGeneration ?_ .same
    rw [wp_bind]
    refine wp_requirePhase (fun hs => ?_) .same
    exact (wp_modify _).mpr (.advance (by rw [hs]; decide) (by rw [hs]; rfl) (by rw [hs]; decide))
  | candidateReady now | quiesce now | confirmHealth now =>
    refine wp_timed_change h (by decide) fun hs => ?_
    exact (wp_modify _).mpr (.advance (by rw [hs]; decide) (by rw [hs]; rfl) (by rw [hs]; decide))
  -- the one timed call that changes the active slot
  | liveSwitch generation now =>
    refine wp_requireGeneration ?_ .same
    refine wp_timed_change h (by decide) fun hs => ?_
    simp only [wp_bind, wp_get, wp_some?, wp_modify]
    refine ⟨fun slot hslot => .switch (by rw [hs]; rfl) hslot, fun _ => ?_⟩
    exact .advance (by rw [hs]; decide) rfl (by rw [hs]; decide)
  | bootActivate generation now =>
    refine wp_requireGeneration ?_ .same
    refine wp_timed_change h (by decide) fun hs => ?_
    exact (wp_modify _).mpr (.advance (by rw [hs]; decide) (by rw [hs]; rfl) (by rw [hs]; decide))
  -- no deadline is checked once the candidate has been booted
  | bootEntered generation now =>
    refine wp_requireGeneration ?_ .same
    rw [wp_bind]
    refine wp_requirePhase (fun hs => ?_) .same
    simp only [wp_bind, wp_get, wp_some?, wp_modify]
    exact ⟨fun slot hslot => .switch (by rw [hs]; rfl) hslot, fun _ => .same⟩
  -- only four phases have a deadline to miss
  | pollDeadline now =>
    have hpoll : ∀ cutover, s.phase ≠ .commitUncertain → s.phase.standing ≠ .vacant →
        ends (checkTime now cutover) (SlotChange s .quiet)
          s := fun cutover hs hvacant =>
      wp_checkTime (.advance hs rfl hvacant)
        (fun slot hpending hslot => .restore hs hvacant hslot rfl) .same
    unfold ends exec pollDeadline
    rw [wp_bind, wp_get]
    cases hs : s.phase with
    | verifying | prepared => exact hpoll false (by rw [hs]; decide) (by rw [hs]; decide)
    | liveSwitch | healthWindow => exact hpoll true (by rw [hs]; decide) (by rw [hs]; decide)
    | _ => exact (wp_pure _).mpr .same
  -- the record goes out first; what becomes of it decides between commit and doubt
  | commitDurably persist =>
    unfold ends exec commitDurably
    rw [wp_bind]
    refine wp_publishCommit (fun record hs hrecord => ?_) fun e hnone => ?_
    · simp only [event, hrecord]
      exact wp_finishCommit h (by rw [hs]; rfl) rfl (persist record)
    · simp only [event, hnone]
      exact .same
  | commitLost =>
    unfold ends exec commitLost
    rw [wp_bind]
    refine wp_publishCommit (fun record hs hrecord => ?_) fun e hnone => ?_
    · simp only [event, hrecord]
      exact (wp_pure _).mpr (.doubt (by rw [hs]; rfl))
    · simp only [event, hnone]
      exact .same
  -- the outcome of a commit that was in doubt
  | resolveCommit outcome =>
    unfold exec resolveCommit
    simp only [requirePhase, wp_bind, wp_get, wp_check]
    constructor
    · intro hs
      rw [event, if_pos hs]
      refine wp_finishCommit h (by rw [hs]; rfl) ?_ outcome
      rw [setPhase, ← hs]
    · intro hs
      rw [event, if_neg hs]
      exact .same
  | rollback =>
    exact wp_rollback h (fun slot hs hvacant hslot => .restore hs hvacant hslot rfl) fun _ => .same
  | abort =>
    unfold ends exec abort
    rw [wp_bind]
    refine wp_rollback h (fun slot hs hvacant hslot => ?_) fun _ => .same
    exact (wp_modify _).mpr (.restore hs hvacant hslot rfl)

end Calls

/-! ### Coherence -/

@[simp] theorem other_ne (slot : SlotId) : slot.other ≠ slot := by cases slot <;> decide

@[simp] theorem other_other (slot : SlotId) : slot.other.other = slot := by cases slot <;> rfl

section Coherence

variable {s t : TeeSlotState}

theorem committedSlot_of_vacant (h : s.Coherent) (hs : s.phase.standing = .vacant) :
    s.committedSlot = s.activeSlot := by
  rw [committedSlot, h.pendingSlot_eq_none hs]

theorem committedSlot_of_pending {slot} (hs : s.pendingSlot = some slot) :
    s.committedSlot = slot.other := by
  rw [committedSlot, hs]

theorem coherent_of_vacant (hs : s.phase.standing = .vacant) (hpending : s.pendingSlot = none) :
    s.Coherent := by
  rw [Coherent, hs]
  exact hpending

/-- The standing decides what is required of the slots. -/
theorem Coherent.of_standing (h : s.Coherent) (hphase : t.phase.standing = s.phase.standing)
    (hactive : t.activeSlot = s.activeSlot) (hpending : t.pendingSlot = s.pendingSlot)
    (hgeneration : t.generation = s.generation)
    (hcandidate : t.pendingGeneration = s.pendingGeneration)
    (hrollback : t.rollbackSlot = s.rollbackSlot) : t.Coherent := by
  unfold Coherent Pends committedSlot at h ⊢
  rw [hphase, hactive, hpending, hgeneration, hcandidate, hrollback]
  exact h

/-- Every change keeps the slots coherent. -/
theorem SlotChange.coherent {e} (hchange : SlotChange s e t) (h : s.Coherent) : t.Coherent := by
  cases hchange with
  | same => exact h
  | refuse hs => exact coherent_of_vacant rfl (h.pendingSlot_eq_none hs)
  | @stage generation imageHash hs hgeneration =>
    refine ⟨⟨s.activeSlot.other, generation, rfl, rfl, ?_, hgeneration⟩, ?_⟩
    · rw [other_other]
    · exact (other_other _).symm
  | advance hs hphase hvacant => exact h.of_standing hphase rfl rfl rfl rfl rfl
  | switch hs hslot =>
    refine ⟨h.pends (by rw [hs]; nofun), ?_⟩
    simp only [committedSlot, hslot, other_other]
  | restore hs hpending hslot hphase => exact coherent_of_vacant hphase rfl
  | revert hs hslot | commit hs hgeneration => exact coherent_of_vacant rfl rfl
  | doubt hs => exact h.of_standing hs.symm rfl rfl rfl rfl rfl

theorem coherent_exec (h : s.Coherent) (op) : ends (exec op) Coherent s :=
  wp_mono (wp_exec h op) (fun _ _ ht => ht.coherent h) fun _ _ ht => ht.coherent h

/-- How a call with a deadline fails: too late, and the previous slot is active again, or out of
its phase, and nothing changes. -/
def Missed (s : TeeSlotState) (e : OrchestratorError) (t : TeeSlotState) : Prop :=
  e = .deadlineExceeded ∧ t.phase = .rolledBack ∧ s.phase.standing ≠ .vacant ∧
      s.phase ≠ .commitUncertain ∨
    e = .invalidTransition ∧ t = s

theorem wp_timed_phase (h : s.Coherent) {phase next now cutover} {f : TeeSlotState → TeeSlotState}
    (hphase : phase ≠ .commitUncertain) (hf : (f { s with lastTick := now }).phase = next) :
    wp (do requirePhase phase; checkTime now cutover; modify f)
      (fun _ t => s.phase = phase ∧ t.phase = next) (Missed s) s :=
  wp_timed (fun hs => (wp_modify _).mpr ⟨hs, hf⟩)
    (fun _ hs hpending _ => .inl ⟨rfl, rfl, h.standing_of_pending hpending, hs ▸ hphase⟩)
    (.inr ⟨rfl, rfl⟩)

theorem wp_candidateReady (h : s.Coherent) (now) :
    wp (candidateReady now) (fun _ t => s.phase = .verifying ∧ t.phase = .prepared) (Missed s) s :=
  wp_timed_phase h nofun rfl

theorem wp_quiesce (h : s.Coherent) (now) :
    wp (quiesce now) (fun _ t => s.phase = .prepared ∧ t.phase = .liveSwitch) (Missed s) s :=
  wp_timed_phase h nofun rfl

theorem wp_confirmHealth (h : s.Coherent) (now) :
    wp (confirmHealth now) (fun _ t => s.phase = .healthWindow ∧ t.phase = .commitPending)
      (Missed s) s :=
  wp_timed_phase h nofun rfl

theorem wp_liveSwitch (h : s.Coherent) (generation now) : wp (liveSwitch generation now)
      (fun _ t => s.phase = .liveSwitch ∧ t.phase = .healthWindow) (Missed s) s := by
  refine wp_requireGeneration ?_ (.inr ⟨rfl, rfl⟩)
  refine wp_timed (fun hs => ?_)
    (fun _ hs hpending _ => .inl ⟨rfl, rfl, h.standing_of_pending hpending, by rw [hs]; nofun⟩)
    (.inr ⟨rfl, rfl⟩)
  obtain ⟨slot, _, hslot, -⟩ := h.pends (by rw [hs]; nofun)
  simp only [wp_bind, wp_get, wp_some?, wp_modify]
  refine ⟨fun _ _ => ⟨hs, trivial⟩, fun hnone => ?_⟩
  rw [hslot] at hnone
  cases hnone

theorem wp_pollDeadline (h : s.Coherent) (now) :
    wp (pollDeadline now) (fun _ t => t.phase = s.phase) (Missed s) s := by
  have hpoll : ∀ cutover, s.phase ≠ .commitUncertain →
      wp (checkTime now cutover) (fun _ t => t.phase = s.phase) (Missed s) s := fun cutover hs =>
    wp_checkTime rfl
      (fun slot hpending hslot => .inl ⟨rfl, rfl, h.standing_of_pending hpending, hs⟩)
      (.inr ⟨rfl, rfl⟩)
  unfold pollDeadline
  rw [wp_bind, wp_get]
  split
  · rename_i hs; exact hpoll false (by rw [hs]; nofun)
  · rename_i hs; exact hpoll false (by rw [hs]; nofun)
  · rename_i hs; exact hpoll true (by rw [hs]; nofun)
  · rename_i hs; exact hpoll true (by rw [hs]; nofun)
  · exact (wp_pure _).mpr rfl

/-- A larger generation is staged and its preparation starts, or nothing changes. -/
theorem wp_stage_prepare (h : s.Coherent) {generation} (hgeneration : s.generation < generation)
    (imageHash now) :
    wp (do let _ ← stage generation imageHash; prepare generation now)
      (fun _ t => t.Coherent ∧ t.phase = .verifying ∧ s.phase.standing = .vacant)
      (fun _ t => t = s) s := by
  unfold stage
  simp only [wp_bind, wp_get, wp_check, wp_ite, wp_modify, wp_fail, wp_pure]
  refine ⟨fun hphase => ⟨fun hle => ?_, fun _ => ?_⟩, fun _ => trivial⟩
  · exact absurd hle (UInt64.not_le.mpr hgeneration)
  · have hvacant : s.phase.standing = .vacant := by
      rcases hphase.2 with hs | hs | hs <;> rw [hs] <;> rfl
    have hchange : SlotChange s (.staged ⟨s.activeSlot.other, generation, imageHash⟩) _ :=
      .stage hvacant hgeneration
    have hstaged := hchange.coherent h
    simp only [prepare, requireGeneration, requirePhase, wp_bind, wp_get, wp_check, wp_modify]
    refine ⟨fun _ => ⟨fun _ => ⟨hstaged.of_standing rfl rfl rfl rfl rfl rfl, trivial, hvacant⟩,
      fun hne => absurd trivial hne⟩, fun hne => absurd trivial hne⟩

/-- How an outcome of the commit ends. -/
theorem wp_finishCommit_phase {u} (h : s.Coherent) (hs : s.phase.standing = .switched)
    (hu : u = s.setPhase .commitUncertain) (outcome) :
    wp (finishCommit outcome) (fun _ t => outcome = .committed ∧ t.phase = .completed)
      (fun e t => outcome = .notCommitted ∧ e = .commitFailed ∧ t.phase = .rolledBack ∨
        outcome = .unknown ∧ e = .commitUncertain ∧ t.phase = .commitUncertain) u := by
  obtain ⟨slot, generation, hslot, hgeneration, hrollback, -⟩ := h.pends (by rw [hs]; decide)
  subst hu
  cases outcome with
  | committed =>
    simp only [finishCommit, setPhase, hgeneration, wp_bind, wp_get, wp_some?, wp_modify]
    exact ⟨fun _ _ => ⟨trivial, trivial⟩, fun heq => by cases heq⟩
  | notCommitted =>
    simp only [finishCommit, restorePrevious, setPhase, hslot, hrollback, wp_bind, wp_get,
      wp_check, wp_some?, wp_modify, wp_fail]
    exact ⟨fun _ => ⟨fun _ _ => .inl ⟨trivial, trivial, trivial⟩, fun heq => by cases heq⟩,
      fun hnone => absurd rfl hnone⟩
  | unknown =>
    simp only [finishCommit, wp_bind, wp_modify, wp_fail]
    exact .inr ⟨trivial, trivial, rfl⟩

end Coherence

/-! ### The observer -/

/-- What an observer knows who sees which images were staged and which outcomes of commits were
seen: the record committed last, the one staged last, and whether a commit is in doubt. -/
structure Ledger where
  committed : TeeCommit
  staged : Option TeeCommit
  unknown : Bool

def Ledger.note (w : Ledger) : Event → Ledger
  | .quiet => w
  | .staged record => { w with staged := some record }
  | .observed .committed => { w with committed := w.staged.getD w.committed, unknown := false }
  | .observed .notCommitted => { w with unknown := false }
  | .observed .unknown => { w with unknown := true }

/-- States reached from a new state machine, with the ledger of the observer. -/
def Watches (s : TeeSlotState) (w : Ledger) : Prop :=
  ∃ slot generation hashes,
    Steps (watch step fun w op s _ => w.note (s.event op)) (fun _ _ => True)
      (new slot generation hashes, ⟨⟨slot, generation, hashes slot⟩, none, false⟩) (s, w)

/-- The state is the one that the ledger calls for. -/
structure Agrees (s : TeeSlotState) (w : Ledger) : Prop where
  coherent : s.Coherent
  committed : w.committed = ⟨s.committedSlot, s.generation, s.slotHashes s.committedSlot⟩
  staged : s.phase.standing ≠ .vacant → ∃ record, w.staged = some record ∧
    s.pendingCommit = .ok record
  unknown : w.unknown = true → s.phase = .commitUncertain

variable {s t : TeeSlotState} {w : Ledger}

theorem agrees_new (slot generation) (hashes : SlotId → ImageHash) :
    Agrees (new slot generation hashes) ⟨⟨slot, generation, hashes slot⟩, none, false⟩ :=
  ⟨rfl, rfl, fun h => absurd rfl h, nofun⟩

/-- Going back to the previous slot leaves the committed record as it is. -/
theorem Agrees.committed_restored (h : Agrees s w) {slot phase} (hs : s.phase.standing ≠ .vacant)
    (hslot : s.rollbackSlot = some slot) :
    w.committed = ⟨(s.restored slot phase).committedSlot, s.generation,
      s.slotHashes (s.restored slot phase).committedSlot⟩ := by
  obtain ⟨pending, _, hpending, -, hrollback, -⟩ := h.coherent.pends hs
  obtain rfl : pending.other = slot := Option.some.inj (hrollback.symm.trans hslot)
  have hcommitted := h.committed
  rw [committedSlot_of_pending hpending] at hcommitted
  exact hcommitted

variable {e : Event}

/-- Every change keeps the state in agreement with the ledger. -/
theorem Agrees.change (h : Agrees s w) (hchange : SlotChange s e t) : Agrees t (w.note e) := by
  have hcoherent := hchange.coherent h.coherent
  cases hchange with
  | same => exact h
  | refuse hs =>
    refine ⟨hcoherent, h.committed, fun hvacant => absurd rfl hvacant, fun hu => ?_⟩
    rw [h.unknown hu] at hs
    cases hs
  -- the image goes to the slot that is not in use, so what is committed stays
  | @stage generation imageHash hs hgeneration =>
    have hcommitted := h.committed
    rw [committedSlot_of_vacant h.coherent hs] at hcommitted
    refine ⟨hcoherent, ?_, fun _ => ?_, fun hu => ?_⟩
    · show w.committed = ⟨s.activeSlot.other.other, s.generation,
        if s.activeSlot.other.other = s.activeSlot.other then imageHash
        else s.slotHashes s.activeSlot.other.other⟩
      rw [if_neg (other_ne _), other_other]
      exact hcommitted
    · refine ⟨_, rfl, ?_⟩
      simp [pendingCommit]
    · rw [h.unknown hu] at hs
      cases hs
  | advance hs hphase hvacant =>
    exact ⟨hcoherent, h.committed, fun _ => h.staged hvacant, fun hu => absurd (h.unknown hu) hs⟩
  -- both slots keep their images; only the active one changes
  | switch hs hslot =>
    have hcommitted := h.committed
    rw [committedSlot_of_pending hslot] at hcommitted
    refine ⟨hcoherent, ?_, fun _ => h.staged (by rw [hs]; nofun), fun hu => ?_⟩
    · simp only [committedSlot, hslot]
      exact hcommitted
    · rw [h.unknown hu] at hs
      cases hs
  | restore hs hpending hslot hphase =>
    exact ⟨hcoherent, h.committed_restored hpending hslot, fun hv => absurd hphase hv,
      fun hu => absurd (h.unknown hu) hs⟩
  | revert hs hslot =>
    exact ⟨hcoherent, h.committed_restored (by rw [hs]; nofun) hslot, fun hv => absurd rfl hv,
      nofun⟩
  | doubt hs =>
    exact ⟨hcoherent, h.committed, fun _ => h.staged (by rw [hs]; nofun), fun _ => rfl⟩
  -- the record the observer saw staged is that of the slot now active
  | @commit generation hs hgeneration =>
    obtain ⟨record, hstaged, hrecord⟩ := h.staged (by rw [hs]; nofun)
    have hswitched := h.coherent
    unfold Coherent at hswitched
    rw [hs] at hswitched
    obtain ⟨⟨slot, g, hslot, hg, -, -⟩, hactive⟩ := hswitched
    rw [committedSlot_of_pending hslot, other_other] at hactive
    obtain rfl : g = generation := Option.some.inj (hg.symm.trans hgeneration)
    rw [pendingCommit, hslot, hg] at hrecord
    obtain rfl := Except.ok.inj hrecord
    refine ⟨hcoherent, ?_, fun hv => absurd rfl hv, nofun⟩
    show w.staged.getD w.committed = ⟨s.activeSlot, g, s.slotHashes s.activeSlot⟩
    rw [hstaged, hactive]
    rfl

theorem Watches.agrees (h : Watches s w) : Agrees s w := by
  obtain ⟨slot, generation, hashes, hrun⟩ := h
  refine Steps.invariant (I := fun x => Agrees x.1 x.2) (fun x op y hx _ hy => ?_) hrun
    (agrees_new slot generation hashes)
  obtain ⟨t, ht, rfl⟩ := Option.map_eq_some_iff.mp hy
  exact hx.change (of_state (wp_exec hx.coherent op) ht)

/-- The committed generation is that of the image staged last, once it is observed as
committed. -/
theorem SlotChange.generation (hchange : SlotChange s e t) (h : Agrees s w) :
    (e = .observed .committed ∧ ∃ record, w.staged = some record ∧
      s.generation < record.generation ∧ t.generation = record.generation) ∨
    (e ≠ .observed .committed ∧ t.generation = s.generation) := by
  cases hchange with
  | @commit generation hs hgeneration =>
    have hvacant : s.phase.standing ≠ .vacant := by rw [hs]; nofun
    obtain ⟨slot, g, hslot, hg, -, hlt⟩ := h.coherent.pends hvacant
    obtain ⟨record, hstaged, hrecord⟩ := h.staged hvacant
    obtain rfl : g = generation := Option.some.inj (hg.symm.trans hgeneration)
    rw [pendingCommit, hslot, hg] at hrecord
    obtain rfl := Except.ok.inj hrecord
    exact .inl ⟨rfl, _, hstaged, hlt, rfl⟩
  | _ => exact .inr ⟨nofun, rfl⟩

/-- Staging takes the slot that is not active and writes no other. -/
theorem SlotChange.staged {record} (hchange : SlotChange s (.staged record) t) :
    s.phase.standing = .vacant ∧ record.slot = s.activeSlot.other ∧
    t.slotHashes s.activeSlot = s.slotHashes s.activeSlot := by
  cases hchange with
  | stage hs hgeneration => exact ⟨hs, rfl, if_neg (other_ne _).symm⟩

/-- In doubt nothing changes but by an outcome. -/
theorem SlotChange.eq_of_doubt (hchange : SlotChange s e t) (hs : s.phase = .commitUncertain)
    (hcommitted : e ≠ .observed .committed) (hnot : e ≠ .observed .notCommitted) : t = s := by
  cases hchange with
  | same => rfl
  | doubt _ => rw [setPhase, ← hs]
  | refuse hphase | stage hphase _ | switch hphase _ => rw [hs] at hphase; cases hphase
  | advance hphase _ _ | restore hphase _ _ _ => exact absurd hs hphase
  | revert _ _ => exact absurd rfl hnot
  | commit _ _ => exact absurd rfl hcommitted

theorem Coherent.phase_of_active_ne (h : s.Coherent) (hne : s.activeSlot ≠ s.committedSlot) :
    s.phase = .healthWindow ∨ s.phase = .commitPending ∨ s.phase = .commitUncertain := by
  cases hs : s.phase.standing with
  | vacant => exact absurd (committedSlot_of_vacant h hs).symm hne
  | trial =>
    unfold Coherent at h
    rw [hs] at h
    exact absurd h.2 hne
  | switched =>
    revert hs
    cases s.phase <;> simp [TeeUpdatePhase.standing]
  | dead =>
    unfold Coherent at h
    rw [hs] at h
    exact h.elim

/-- **The committed image survives.**  In every state reached, for every call:

* the committed generation never decreases, and changes exactly in a call that observes a
  committed outcome, to the larger generation that was staged;
* the slot of the committed record holds its image, and staging takes the other slot;
* the active slot differs from the committed one only in the three phases after the switch;
* while the outcome of a commit is unknown, no call changes anything, unless it observes that the
  commit took place or that it did not. -/
theorem never_regress (h : Watches s w) (op : SlotOp) (ht : step op s = some t) :
    (s.generation = w.committed.generation ∧ s.generation ≤ t.generation ∧
      (t.generation ≠ s.generation ↔ s.event op = .observed .committed) ∧
      (t.generation ≠ s.generation → ∃ record, w.staged = some record ∧
        s.generation < record.generation ∧ t.generation = record.generation)) ∧
    (s.slotHashes w.committed.slot = w.committed.imageHash ∧
      ∀ record, s.event op = .staged record → record.slot ≠ w.committed.slot ∧
        t.slotHashes w.committed.slot = w.committed.imageHash) ∧
    (s.activeSlot ≠ w.committed.slot → s.phase = .healthWindow ∨ s.phase = .commitPending ∨
      s.phase = .commitUncertain) ∧
    (w.unknown = true → s.event op ≠ .observed .committed →
      s.event op ≠ .observed .notCommitted → t = s) := by
  have hagrees := h.agrees
  have hchange : SlotChange s (s.event op) t := of_state (wp_exec hagrees.coherent op) ht
  refine ⟨⟨by rw [hagrees.committed], ?_⟩, ⟨by rw [hagrees.committed], fun record hrecord => ?_⟩,
    fun hne => ?_, fun hu => hchange.eq_of_doubt (hagrees.unknown hu)⟩
  · obtain ⟨hevent, record, hstaged, hlt, heq⟩ | ⟨hevent, heq⟩ := hchange.generation hagrees
    · have hne : t.generation ≠ s.generation := heq ▸ (UInt64.ne_of_lt hlt).symm
      exact ⟨heq ▸ UInt64.le_of_lt hlt, ⟨fun _ => hevent, fun _ => hne⟩,
        fun _ => ⟨record, hstaged, hlt, heq⟩⟩
    · exact ⟨heq ▸ UInt64.le_refl _, ⟨fun hne => absurd heq hne, fun he => absurd he hevent⟩,
        fun hne => absurd heq hne⟩
  · rw [hrecord] at hchange
    obtain ⟨hvacant, hslot, hhash⟩ := hchange.staged
    rw [hagrees.committed, committedSlot_of_vacant hagrees.coherent hvacant]
    exact ⟨hslot ▸ other_ne _, hhash⟩
  · rw [hagrees.committed] at hne
    exact hagrees.coherent.phase_of_active_ne hne

/-- An image is staged, switched to and committed, but the reply to the commit is lost. -/
def lostCommit (image : ImageHash) : List SlotOp :=
  [.stage 8 image, .prepare 8 0, .candidateReady 1, .quiesce 2, .liveSwitch 8 3, .confirmHealth 4,
    .commitDurably fun _ => .unknown]

/-- After the lost reply the candidate is active and no rollback takes effect. -/
theorem never_regress_lost_commit :
    ∃ s w t, Watches s w ∧ w.unknown = true ∧ s.activeSlot ≠ w.committed.slot ∧
      step .rollback s = some t ∧ t = s := by
  let image : ImageHash := List.Vector.replicate 32 1
  let start : TeeSlotState × Ledger := (new .a 7 fun _ => image, ⟨⟨.a, 7, image⟩, none, false⟩)
  have hrun : (runAll (watch step fun w op s _ => w.note (s.event op)) (fun _ _ => true)
      (lostCommit image) start).any (fun x => x.2.unknown = true ∧
        x.1.activeSlot ≠ x.2.committed.slot ∧ (step .rollback x.1).isSome) = true := by
    decide +kernel
  obtain ⟨⟨s, w⟩, hsteps, hunknown, hactive, hstep⟩ := exists_steps (fun _ _ => True) _ hrun
  obtain ⟨t, ht⟩ := Option.isSome_iff_exists.mp hstep
  have hwatch : Watches s w := ⟨.a, 7, fun _ => image, hsteps⟩
  exact ⟨s, w, t, hwatch, hunknown, hactive, ht,
    (never_regress hwatch .rollback ht).2.2.2 hunknown nofun nofun⟩

/-- **A candidate can be given up** for the committed slot in every state reached, unless its
commit is in doubt. -/
theorem rolls_back_iff (h : Watches s w) :
    (∃ t, rollback s = .ok () t ∧ t.activeSlot = w.committed.slot) ↔
      s.phase.standing ≠ .vacant ∧ s.phase ≠ .commitUncertain := by
  obtain ⟨hcoherent, hcommitted, -, -⟩ := h.agrees
  constructor
  · rintro ⟨t, ht, -⟩
    exact (of_ok (wp_rollback (Q := fun _ _ => s.phase.standing ≠ .vacant ∧ _)
      (E := fun _ _ => True) hcoherent (fun _ hsure hs _ => ⟨hs, hsure⟩) fun _ => trivial) ht :)
  · rintro ⟨hs, hsure⟩
    obtain ⟨slot, _, hslot, -, hback, -⟩ := hcoherent.pends hs
    have hrestored : restorePrevious s = .ok () _ :=
      (bind_of_ok (check_of_true (by rw [hslot]; rfl))).trans (bind_of_ok (by rw [hback]; rfl))
    refine ⟨_, (bind_of_ok (check_of_true hsure)).trans (bind_of_ok hrestored), ?_⟩
    rw [hcommitted, committedSlot_of_pending hslot]
    rfl

theorem rolls_back_staged : ∃ s w, Watches s w ∧
    ∃ t, rollback s = .ok () t ∧ t.activeSlot = w.committed.slot := by
  have hwatch : Watches _ _ := ⟨.a, 7, fun _ => .replicate 32 1,
    Steps.refl.tail (i := .stage 8 (.replicate 32 1)) trivial rfl⟩
  exact ⟨_, _, hwatch, (rolls_back_iff hwatch).mpr ⟨nofun, nofun⟩⟩

end TeeSlotState

end Bexos
