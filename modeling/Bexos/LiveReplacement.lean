/-
The live replacement of the secure runtime, and its authority over durable storage.

`orchestrator/writer.rs` admits one durable write at a time, for one owner and one epoch.
`orchestrator/live.rs` combines it with the A/B slots: a candidate imports the source's storage,
its services report ready, writes are frozen, the image is committed durably, and only then does
the candidate become the owner.  Any failure resumes the source.

* `LiveChange` — everything that one call can do, given what it observes;
* `Sound` — what each phase says about the writer and the candidate's reports;
* `Records` — the state against the ledger of an observer of the calls' results;
* `single_authority` — exactly one owner can write, also across lost replies.

Design notes: the pair `(epoch, sequence)` of a pending write is its ticket.  As for the slots, a
persistent commit that never returns is an operation of its own.
-/
import Bexos.TeeSlots

namespace Bexos

open Prog

/-! ### The writer -/

inductive WriterError where
  | denied
  | busy
  | stale
  | exhausted
  | uncertain
  deriving DecidableEq, Repr

inductive WriteOutcome where
  | committed
  | notCommitted
  | unknown
  deriving DecidableEq, Repr

structure Ticket where
  epoch : UInt64
  sequence : UInt64
  deriving DecidableEq, Repr

structure Writer where
  owner : UInt64
  epoch : UInt64
  next : UInt64
  watermark : UInt64
  pending : Option Ticket
  frozen : Bool
  uncertain : Bool

abbrev WriterM := Prog Writer WriterError

namespace Writer

def new (owner epoch watermark : UInt64) : Except WriterError Writer :=
  if owner = 0 ∨ epoch = 0 then .error .denied
  else .ok { owner, epoch, next := 1, watermark, pending := none, frozen := false,
             uncertain := false }

def drained (w : Writer) : Bool := w.pending.isNone && !w.uncertain

def begin (owner epoch : UInt64) : WriterM Ticket := do
  let w ← get
  check (owner = w.owner ∧ epoch = w.epoch) .denied
  check (¬ w.uncertain) .uncertain
  check (¬ (w.frozen ∨ w.pending.isSome)) .busy
  let next ← some? (w.next.checkedAdd 1) .exhausted
  let _ ← some? (w.watermark.checkedAdd 1) .exhausted
  modify fun w => { w with pending := some ⟨epoch, w.next⟩, next }
  return ⟨epoch, w.next⟩

def apply : WriteOutcome → WriterM Unit
  | .unknown => do
    modify fun w => { w with uncertain := true, frozen := true }
    fail .uncertain
  | .committed => do
    let w ← get
    let watermark ← some? (w.watermark.checkedAdd 1) .exhausted
    modify fun w => { w with watermark, pending := none, uncertain := false }
  | .notCommitted => modify fun w => { w with pending := none, uncertain := false }

def finish (ticket : Ticket) (outcome : WriteOutcome) : WriterM Unit := do
  let w ← get
  check (w.pending = some ticket) .stale
  check (¬ w.uncertain) .uncertain
  apply outcome

def resolve (ticket : Ticket) (outcome : WriteOutcome) : WriterM Unit := do
  let w ← get
  check (w.pending = some ticket) .stale
  check w.uncertain .stale
  apply outcome

def freeze : WriterM Unit := modify fun w => { w with frozen := true }

def resume : WriterM Unit := do
  let w ← get
  check (¬ w.uncertain) .uncertain
  modify fun w => { w with frozen := false }

def transfer (candidate : UInt64) : WriterM Unit := do
  let w ← get
  check (candidate ≠ 0 ∧ candidate ≠ w.owner) .denied
  check (w.frozen ∧ w.drained) .busy
  let epoch ← some? (w.epoch.checkedAdd 1) .exhausted
  modify fun w => { w with owner := candidate, epoch, frozen := false }

end Writer

/-! ### The replacement -/

inductive LiveError where
  | lifecycle (e : OrchestratorError)
  | storage (e : WriterError)
  | invalid
  | notReady
  | recoveryRequired
  deriving DecidableEq, Repr

/-- What the persistent authority binds in one transaction. -/
structure Commit where
  image : TeeCommit
  sourceOwner : UInt64
  candidateOwner : UInt64
  storageEpoch : UInt64
  storageWatermark : UInt64
  transportEpoch : UInt64
  deriving DecidableEq

structure CandidateReport where
  owner : UInt64
  generation : UInt64
  migrationAbi : UInt64
  digest : ImageHash

structure Live where
  slots : TeeSlotState
  writer : Writer
  candidate : UInt64
  requiredServices : UInt64
  readyServices : UInt64
  copiedThrough : Option UInt64
  transportEpoch : UInt64
  migrationAbi : UInt64
  recoveryRequired : Bool

abbrev LiveM := Prog Live LiveError

/-- Exactly one bit is set. -/
def isPowerOfTwo (n : UInt64) : Bool := decide (∃ k : Fin 64, n = 1 <<< k.val.toUInt64)

namespace Live

def zeroHash : ImageHash := List.Vector.replicate 32 0

def new (source generation : UInt64) (activeSlot : SlotId) (imageHash : ImageHash)
    (storageWatermark transportEpoch requiredServices : UInt64) : Except LiveError Live :=
  if generation = 0 ∨ imageHash = zeroHash ∨ requiredServices = 0 ∨ transportEpoch = 0 then
    .error .invalid
  else
    match Writer.new source transportEpoch storageWatermark with
    | .error e => .error (.storage e)
    | .ok writer =>
      .ok
        { slots := .new activeSlot generation fun slot =>
            if slot = activeSlot then imageHash else zeroHash
          writer
          candidate := 0
          requiredServices
          readyServices := 0
          copiedThrough := none
          transportEpoch
          migrationAbi := 1
          recoveryRequired := false }

/-- Run a call of the slots, or of the writer. -/
def onSlots {α : Type} (x : SlotM α) : LiveM α :=
  mapErr .lifecycle (zoom Live.slots (fun slots l => { l with slots }) x)

def onWriter {α : Type} (x : WriterM α) : LiveM α :=
  mapErr .storage (zoom Live.writer (fun writer l => { l with writer }) x)

/-- Run a call of the slots and keep its result. -/
def trySlots (x : SlotM Unit) : LiveM (Except OrchestratorError Unit) :=
  zoom Live.slots (fun slots l => { l with slots }) (attempt x)

def tryWriter (x : WriterM Unit) : LiveM (Except WriterError Unit) :=
  zoom Live.writer (fun writer l => { l with writer }) (attempt x)

def resumeSource : LiveM Unit := do
  let l ← get
  let nextEpoch ← some? (l.transportEpoch.checkedAdd 1) .invalid
  match ← tryWriter Writer.resume with
  | .error _ => do
    modify fun l => { l with recoveryRequired := true }
    fail .recoveryRequired
  | .ok () =>
    modify fun l =>
      { l with
        transportEpoch := nextEpoch
        recoveryRequired := false
        candidate := 0
        copiedThrough := none
        readyServices := 0 }

def lifecycle (result : Except OrchestratorError Unit) : LiveM Unit := do
  when (result = .error .deadlineExceeded) resumeSource
  lift (result.mapError .lifecycle)

/-- The candidate becomes the owner. -/
def handOver : LiveM Unit := do
  let l ← get
  match ← tryWriter (Writer.transfer l.candidate) with
  | .error _ => do
    modify fun l => { l with recoveryRequired := true }
    fail .recoveryRequired
  | .ok () => pure ()

/-- What follows from the outcome of a commit. -/
def settle (result : Except OrchestratorError Unit) : LiveM Unit := do
  let l ← get
  match result, l.slots.phase with
  | .ok (), .completed => handOver
  | .error .commitFailed, .rolledBack => resumeSource
  | _, _ => pure ()

def completion (result : Except OrchestratorError Unit) : LiveM Unit := do
  settle result
  lift (result.mapError .lifecycle)

def beginReported (report : CandidateReport) (now : UInt64) : LiveM Unit := do
  let l ← get
  check (¬ l.recoveryRequired) .recoveryRequired
  check (¬ l.writer.frozen) .notReady
  check (¬ (report.owner = 0 ∨ report.owner = l.writer.owner ∨ report.digest = zeroHash ∨
    report.migrationAbi ≠ l.migrationAbi)) .invalid
  -- the numbers for the switch and for a rollback are reserved
  let _ ← some? (l.transportEpoch.checkedAdd 2) .invalid
  let _ ← some? (l.writer.epoch.checkedAdd 1) .invalid
  check (l.slots.generation < report.generation) (.lifecycle .rollbackGeneration)
  let _ ← onSlots (TeeSlotState.stage report.generation report.digest)
  onSlots (TeeSlotState.prepare report.generation now)
  modify fun l => { l with candidate := report.owner, readyServices := 0, copiedThrough := none }

def begin (candidate generation : UInt64) (digest : ImageHash) (now : UInt64) : LiveM Unit := do
  let l ← get
  beginReported ⟨candidate, generation, l.migrationAbi, digest⟩ now

def beginWrite (owner epoch : UInt64) : LiveM Ticket := do
  let l ← get
  check (¬ l.recoveryRequired) .recoveryRequired
  onWriter (Writer.begin owner epoch)

def finishWrite (ticket : Ticket) (outcome : WriteOutcome) : LiveM Unit :=
  onWriter (Writer.finish ticket outcome)

/-- Phases in which writes stay frozen. -/
def holds (phase : TeeUpdatePhase) : Bool :=
  phase = .liveSwitch || phase = .healthWindow || phase = .commitPending ||
    phase = .commitUncertain

def resolveWrite (ticket : Ticket) (outcome : WriteOutcome) : LiveM Unit := do
  onWriter (Writer.resolve ticket outcome)
  let l ← get
  if l.recoveryRequired ∧ l.slots.phase = .rolledBack then
    -- no commit was attempted: the write was all that a rollback waited for
    resumeSource
  else when (¬ l.recoveryRequired ∧ ¬ holds l.slots.phase) (onWriter Writer.resume)

/-- Phases in which the candidate imports and its services report. -/
def imports (phase : TeeUpdatePhase) : Bool :=
  phase = .verifying || phase = .liveSwitch || phase = .healthWindow

def imported (candidate watermark : UInt64) : LiveM Unit := do
  let l ← get
  check (¬ l.recoveryRequired) .recoveryRequired
  check (¬ (candidate ≠ l.candidate ∨ ¬ imports l.slots.phase ∨ watermark > l.writer.watermark ∨
    l.copiedThrough.any (watermark < ·))) .invalid
  modify fun l =>
    { l with
      readyServices := if l.copiedThrough ≠ some watermark then 0 else l.readyServices
      copiedThrough := some watermark }

def serviceReady (candidate service watermark : UInt64) : LiveM Unit := do
  let l ← get
  check (¬ l.recoveryRequired) .recoveryRequired
  check (¬ (candidate ≠ l.candidate ∨ ¬ isPowerOfTwo service ∨
    service &&& l.requiredServices = 0 ∨ l.copiedThrough ≠ some watermark ∨
    ¬ imports l.slots.phase)) .invalid
  modify fun l => { l with readyServices := l.readyServices ||| service }

def caughtUp (l : Live) : Bool :=
  l.copiedThrough = some l.writer.watermark && l.readyServices = l.requiredServices &&
    l.writer.drained

def prepared (now : UInt64) : LiveM Unit := do
  let l ← get
  check l.caughtUp .notReady
  let result ← trySlots (TeeSlotState.candidateReady now)
  lifecycle result

def quiesce (now : UInt64) : LiveM Unit := do
  let result ← trySlots (TeeSlotState.quiesce now)
  lifecycle result
  onWriter Writer.freeze
  modify fun l => { l with readyServices := 0 }

def switch (now : UInt64) : LiveM Unit := do
  let l ← get
  check (l.writer.frozen ∧ l.caughtUp) .notReady
  let record ← lift (l.slots.pendingCommit.mapError .lifecycle)
  let result ← trySlots (TeeSlotState.liveSwitch record.generation now)
  lifecycle result
  modify fun l => { l with transportEpoch := l.transportEpoch + 1, readyServices := 0 }

def healthy (now : UInt64) : LiveM Unit := do
  let l ← get
  check l.caughtUp .notReady
  let result ← trySlots (TeeSlotState.confirmHealth now)
  lifecycle result

def pendingCommit (l : Live) : Except LiveError Commit :=
  if l.slots.phase = .commitPending ∨ l.slots.phase = .commitUncertain then
    match l.slots.pendingCommit, l.writer.epoch.checkedAdd 1 with
    | .ok image, some epoch =>
      .ok ⟨image, l.writer.owner, l.candidate, epoch, l.writer.watermark, l.transportEpoch⟩
    | .error e, _ => .error (.lifecycle e)
    | .ok _, none => .error .invalid
  else .error (.lifecycle .invalidTransition)

def commit (persist : Commit → CommitOutcome) : LiveM Unit := do
  let l ← get
  check (¬ l.recoveryRequired) .recoveryRequired
  let record ← lift l.pendingCommit
  let result ← trySlots (TeeSlotState.commitDurably fun _ => persist record)
  completion result

/-- A commit whose writer does not return. -/
def commitLost : LiveM Unit := do
  let l ← get
  check (¬ l.recoveryRequired) .recoveryRequired
  let _ ← lift l.pendingCommit
  onSlots TeeSlotState.commitLost

def resolveCommit (outcome : CommitOutcome) : LiveM Unit := do
  let l ← get
  check (¬ l.recoveryRequired) .recoveryRequired
  let result ← trySlots (TeeSlotState.resolveCommit outcome)
  completion result

def poll (now : UInt64) : LiveM Unit := do
  let l ← get
  check (¬ l.recoveryRequired) .recoveryRequired
  let result ← trySlots (TeeSlotState.pollDeadline now)
  lifecycle result

def abort : LiveM Unit := do
  let l ← get
  check (¬ l.recoveryRequired) .recoveryRequired
  onSlots TeeSlotState.rollback
  resumeSource

end Live

/-- The calls on the replacement. -/
inductive LiveOp where
  | beginReported (report : CandidateReport) (now : UInt64)
  | begin (candidate generation : UInt64) (digest : ImageHash) (now : UInt64)
  | beginWrite (owner epoch : UInt64)
  | finishWrite (ticket : Ticket) (outcome : WriteOutcome)
  | resolveWrite (ticket : Ticket) (outcome : WriteOutcome)
  | imported (candidate watermark : UInt64)
  | serviceReady (candidate service watermark : UInt64)
  | prepared (now : UInt64)
  | quiesce (now : UInt64)
  | switch (now : UInt64)
  | healthy (now : UInt64)
  | commit (persist : Commit → CommitOutcome)
  | commitLost
  | resolveCommit (outcome : CommitOutcome)
  | poll (now : UInt64)
  | abort

namespace Live

def exec : LiveOp → LiveM Unit
  | .beginReported report now => beginReported report now
  | .begin candidate generation digest now => begin candidate generation digest now
  | .beginWrite owner epoch => do let _ ← beginWrite owner epoch
  | .finishWrite ticket outcome => finishWrite ticket outcome
  | .resolveWrite ticket outcome => resolveWrite ticket outcome
  | .imported candidate watermark => imported candidate watermark
  | .serviceReady candidate service watermark => serviceReady candidate service watermark
  | .prepared now => prepared now
  | .quiesce now => quiesce now
  | .switch now => switch now
  | .healthy now => healthy now
  | .commit persist => commit persist
  | .commitLost => commitLost
  | .resolveCommit outcome => resolveCommit outcome
  | .poll now => poll now
  | .abort => abort

/-- The state after a call, whether it succeeded or returned an error. -/
def step (op : LiveOp) (l : Live) : Option Live := (exec op l).state?

/-! ### What a call does -/

/-- What a call tells an observer. -/
inductive Event where
  | quiet
  | began (candidate : UInt64)
  | wrote (ticket : Ticket)
  | settled (ticket : Ticket) (committed : Bool)
  | doubted
  | imported (watermark : UInt64)
  | ready (service watermark : UInt64)
  | observed (outcome : CommitOutcome)

/-- The record that a commit hands to the persistent authority. -/
def published (l : Live) : Option Commit :=
  if l.recoveryRequired ∨ l.slots.phase ≠ .commitPending then none else l.pendingCommit.toOption

/-- The event of a call that returns a value. -/
def okEvent {α : Type} (f : α → Event) : Outcome Live LiveError α → Event
  | .ok a _ => f a
  | _ => .quiet

/-- The event of a report on a write. -/
def writeEvent (ticket : Ticket) (outcome : WriteOutcome) : Outcome Live LiveError Unit → Event
  | .ok _ _ => .settled ticket (outcome = .committed)
  | .err e _ => if e = .storage .uncertain then .doubted else .quiet
  | .halt => .quiet

/-- The event of a call from `l`, as its result tells it. -/
def event (l : Live) : LiveOp → Event
  | .beginReported report now =>
    okEvent (fun _ => .began report.owner) (beginReported report now l)
  | .begin candidate generation digest now =>
    okEvent (fun _ => .began candidate) (begin candidate generation digest now l)
  | .beginWrite owner epoch => okEvent .wrote (beginWrite owner epoch l)
  | .finishWrite ticket outcome => writeEvent ticket outcome (finishWrite ticket outcome l)
  | .resolveWrite ticket outcome => writeEvent ticket outcome (resolveWrite ticket outcome l)
  | .imported candidate watermark =>
    okEvent (fun _ => .imported watermark) (imported candidate watermark l)
  | .serviceReady candidate service watermark =>
    okEvent (fun _ => .ready service watermark) (serviceReady candidate service watermark l)
  | .commit persist =>
    match l.published with
    | some record => .observed (persist record)
    | none => .quiet
  | .commitLost => if l.published.isSome then .observed .unknown else .quiet
  | .resolveCommit outcome =>
    if ¬ l.recoveryRequired ∧ l.slots.phase = .commitUncertain then .observed outcome else .quiet
  | _ => .quiet

/-- The source goes on under a new transport epoch. -/
def resumed (l : Live) : Live :=
  { l with
    writer := { l.writer with frozen := false }
    transportEpoch := l.transportEpoch + 1
    recoveryRequired := false
    candidate := 0
    copiedThrough := none
    readyServices := 0 }

end Live

theorem Writer.drained_eq_true {w : Writer} :
    w.drained = true ↔ w.pending = none ∧ w.uncertain = false := by
  simp [Writer.drained]

/-- A write is no longer pending. -/
def Writer.settled (w : Writer) (committed : Bool) : Writer :=
  { w with
    watermark := if committed then w.watermark + 1 else w.watermark
    pending := none
    uncertain := false }

namespace Live

/-- Everything that one call can do. -/
inductive LiveChange (l : Live) : Event → Live → Prop
  | same : LiveChange l .quiet l
  | start {slots : TeeSlotState} {candidate : UInt64} (hrecovery : l.recoveryRequired = false)
      (hvacant : l.slots.phase.standing = .vacant)
      (hslots : slots.Coherent) (hphase : slots.phase = .verifying)
      (hcandidate : candidate ≠ 0 ∧ candidate ≠ l.writer.owner)
      (hepoch : l.writer.epoch.toNat + 1 < 2 ^ 64)
      (htransport : l.transportEpoch.toNat + 2 < 2 ^ 64) :
      LiveChange l (.began candidate)
        { l with slots, candidate, readyServices := 0, copiedThrough := none }
  | write {next : UInt64} (hrecovery : l.recoveryRequired = false)
      (hopen : l.writer.frozen = false ∧ l.writer.pending = none ∧ l.writer.uncertain = false)
      (hwatermark : l.writer.watermark.toNat + 1 < 2 ^ 64) :
      LiveChange l (.wrote ⟨l.writer.epoch, l.writer.next⟩)
        { l with writer :=
          { l.writer with pending := some ⟨l.writer.epoch, l.writer.next⟩, next } }
  | finish {ticket : Ticket} {committed : Bool} (hpending : l.writer.pending = some ticket)
      (hsure : l.writer.uncertain = false) :
      LiveChange l (.settled ticket committed) { l with writer := l.writer.settled committed }
  | resolveHeld {ticket : Ticket} {committed : Bool} (hpending : l.writer.pending = some ticket)
      (hrecovery : l.recoveryRequired = false) (hheld : holds l.slots.phase = true) :
      LiveChange l (.settled ticket committed) { l with writer := l.writer.settled committed }
  | resolve {ticket : Ticket} {committed : Bool} (hpending : l.writer.pending = some ticket)
      (hrecovery : l.recoveryRequired = false) (hheld : holds l.slots.phase = false) :
      LiveChange l (.settled ticket committed)
        { l with writer := { l.writer.settled committed with frozen := false } }
  | recover {ticket : Ticket} {committed : Bool} (hpending : l.writer.pending = some ticket)
      (hrecovery : l.recoveryRequired = true) (hphase : l.slots.phase = .rolledBack) :
      LiveChange l (.settled ticket committed)
        { l with writer := l.writer.settled committed }.resumed
  | doubt (hpending : l.writer.pending.isSome = true) :
      LiveChange l .doubted
        { l with writer := { l.writer with uncertain := true, frozen := true } }
  | copy {watermark : UInt64} (hphase : imports l.slots.phase = true)
      (hle : watermark ≤ l.writer.watermark)
      (hold : ∀ old, l.copiedThrough = some old → old ≤ watermark) :
      LiveChange l (.imported watermark)
        { l with
          readyServices := if l.copiedThrough ≠ some watermark then 0 else l.readyServices
          copiedThrough := some watermark }
  | ready {service watermark : UInt64} (hphase : imports l.slots.phase = true)
      (hservice : isPowerOfTwo service = true) (hcopied : l.copiedThrough = some watermark) :
      LiveChange l (.ready service watermark)
        { l with readyServices := l.readyServices ||| service }
  | advance {slots : TeeSlotState} (hslots : slots.Coherent)
      (hphase : slots.phase = l.slots.phase ∨
        l.slots.phase = .verifying ∧ slots.phase = .prepared) :
      LiveChange l .quiet { l with slots }
  | quiesce {slots : TeeSlotState} (hslots : slots.Coherent)
      (hphase : l.slots.phase = .prepared ∧ slots.phase = .liveSwitch) :
      LiveChange l .quiet
        { l with slots, writer := { l.writer with frozen := true }, readyServices := 0 }
  | switch {slots : TeeSlotState} (hslots : slots.Coherent)
      (hphase : l.slots.phase = .liveSwitch ∧ slots.phase = .healthWindow)
      (hcaught : l.caughtUp = true) :
      LiveChange l .quiet
        { l with slots, transportEpoch := l.transportEpoch + 1, readyServices := 0 }
  | healthy {slots : TeeSlotState} (hslots : slots.Coherent)
      (hphase : l.slots.phase = .healthWindow ∧ slots.phase = .commitPending)
      (hcaught : l.caughtUp = true) : LiveChange l .quiet { l with slots }
  | rollback {e : Event} {slots : TeeSlotState} (hslots : slots.Coherent)
      (hphase : slots.phase = .rolledBack) (hpending : l.slots.phase.standing ≠ .vacant)
      (he : e = .quiet ∧ l.slots.phase ≠ .commitUncertain ∨ e = .observed .notCommitted)
      (hsure : l.writer.uncertain = false) : LiveChange l e { l with slots }.resumed
  | strand {slots : TeeSlotState} (hslots : slots.Coherent) (hphase : slots.phase = .rolledBack)
      (hpending : l.slots.phase.standing ≠ .vacant) (hdoubt : l.writer.uncertain = true) :
      LiveChange l .quiet { l with slots, recoveryRequired := true }
  | doubtCommit {slots : TeeSlotState} (hslots : slots.Coherent)
      (hphase : slots.phase = .commitUncertain)
      (hpending : l.slots.phase = .commitPending ∨ l.slots.phase = .commitUncertain) :
      LiveChange l (.observed .unknown) { l with slots }
  | handover {slots : TeeSlotState} (hslots : slots.Coherent) (hphase : slots.phase = .completed)
      (hpending : l.slots.phase = .commitPending ∨ l.slots.phase = .commitUncertain) :
      LiveChange l (.observed .committed)
        { l with
          slots
          writer :=
            { l.writer with
              owner := l.candidate
              epoch := l.writer.epoch + 1
              frozen := false } }

/-! ### What each phase says -/

/-- The writer, the candidate and its reports are those that the phase calls for. -/
structure Sound (l : Live) : Prop where
  slots : l.slots.Coherent
  phase : l.slots.phase ≠ .staged ∧ l.slots.phase ≠ .rebootPending
  ticket : ∀ ticket, l.writer.pending = some ticket →
    ticket.epoch = l.writer.epoch ∧ l.writer.watermark.toNat + 1 < 2 ^ 64
  uncertain : l.writer.uncertain = true → l.writer.frozen = true ∧ l.writer.pending.isSome = true
  frozen : holds l.slots.phase = true → l.writer.frozen = true
  candidate : l.slots.phase.standing ≠ .vacant →
    l.candidate ≠ 0 ∧ l.candidate ≠ l.writer.owner ∧ l.writer.epoch.toNat + 1 < 2 ^ 64
  transport : l.slots.phase.standing ≠ .vacant →
    l.transportEpoch.toNat + (if l.slots.phase.standing = .switched then 1 else 2) < 2 ^ 64
  caught : l.slots.phase.standing = .switched →
    l.writer.drained = true ∧ l.copiedThrough = some l.writer.watermark
  ready : l.slots.phase = .commitPending ∨ l.slots.phase = .commitUncertain →
    l.readyServices = l.requiredServices
  recovery : l.recoveryRequired = true → l.slots.phase = .rolledBack ∧
    l.writer.uncertain = true ∧ l.transportEpoch.toNat + 1 < 2 ^ 64

variable {l t : Live}
  {phase : TeeUpdatePhase} {E : LiveError → Live → Prop} {Q : Unit → Live → Prop}
  {x : SlotM Unit} {ticket : Ticket} {e : Event}

theorem switched_of_pending (h : phase = .commitPending ∨ phase = .commitUncertain) :
    phase.standing = .switched := by
  rcases h with rfl | rfl <;> rfl

theorem Sound.transport_one (h : Sound l) (hs : l.slots.phase.standing ≠ .vacant) :
    l.transportEpoch.toNat + 1 < 2 ^ 64 := by
  have := h.transport hs
  split at this <;> omega

/-! ### Calls -/

/-- The source resumes, or is held up by a write in doubt. -/
theorem wp_resumeSource (htransport : l.transportEpoch.toNat + 1 < 2 ^ 64)
    (hQ : l.writer.uncertain = false → Q () l.resumed)
    (hE : l.writer.uncertain = true → E .recoveryRequired { l with recoveryRequired := true }) :
    wp resumeSource Q E l := by
  have hnext : l.transportEpoch.checkedAdd 1 = some (l.transportEpoch + 1) :=
    UInt64.checkedAdd_of_lt htransport
  simp only [resumeSource, tryWriter, Writer.resume, hnext, wp_bind, wp_get, wp_some?, wp_zoom,
    wp_attempt, wp_check, wp_modify, wp_fail]
  refine ⟨fun next heq => ⟨fun hsure => ?_, fun hdoubt => ?_⟩, fun heq => by cases heq⟩
  · obtain rfl := Option.some.inj heq
    exact hQ (Bool.not_eq_true _ ▸ hsure)
  · exact hE (not_not.mp hdoubt)

/-- A call of the slots with a deadline, which resumes the source when it is missed. -/
theorem wp_timedCall (h : Sound l) {T : TeeSlotState → Prop}
    (hx : wp x (fun _ => T) (TeeSlotState.Missed l.slots) l.slots)
    (hcoherent : ends x TeeSlotState.Coherent l.slots)
    (hQ : ∀ slots, T slots → slots.Coherent → Q () { l with slots })
    (hE : ∀ e t, LiveChange l .quiet t → E e t) :
    wp (trySlots x) (fun result => wp (lifecycle result) Q E) E l := by
  simp only [trySlots, wp_zoom, wp_attempt]
  refine wp_mono (wp_and hx hcoherent) (fun _ slots ht => ?_) fun e slots ht => ?_
  · simp only [lifecycle, wp_bind, wp_when]
    refine ⟨(fun heq => by cases heq), fun _ => ?_⟩
    exact (wp_lift_ok _).mpr (hQ slots ht.1 ht.2)
  · obtain ⟨⟨rfl, hphase, hpending, hsure⟩ | ⟨rfl, rfl⟩, hslots⟩ := ht
    · simp only [lifecycle, wp_bind, wp_when]
      refine ⟨fun _ => ?_, fun hne => absurd trivial hne⟩
      refine wp_resumeSource (h.transport_one hpending) (fun hu => ?_) fun hu => ?_
      · refine (wp_lift_error _).mpr (hE _ _ ?_)
        exact .rollback hslots hphase hpending (.inl ⟨rfl, hsure⟩) hu
      · exact hE _ _ (.strand hslots hphase hpending hu)
    · simp only [lifecycle, wp_bind, wp_when]
      refine ⟨(fun heq => by cases heq), fun _ => ?_⟩
      exact (wp_lift_error _).mpr (hE _ _ .same)

/-- The outcome of a commit: a new owner, the source again, or doubt. -/
theorem wp_outcome (h : Sound l) {outcome : CommitOutcome}
    (hpending : l.slots.phase = .commitPending ∨ l.slots.phase = .commitUncertain)
    (hx : wp x (fun _ t => outcome = .committed ∧ t.phase = .completed)
      (fun e t => outcome = .notCommitted ∧ e = .commitFailed ∧ t.phase = .rolledBack ∨
        outcome = .unknown ∧ e = .commitUncertain ∧ t.phase = .commitUncertain) l.slots)
    (hcoherent : ends x TeeSlotState.Coherent
      l.slots) :
    ends (do let result ← trySlots x; completion result) (LiveChange l (.observed outcome)) l := by
  have hswitched := switched_of_pending hpending
  have hvacant : l.slots.phase.standing ≠ .vacant := by rw [hswitched]; decide
  obtain ⟨hdrained, -⟩ := h.caught hswitched
  obtain ⟨hcandidate, howner, hepoch⟩ := h.candidate hvacant
  have hfrozen : l.writer.frozen = true :=
    h.frozen (by rcases hpending with hs | hs <;> rw [hs] <;> rfl)
  have hnext : l.writer.epoch.checkedAdd 1 = some (l.writer.epoch + 1) :=
    UInt64.checkedAdd_of_lt hepoch
  have hsure : l.writer.uncertain = false := (Writer.drained_eq_true.mp hdrained).2
  simp only [trySlots, wp_bind, wp_zoom, wp_attempt]
  refine wp_mono (wp_and hx hcoherent) (fun _ slots ht => ?_) fun e slots ht => ?_
  · obtain ⟨⟨rfl, hphase⟩, hslots⟩ := ht
    simp only [completion, settle, handOver, tryWriter, Writer.transfer, hphase, hnext, wp_bind,
      wp_get, wp_zoom, wp_attempt, wp_check, wp_some?, wp_modify]
    refine ⟨fun _ => ⟨fun _ => ⟨fun epoch hepoch => ?_, (fun heq => by cases heq)⟩,
      fun hne => ?_⟩, fun hne => ?_⟩
    · obtain rfl := Option.some.inj hepoch
      refine (wp_pure _).mpr ((wp_lift_ok _).mpr ?_)
      exact .handover hslots hphase hpending
    · exact absurd ⟨hfrozen, hdrained⟩ hne
    · exact absurd ⟨hcandidate, howner⟩ hne
  · obtain ⟨⟨rfl, rfl, hphase⟩ | ⟨rfl, rfl, hphase⟩, hslots⟩ := ht
    · simp only [completion, settle, hphase, wp_bind, wp_get]
      refine wp_resumeSource (h.transport_one hvacant) (fun hu => ?_) fun hu => ?_
      · exact (wp_lift_error _).mpr (.rollback hslots hphase hvacant (.inr rfl) hu)
      · rw [hsure] at hu
        cases hu
    · simp only [completion, settle, wp_bind, wp_get, wp_pure]
      exact (wp_lift_error _).mpr (.doubtCommit hslots hphase hpending)

/-- A call of the slots that fails out of its phase changes nothing. -/
theorem wp_completion_refused {P : Live → Prop}
    (hx : wp x (fun _ _ => False) (fun e t => e = .invalidTransition ∧ t = l.slots) l.slots)
    (hP : P l) :
    ends (do let result ← trySlots x; completion result) P l := by
  simp only [trySlots, wp_bind, wp_zoom, wp_attempt]
  refine wp_mono hx (fun _ _ ht => ht.elim) ?_
  rintro _ _ ⟨rfl, rfl⟩
  simp only [completion, settle, wp_bind, wp_get, wp_pure]
  exact (wp_lift_error _).mpr hP

theorem published_of_pending {record} (hrecovery : ¬ l.recoveryRequired = true)
    (hs : l.slots.phase = .commitPending) (hrecord : l.pendingCommit = .ok record) :
    l.published = some record := by
  rw [published, if_neg fun h => h.elim hrecovery fun hne => hne hs, hrecord]
  rfl

theorem published_of_phase_ne (hs : l.slots.phase ≠ .commitPending) : l.published = none := by
  rw [published, if_pos (.inr hs)]

theorem published_of_error {e} (he : l.pendingCommit = .error e) : l.published = none := by
  unfold published
  split
  · rfl
  · rw [he]
    rfl

theorem published_of_recovery (hrecovery : l.recoveryRequired = true) : l.published = none := by
  rw [published, if_pos (.inl hrecovery)]

theorem slots_pendingCommit {record} (h : l.pendingCommit = .ok record) :
    l.slots.pendingCommit = .ok record.image := by
  unfold pendingCommit at h
  split at h
  · split at h
    · rename_i himage _
      obtain rfl := Except.ok.inj h
      exact himage
    · cases h
    · cases h
  · cases h

theorem wp_commitLost (h : Sound l) : ends commitLost (LiveChange l (l.event .commitLost)) l := by
  unfold ends commitLost
  rw [wp_bind, wp_get, wp_bind, wp_check]
  refine ⟨fun hrecovery => ?_, fun hrecovery => ?_⟩
  · rw [wp_bind, wp_lift]
    refine ⟨fun record hrecord => ?_, fun e he => ?_⟩
    · simp only [onSlots, wp_mapErr, wp_zoom]
      have hcoherent := TeeSlotState.coherent_exec h.slots .commitLost
      by_cases hs : l.slots.phase = .commitPending
      · simp only [event, published_of_pending hrecovery hs hrecord]
        refine wp_mono (wp_and ?_ hcoherent)
          (fun _ slots (ht : slots.phase = .commitUncertain ∧ _) => .doubtCommit ht.2 ht.1 (.inl hs))
          fun _ slots (ht : slots.phase = .commitUncertain ∧ _) => .doubtCommit ht.2 ht.1 (.inl hs)
        unfold TeeSlotState.commitLost
        rw [wp_bind]
        refine TeeSlotState.wp_publishCommit (fun image _ _ => (wp_pure _).mpr rfl) fun e he => ?_
        rw [TeeSlotState.published, if_pos hs, slots_pendingCommit hrecord] at he
        cases he
      · simp only [event, published_of_phase_ne hs]
        unfold TeeSlotState.commitLost TeeSlotState.publishCommit
        rw [wp_bind, wp_bind]
        exact TeeSlotState.wp_requirePhase (fun hphase => absurd hphase hs) .same
    · simp only [event, published_of_error he]
      exact .same
  · simp only [event, published_of_recovery (not_not.mp hrecovery)]
    exact .same

theorem wp_commit (h : Sound l) (persist : Commit → CommitOutcome) :
    ends (commit persist) (LiveChange l (l.event (.commit persist))) l := by
  unfold ends commit
  rw [wp_bind, wp_get, wp_bind, wp_check]
  refine ⟨fun hrecovery => ?_, fun hrecovery => ?_⟩
  · rw [wp_bind, wp_lift]
    refine ⟨fun record hrecord => ?_, fun e he => ?_⟩
    · by_cases hs : l.slots.phase = .commitPending
      · simp only [event, published_of_pending hrecovery hs hrecord]
        refine wp_outcome h (.inl hs) ?_ (TeeSlotState.coherent_exec h.slots (.commitDurably _))
        unfold TeeSlotState.commitDurably
        rw [wp_bind]
        refine TeeSlotState.wp_publishCommit (fun image _ _ => ?_) fun e he => ?_
        · exact TeeSlotState.wp_finishCommit_phase h.slots (by rw [hs]; rfl) rfl _
        · rw [TeeSlotState.published, if_pos hs, slots_pendingCommit hrecord] at he
          cases he
      · simp only [event, published_of_phase_ne hs]
        refine wp_completion_refused ?_ .same
        unfold TeeSlotState.commitDurably TeeSlotState.publishCommit
        rw [wp_bind, wp_bind]
        exact TeeSlotState.wp_requirePhase (fun hphase => absurd hphase hs) ⟨rfl, rfl⟩
    · simp only [event, published_of_error he]
      exact .same
  · simp only [event, published_of_recovery (not_not.mp hrecovery)]
    exact .same

theorem wp_resolveCommit (h : Sound l) (outcome) :
    ends (resolveCommit outcome) (LiveChange l (l.event (.resolveCommit outcome))) l := by
  unfold ends resolveCommit
  rw [wp_bind, wp_get, wp_bind, wp_check]
  refine ⟨fun hrecovery => ?_, fun hrecovery => ?_⟩
  · by_cases hs : l.slots.phase = .commitUncertain
    · rw [event, if_pos ⟨hrecovery, hs⟩]
      refine wp_outcome h (.inr hs) ?_ (TeeSlotState.coherent_exec h.slots (.resolveCommit outcome))
      simp only [TeeSlotState.resolveCommit, TeeSlotState.requirePhase, wp_bind, wp_get, wp_check]
      refine ⟨fun _ => ?_, fun hne => absurd hs hne⟩
      refine TeeSlotState.wp_finishCommit_phase h.slots (by rw [hs]; rfl) ?_ outcome
      rw [TeeSlotState.setPhase, ← hs]
    · rw [event, if_neg fun hboth => hs hboth.2]
      refine wp_completion_refused ?_ .same
      unfold TeeSlotState.resolveCommit
      rw [wp_bind]
      exact TeeSlotState.wp_requirePhase (fun hphase => absurd hphase hs) ⟨rfl, rfl⟩
  · rw [event, if_neg fun hboth => hrecovery hboth.1]
    exact .same

theorem lt_of_checkedAdd {a b c : UInt64} (h : a.checkedAdd b = some c) :
    a.toNat + b.toNat < 2 ^ 64 := UInt64.checkedAdd_eq_some.mp h ▸ c.toNat_lt

theorem wp_beginReported (h : Sound l) (report now) :
    wp (beginReported report now) (fun _ => LiveChange l (.began report.owner))
      (fun _ => LiveChange l .quiet) l := by
  simp only [beginReported, onSlots, wp_bind, wp_get, wp_check, wp_some?, wp_mapErr, wp_zoom,
    LiveChange.same, implies_true, and_true]
  intro hrecovery hopen hreport transport htransport epoch hepoch hgeneration
  rw [not_or, not_or] at hreport
  refine (wp_bind _ _).mp (wp_mono (TeeSlotState.wp_stage_prepare h.slots hgeneration
    report.digest now) ?_ ?_)
  · rintro _ slots ⟨hslots, hphase, hvacant⟩
    exact (wp_modify _).mpr (.start (Bool.not_eq_true _ ▸ hrecovery) hvacant hslots hphase
      ⟨hreport.1, hreport.2.1⟩ (lt_of_checkedAdd hepoch) (lt_of_checkedAdd htransport))
  · rintro _ _ rfl
    exact .same

theorem wp_beginWrite (owner epoch) : wp (beginWrite owner epoch)
      (fun ticket t => owner = l.writer.owner ∧ epoch = l.writer.epoch ∧
        LiveChange l (.wrote ticket) t)
      (fun _ t => t = l) l := by
  simp only [beginWrite, onWriter, Writer.begin, wp_bind, wp_get, wp_check, wp_some?, wp_mapErr,
    wp_zoom, wp_modify, wp_pure, implies_true, and_true]
  intro hrecovery hcaller hsure hopen next hnext watermark hwatermark
  obtain ⟨rfl, rfl⟩ := hcaller
  rw [not_or] at hopen
  refine ⟨rfl, rfl, .write (Bool.not_eq_true _ ▸ hrecovery) ⟨Bool.not_eq_true _ ▸ hopen.1, ?_,
    Bool.not_eq_true _ ▸ hsure⟩ ?_⟩
  · cases hp : l.writer.pending with
    | none => rfl
    | some _ => exact absurd (by rw [hp]; rfl) hopen.2
  · exact lt_of_checkedAdd hwatermark

/-- The end of a write, or a doubt about it. -/
theorem wp_apply (h : Sound l) (hpending : l.writer.pending = some ticket) {outcome}
    {Q : Unit → Writer → Prop} {E : WriterError → Writer → Prop}
    (hQ : Q () (l.writer.settled (outcome = .committed)))
    (hE : E .uncertain { l.writer with uncertain := true, frozen := true }) :
    wp (Writer.apply outcome) Q E l.writer := by
  have hwatermark : l.writer.watermark.checkedAdd 1 = some (l.writer.watermark + 1) :=
    UInt64.checkedAdd_of_lt (h.ticket ticket hpending).2
  cases outcome with
  | committed =>
    simp only [Writer.apply, hwatermark, wp_bind, wp_get, wp_some?, wp_modify]
    refine ⟨fun watermark heq => ?_, fun heq => by cases heq⟩
    obtain rfl := Option.some.inj heq
    exact hQ
  | notCommitted => exact (wp_modify _).mpr hQ
  | unknown =>
    simp only [Writer.apply, wp_bind, wp_modify, wp_fail]
    exact hE

theorem Sound.doubt_eq (h : Sound l) (hdoubt : l.writer.uncertain = true) :
    { l with writer := { l.writer with uncertain := true, frozen := true } } = l := by
  have hwriter : ∀ w : Writer, w.uncertain = true → w.frozen = true →
      { w with uncertain := true, frozen := true } = w := by
    rintro ⟨⟩ rfl rfl
    rfl
  rw [hwriter l.writer hdoubt (h.uncertain hdoubt).1]

theorem wp_finishWrite (h : Sound l) (ticket outcome) :
    wp (finishWrite ticket outcome)
      (fun _ => LiveChange l (.settled ticket (outcome = .committed)))
      (fun e => LiveChange l (if e = .storage .uncertain then .doubted else .quiet)) l := by
  simp only [finishWrite, onWriter, Writer.finish, wp_bind, wp_get, wp_check, wp_mapErr, wp_zoom]
  refine ⟨fun hpending => ⟨fun hsure => ?_, fun hdoubt => ?_⟩, fun _ => .same⟩
  · refine wp_apply h hpending (.finish hpending (Bool.not_eq_true _ ▸ hsure)) ?_
    exact .doubt (by rw [hpending]; rfl)
  · -- the outcome is in doubt already
    have hchange : LiveChange l .doubted _ := .doubt (by rw [hpending]; rfl)
    rw [h.doubt_eq (not_not.mp hdoubt)] at hchange
    exact hchange

theorem wp_resolveWrite (h : Sound l) (ticket outcome) :
    wp (resolveWrite ticket outcome)
      (fun _ => LiveChange l (.settled ticket (outcome = .committed)))
      (fun e => LiveChange l (if e = .storage .uncertain then .doubted else .quiet)) l := by
  simp only [resolveWrite, onWriter, Writer.resolve, wp_bind, wp_get, wp_check, wp_mapErr, wp_zoom]
  refine ⟨fun hpending => ⟨fun hdoubt => ?_, fun _ => .same⟩, fun _ => .same⟩
  refine wp_apply h hpending ?_ (.doubt (by rw [hpending]; rfl))
  rw [wp_ite]
  refine ⟨fun hstranded => ?_, fun hnot => ?_⟩
  · obtain ⟨hrecovery, hphase⟩ := hstranded
    refine wp_resumeSource (h.recovery hrecovery).2.2 (fun _ => ?_) fun hdoubt => by cases hdoubt
    exact .recover hpending hrecovery hphase
  · rw [wp_when]
    have hrecovery : l.recoveryRequired = false := by
      cases hr : l.recoveryRequired with
      | false => rfl
      | true => exact absurd ⟨hr, (h.recovery hr).1⟩ hnot
    refine ⟨fun hopen => ?_, fun hheld => ?_⟩
    · simp only [Writer.resume, Writer.settled, wp_bind, wp_get, wp_check, wp_mapErr, wp_zoom,
        wp_modify]
      refine ⟨fun _ => ?_, fun hne => absurd Bool.false_ne_true hne⟩
      exact .resolve hpending hrecovery (Bool.not_eq_true _ ▸ hopen.2)
    · refine .resolveHeld hpending hrecovery ?_
      by_contra hnone
      exact hheld ⟨by rw [hrecovery]; decide, hnone⟩

theorem wp_imported (candidate watermark) :
    wp (imported candidate watermark) (fun _ => LiveChange l (.imported watermark))
      (fun _ => LiveChange l .quiet) l := by
  simp only [imported, wp_bind, wp_get, wp_check, wp_modify]
  refine ⟨fun hrecovery => ⟨fun hok => ?_, fun _ => .same⟩, fun _ => .same⟩
  simp only [not_or, not_not] at hok
  obtain ⟨-, hphase, hle, hold⟩ := hok
  refine .copy hphase (UInt64.not_lt.mp hle) fun old hcopied => ?_
  rw [hcopied, Option.any_some, decide_eq_true_eq] at hold
  exact UInt64.not_lt.mp hold

theorem wp_serviceReady (candidate service watermark) :
    wp (serviceReady candidate service watermark)
      (fun _ => LiveChange l (.ready service watermark)) (fun _ => LiveChange l .quiet) l := by
  simp only [serviceReady, wp_bind, wp_get, wp_check, wp_modify]
  refine ⟨fun hrecovery => ⟨fun hok => ?_, fun _ => .same⟩, fun _ => .same⟩
  simp only [not_or, not_not] at hok
  obtain ⟨-, hservice, -, hcopied, hphase⟩ := hok
  exact .ready hphase hservice hcopied

theorem wp_abort (h : Sound l) : ends abort (LiveChange l .quiet) l := by
  simp only [abort, onSlots, wp_bind, wp_get, wp_check, wp_mapErr, wp_zoom]
  refine ⟨fun _ => ?_, fun _ => .same⟩
  refine TeeSlotState.wp_rollback h.slots (fun slot hs hvacant hslot => ?_) fun _ => .same
  have hslots : (l.slots.restored slot .rolledBack).Coherent :=
    TeeSlotState.coherent_of_vacant rfl rfl
  exact wp_resumeSource (h.transport_one hvacant)
    (fun hu => .rollback hslots rfl hvacant (.inl ⟨rfl, hs⟩) hu)
    fun hu => .strand hslots rfl hvacant hu

/-- **Every call is one of the changes.** -/
theorem wp_exec (h : Sound l) (op) : ends (exec op) (LiveChange l (l.event op)) l := by
  cases op with
  | beginReported report now =>
    exact wp_told (P := LiveChange l) (okEvent _) (wp_beginReported h report now)
  | begin candidate generation digest now =>
    refine wp_told (x := begin candidate generation digest now) (P := LiveChange l)
      (okEvent fun _ => .began candidate) ?_
    unfold begin
    rw [wp_bind, wp_get]
    exact wp_beginReported h ⟨candidate, generation, l.migrationAbi, digest⟩ now
  | beginWrite owner epoch =>
    unfold ends exec
    rw [wp_bind_pure]
    refine wp_told (P := LiveChange l) (okEvent _)
      (wp_mono (wp_beginWrite owner epoch) (fun _ _ ht => ht.2.2) ?_)
    rintro _ _ rfl
    exact .same
  | finishWrite ticket outcome =>
    exact wp_told (P := LiveChange l) (writeEvent _ _) (wp_finishWrite h ticket outcome)
  | resolveWrite ticket outcome =>
    exact wp_told (P := LiveChange l) (writeEvent _ _) (wp_resolveWrite h ticket outcome)
  | imported candidate watermark =>
    exact wp_told (P := LiveChange l) (okEvent _) (wp_imported candidate watermark)
  | serviceReady candidate service watermark =>
    exact wp_told (P := LiveChange l) (okEvent _) (wp_serviceReady candidate service watermark)
  -- the calls with a deadline resume the source when it is missed
  | prepared now =>
    unfold ends exec prepared
    rw [wp_bind, wp_get, wp_bind, wp_check]
    refine ⟨fun _ => ?_, fun _ => .same⟩
    rw [wp_bind]
    exact wp_timedCall h (TeeSlotState.wp_candidateReady h.slots now)
      (TeeSlotState.coherent_exec h.slots (.candidateReady now))
      (fun slots ht hslots => .advance hslots (.inr ht)) fun _ _ ht => ht
  | quiesce now =>
    show wp (quiesce now) _ _ l
    unfold quiesce
    rw [wp_bind]
    refine wp_mono (wp_timedCall h (TeeSlotState.wp_quiesce h.slots now)
      (TeeSlotState.coherent_exec h.slots (.quiesce now)) (fun slots ht hslots => ?_)
      fun _ _ ht => ht) fun _ _ ht => (wp_bind _ _).mpr ht
    simp only [onWriter, Writer.freeze, wp_bind, wp_mapErr, wp_zoom, wp_modify]
    exact .quiesce hslots ht
  | switch now =>
    unfold ends exec switch
    rw [wp_bind, wp_get, wp_bind, wp_check]
    refine ⟨fun hcaught => ?_, fun _ => .same⟩
    rw [wp_bind, wp_lift]
    refine ⟨fun record _ => ?_, fun _ _ => .same⟩
    rw [wp_bind]
    refine wp_mono (wp_timedCall h (TeeSlotState.wp_liveSwitch h.slots record.generation now)
      (TeeSlotState.coherent_exec h.slots (.liveSwitch record.generation now))
      (fun slots ht hslots => ?_) fun _ _ ht => ht) fun _ _ ht => (wp_bind _ _).mpr ht
    exact (wp_modify _).mpr (.switch hslots ht hcaught.2)
  | healthy now =>
    unfold ends exec healthy
    rw [wp_bind, wp_get, wp_bind, wp_check]
    refine ⟨fun hcaught => ?_, fun _ => .same⟩
    rw [wp_bind]
    exact wp_timedCall h (TeeSlotState.wp_confirmHealth h.slots now)
      (TeeSlotState.coherent_exec h.slots (.confirmHealth now))
      (fun slots ht hslots => .healthy hslots ht hcaught) fun _ _ ht => ht
  -- the three ways in which the record of a commit is made, lost and found again
  | commit persist => exact wp_commit h persist
  | commitLost => exact wp_commitLost h
  | resolveCommit outcome => exact wp_resolveCommit h outcome
  | poll now =>
    unfold ends exec poll
    rw [wp_bind, wp_get, wp_bind, wp_check]
    refine ⟨fun _ => ?_, fun _ => .same⟩
    rw [wp_bind]
    exact wp_timedCall h (TeeSlotState.wp_pollDeadline h.slots now)
      (TeeSlotState.coherent_exec h.slots (.pollDeadline now))
      (fun slots ht hslots => .advance hslots (.inl ht)) fun _ _ ht => ht
  | abort => exact wp_abort h

/-! ### The phases are kept -/

/-- With no candidate pending, only the writer matters. -/
theorem sound_of_vacant (hslots : t.slots.Coherent) (hphase : t.slots.phase.standing = .vacant)
    (hticket : ∀ ticket, t.writer.pending = some ticket →
      ticket.epoch = t.writer.epoch ∧ t.writer.watermark.toNat + 1 < 2 ^ 64)
    (huncertain : t.writer.uncertain = true →
      t.writer.frozen = true ∧ t.writer.pending.isSome = true)
    (hrecovery : t.recoveryRequired = true → t.slots.phase = .rolledBack ∧
      t.writer.uncertain = true ∧ t.transportEpoch.toNat + 1 < 2 ^ 64) : Sound t := by
  have hother : ∀ phase : TeeUpdatePhase, phase.standing ≠ .vacant → t.slots.phase ≠ phase :=
    fun phase hs heq => hs (heq ▸ hphase)
  refine ⟨hslots, ⟨hother _ nofun, hother _ nofun⟩, hticket, huncertain, fun hheld => ?_,
    fun hs => absurd hphase hs, fun hs => absurd hphase hs, fun hs => ?_, ?_, hrecovery⟩
  · simp only [holds, Bool.or_eq_true, decide_eq_true_eq] at hheld
    rcases hheld with ((hs | hs) | hs) | hs <;> exact absurd hs (hother _ nofun)
  · rw [hphase] at hs
    cases hs
  · rintro (hs | hs) <;> exact absurd hs (hother _ nofun)

/-- With the candidate active, everything that was required of it stays required. -/
theorem Sound.pending_eq_none (h : Sound l) (hs : l.slots.phase.standing = .switched) :
    l.writer.pending = none ∧ l.writer.uncertain = false :=
  Writer.drained_eq_true.mp (h.caught hs).1

theorem Sound.frozen_of_switched (h : Sound l) (hs : l.slots.phase.standing = .switched) :
    l.writer.frozen = true := by
  refine h.frozen ?_
  revert hs
  cases l.slots.phase <;> simp [TeeUpdatePhase.standing, holds]

theorem Sound.not_switched (h : Sound l) (hpending : l.writer.pending = some ticket) :
    l.slots.phase.standing ≠ .switched := fun hs => by
  rw [(h.pending_eq_none hs).1] at hpending
  cases hpending

/-- The end of a write keeps all that does not concern the writer. -/
theorem Sound.settle (h : Sound l) {committed frozen} (hpending : l.writer.pending = some ticket)
    (hrecovery : l.recoveryRequired = false)
    (hfrozen : holds l.slots.phase = true → frozen = true) :
    Sound { l with writer := { l.writer.settled committed with frozen } } :=
  { h with
    ticket := nofun
    uncertain := nofun
    frozen := hfrozen
    caught := fun hs => absurd hs (h.not_switched hpending)
    recovery := fun hr => absurd (hrecovery.symm.trans hr) nofun }

/-- The slots move on within the phases before the switch. -/
theorem Sound.of_phase (h : Sound l) {slots} (hslots : slots.Coherent)
    (hphase : slots.phase = l.slots.phase) : Sound { l with slots } := by
  obtain ⟨-, h₂, h₃, h₄, h₅, h₆, h₇, h₈, h₉, h₁₀⟩ := h
  rw [← hphase] at h₂ h₅ h₆ h₇ h₈ h₉ h₁₀
  exact ⟨hslots, h₂, h₃, h₄, h₅, h₆, h₇, h₈, h₉, h₁₀⟩

theorem caughtUp_eq_true : l.caughtUp = true ↔ l.copiedThrough = some l.writer.watermark ∧
    l.readyServices = l.requiredServices ∧ l.writer.drained = true := by
  simp [caughtUp, and_assoc]

theorem phase_eq_of_imports (h : imports phase = true) :
    phase = .verifying ∨ phase = .liveSwitch ∨ phase = .healthWindow := by
  simpa [imports, or_assoc] using h

/-- A recovery is required in one phase only. -/
theorem Sound.recovery_eq_false (h : Sound l) (hs : l.slots.phase.standing ≠ .vacant) :
    l.recoveryRequired = false := by
  cases hr : l.recoveryRequired with
  | false => rfl
  | true => exact absurd (by rw [(h.recovery hr).1]; rfl) hs

/-- The slots move on before the switch. -/
theorem Sound.trial (h : Sound l) {slots frozen ready} (hs : l.slots.phase.standing = .trial)
    (hslots : slots.Coherent) (hstanding : slots.phase.standing = .trial)
    (hphase : slots.phase ≠ .staged ∧ slots.phase ≠ .rebootPending)
    (hdoubt : l.writer.uncertain = true → frozen = true)
    (hfrozen : holds slots.phase = true → frozen = true) :
    Sound { l with slots, writer := { l.writer with frozen }, readyServices := ready } := by
  have hvacant : l.slots.phase.standing ≠ .vacant := by rw [hs]; nofun
  have htransport := h.transport hvacant
  rw [if_neg (by rw [hs]; nofun)] at htransport
  refine ⟨hslots, hphase, h.ticket, fun hu => ⟨hdoubt hu, (h.uncertain hu).2⟩, hfrozen,
    fun _ => h.candidate hvacant, fun _ => ?_, fun hswitched => ?_, fun hcommit => ?_, fun hr => ?_⟩
  · rw [if_neg (by rw [hstanding]; nofun)]
    exact htransport
  · rw [hstanding] at hswitched
    cases hswitched
  · rcases hcommit with hp | hp <;> rw [hp] at hstanding <;> cases hstanding
  · rw [h.recovery_eq_false hvacant] at hr
    cases hr

/-- The slots move on after the switch. -/
theorem Sound.switched (h : Sound l) {slots} (hs : l.slots.phase.standing = .switched)
    (hslots : slots.Coherent) (hstanding : slots.phase.standing = .switched)
    (hready : l.readyServices = l.requiredServices) : Sound { l with slots } := by
  have hvacant : l.slots.phase.standing ≠ .vacant := by rw [hs]; nofun
  have htransport := h.transport hvacant
  rw [if_pos hs] at htransport
  refine ⟨hslots, ⟨fun hp => ?_, fun hp => ?_⟩, h.ticket, h.uncertain,
    fun _ => h.frozen_of_switched hs, fun _ => h.candidate hvacant, fun _ => ?_,
    fun _ => h.caught hs, fun _ => hready, fun hr => ?_⟩
  · rw [hp] at hstanding
    cases hstanding
  · rw [hp] at hstanding
    cases hstanding
  · rw [if_pos hstanding]
    exact htransport
  · rw [h.recovery_eq_false hvacant] at hr
    cases hr

/-- Every change keeps the phases as they are required to be. -/
theorem LiveChange.sound (hchange : LiveChange l e t) (h : Sound l) : Sound t := by
  cases hchange with
  | same => exact h
  -- a candidate at the epoch of the writer; nothing is frozen, caught up or ready yet
  | start hrecovery hvacant hslots hphase hcandidate hepoch htransport =>
    refine ⟨hslots, by rw [hphase]; decide, h.ticket, h.uncertain, ?_,
      fun _ => ⟨hcandidate.1, hcandidate.2, hepoch⟩, fun _ => ?_, ?_, ?_, ?_⟩ <;>
      simp only [hphase]
    · nofun
    · exact htransport
    · nofun
    · nofun
    · rw [hrecovery]
      nofun
  -- the writer is open, so it is neither frozen nor switched over
  | write hrecovery hopen hwatermark =>
    refine
      { h with
        ticket := fun ticket hticket => ?_
        uncertain := fun hu => absurd (hopen.2.2.symm.trans hu) nofun
        caught := fun hs => absurd (hopen.1.symm.trans (h.frozen_of_switched hs)) nofun
        recovery := fun hr => absurd (hrecovery.symm.trans hr) nofun }
    obtain rfl := Option.some.inj hticket
    exact ⟨rfl, hwatermark⟩
  -- a write whose outcome is known; recovery waits only for one in doubt
  | finish hpending hsure =>
    cases hr : l.recoveryRequired with
    | true =>
      have hdoubt := (h.recovery hr).2.1
      rw [hsure] at hdoubt
      cases hdoubt
    | false => exact hr ▸ h.settle hpending hr h.frozen
  | resolveHeld hpending hrecovery hheld => exact h.settle hpending hrecovery h.frozen
  | resolve hpending hrecovery hheld =>
    refine h.settle hpending hrecovery fun hs => ?_
    rw [hheld] at hs
    cases hs
  | recover hpending hrecovery hphase =>
    exact sound_of_vacant h.slots ((congrArg _ hphase).trans rfl) nofun nofun nofun
  -- the writer freezes; no ticket is pending once the switch is made
  | doubt hpending =>
    refine
      { h with
        uncertain := fun _ => ⟨rfl, hpending⟩
        frozen := fun _ => rfl
        caught := fun hs => ?_
        recovery := fun hr => ⟨(h.recovery hr).1, rfl, (h.recovery hr).2.2⟩ }
    rw [(h.pending_eq_none hs).1] at hpending
    cases hpending
  -- the watermark of the copies only grows, and no phase that imports is past the switch
  | copy hphase hle hold =>
    refine { h with caught := fun hs => ?_, ready := fun hs => ?_ }
    · obtain ⟨hdrained, hcopied⟩ := h.caught hs
      exact ⟨hdrained, congrArg some (UInt64.le_antisymm hle (hold _ hcopied))⟩
    · rcases phase_eq_of_imports hphase with hp | hp | hp <;> rw [hp] at hs <;>
        rcases hs with hs | hs <;> cases hs
  | ready hphase hservice hcopied =>
    refine { h with ready := fun hs => ?_ }
    rcases phase_eq_of_imports hphase with hp | hp | hp <;> rw [hp] at hs <;>
      rcases hs with hs | hs <;> cases hs
  | advance hslots hphase =>
    rcases hphase with hphase | ⟨hs, hphase⟩
    · exact h.of_phase hslots hphase
    · exact h.trial (by rw [hs]; rfl) hslots (by rw [hphase]; rfl) (by rw [hphase]; decide)
        (fun hu => (h.uncertain hu).1) (by rw [hphase]; nofun)
  | quiesce hslots hphase =>
    exact h.trial (by rw [hphase.1]; rfl) hslots (by rw [hphase.2]; rfl) (by rw [hphase.2]; decide)
      (fun _ => rfl) fun _ => rfl
  -- the candidate has every write, and the epoch of the transport moves on by one
  | switch hslots hphase hcaught =>
    obtain ⟨hcopied, -, hdrained⟩ := caughtUp_eq_true.mp hcaught
    have hvacant : l.slots.phase.standing ≠ .vacant := by rw [hphase.1]; nofun
    have htransport := h.transport hvacant
    rw [if_neg (by rw [hphase.1]; nofun)] at htransport
    refine ⟨hslots, by rw [hphase.2]; decide, h.ticket, h.uncertain, fun _ => ?_,
      fun _ => h.candidate hvacant, fun _ => ?_, fun _ => ⟨hdrained, hcopied⟩, ?_, fun hr => ?_⟩
    · exact h.frozen (by rw [hphase.1]; rfl)
    · have hnext : (l.transportEpoch + 1).toNat = l.transportEpoch.toNat + 1 :=
        UInt64.toNat_add_of_lt (Nat.lt_of_succ_lt htransport)
      rw [if_pos (by rw [hphase.2]; rfl), hnext]
      exact htransport
    · rw [hphase.2]
      nofun
    · exact absurd ((h.recovery_eq_false hvacant).symm.trans hr) nofun
  | healthy hslots hphase hcaught =>
    obtain ⟨hcopied, hready, hdrained⟩ := caughtUp_eq_true.mp hcaught
    exact (h.switched (by rw [hphase.1]; rfl) hslots (by rw [hphase.2]; rfl)) hready
  -- the source goes on; with a write in doubt it could not, which is `strand`
  | rollback hslots hphase hpending he hsure =>
    refine sound_of_vacant hslots ((congrArg _ hphase).trans rfl) h.ticket (fun hu => ?_) nofun
    exact absurd (hsure.symm.trans hu) nofun
  | strand hslots hphase hpending hdoubt =>
    exact sound_of_vacant hslots ((congrArg _ hphase).trans rfl) h.ticket h.uncertain fun _ =>
      ⟨hphase, hdoubt, h.transport_one hpending⟩
  | doubtCommit hslots hphase hpending =>
    have hs := switched_of_pending hpending
    exact h.switched hs hslots (by rw [hphase]; rfl) (h.ready hpending)
  -- the candidate is the authority now, and the writer has nothing pending
  | handover hslots hphase hpending =>
    have hs := switched_of_pending hpending
    obtain ⟨hnone, hsure⟩ := h.pending_eq_none hs
    have hrecovery := h.recovery_eq_false (by rw [hs]; nofun)
    refine sound_of_vacant hslots ((congrArg _ hphase).trans rfl) (fun ticket hticket => ?_)
      (fun hu => absurd (hsure.symm.trans hu) nofun)
      fun hr => absurd (hrecovery.symm.trans hr) nofun
    exact absurd (hnone.symm.trans hticket) nofun

/-! ### The observer -/

/-- What an observer of the calls' results knows: the policy, the writes begun and not settled,
how many were observed as committed, what is in doubt, and the reports of the candidate. -/
structure Ledger where
  start : UInt64
  required : UInt64
  inFlight : List Ticket
  committedWrites : ℕ
  writeUnknown : Bool
  commitUnknown : Bool
  candidate : UInt64
  imports : List UInt64
  reports : List (UInt64 × UInt64)

namespace Ledger

def new (start required : UInt64) : Ledger := ⟨start, required, [], 0, false, false, 0, [], []⟩

def note (w : Ledger) : Event → Ledger
  | .quiet => w
  | .began candidate => { w with candidate, imports := [], reports := [] }
  | .wrote ticket => { w with inFlight := ticket :: w.inFlight }
  | .settled ticket committed =>
    { w with
      inFlight := w.inFlight.erase ticket
      committedWrites := if committed then w.committedWrites + 1 else w.committedWrites
      writeUnknown := false }
  | .doubted => { w with writeUnknown := true }
  | .imported watermark => { w with imports := watermark :: w.imports }
  | .ready service watermark => { w with reports := (service, watermark) :: w.reports }
  | .observed outcome => { w with commitUnknown := decide (outcome = .unknown) }

end Ledger

/-- States reached from a new replacement, with the ledger of the observer. -/
def Watches (l : Live) (w : Ledger) : Prop :=
  ∃ source generation slot hash watermark transport required start,
    new source generation slot hash watermark transport required = .ok start ∧
    Steps (watch step fun w op l _ => w.note (l.event op)) (fun _ _ => True)
      (start, Ledger.new watermark required) (l, w)

/-- The state is the one that the ledger calls for. -/
structure Records (l : Live) (w : Ledger) : Prop where
  required : l.requiredServices = w.required
  inFlight : w.inFlight = l.writer.pending.toList
  count : l.writer.watermark.toNat = w.start.toNat + w.committedWrites
  writeUnknown : w.writeUnknown = true → l.writer.uncertain = true
  commitUnknown : w.commitUnknown = true → l.slots.phase = .commitUncertain
  candidate : l.slots.phase.standing ≠ .vacant → l.candidate = w.candidate
  imports : ∀ watermark, l.copiedThrough = some watermark → watermark ∈ w.imports
  reports : ∀ service, isPowerOfTwo service = true → service &&& l.readyServices ≠ 0 →
    ∃ watermark, l.copiedThrough = some watermark ∧ (service, watermark) ∈ w.reports

variable {w : Ledger}

theorem eq_of_and_ne_zero {m n} (hm : isPowerOfTwo m = true) (hn : isPowerOfTwo n = true)
    (h : m &&& n ≠ 0) : m = n := by
  obtain ⟨i, rfl⟩ := of_decide_eq_true hm
  obtain ⟨j, rfl⟩ := of_decide_eq_true hn
  have hbits : ∀ i j : Fin 64,
      (1 : UInt64) <<< i.val.toUInt64 &&& 1 <<< j.val.toUInt64 ≠ 0 → i = j := by
    decide +kernel
  rw [hbits i j h]

theorem and_or_distrib (a b c : UInt64) : a &&& (b ||| c) = a &&& b ||| a &&& c := by
  refine UInt64.toBitVec_inj.mp (BitVec.eq_of_getLsbD_eq fun i _ => ?_)
  simp [Bool.and_or_distrib_left]

namespace Records

/-- A write is settled, whether writes stay frozen or not. -/
theorem settle (h : Records l w) (hsound : Sound l) {committed frozen}
    (hpending : l.writer.pending = some ticket) :
    Records { l with writer := { l.writer.settled committed with frozen } }
      (w.note (.settled ticket committed)) := by
  refine { h with inFlight := ?_, count := ?_, writeUnknown := nofun }
  · show w.inFlight.erase ticket = []
    rw [h.inFlight, hpending]
    exact List.erase_cons_head (a := ticket) []
  · have hnext : (l.writer.watermark + 1).toNat = l.writer.watermark.toNat + 1 :=
      UInt64.toNat_add_of_lt (hsound.ticket ticket hpending).2
    have := h.count
    cases committed with
    | false => exact this
    | true =>
      show (l.writer.watermark + 1).toNat = w.start.toNat + (w.committedWrites + 1)
      omega

/-- The source goes on. -/
theorem resumed (h : Records l w) (hphase : l.slots.phase.standing = .vacant) :
    Records l.resumed w :=
  { h with
    candidate := fun hs => absurd hphase hs
    imports := nofun
    reports := fun _ _ hne => absurd UInt64.and_zero hne }

/-- The slots change. -/
theorem slots (h : Records l w) {slots}
    (hcommit : w.commitUnknown = true → slots.phase = .commitUncertain)
    (hstanding : slots.phase.standing ≠ .vacant → l.slots.phase.standing ≠ .vacant) :
    Records { l with slots } w :=
  { h with commitUnknown := hcommit, candidate := fun hs => h.candidate (hstanding hs) }

/-- The services have to report again. -/
theorem unready (h : Records l w) : Records { l with readyServices := 0 } w :=
  { h with reports := fun _ _ hne => absurd UInt64.and_zero hne }

/-- An outcome of the commit was observed. -/
theorem observe (h : Records l w) {outcome}
    (hphase : outcome = .unknown → l.slots.phase = .commitUncertain) :
    Records l (w.note (.observed outcome)) :=
  { h with commitUnknown := fun hu => hphase (of_decide_eq_true hu) }

theorem writeUnknown_eq_false (h : Records l w) (hsure : l.writer.uncertain = false) :
    w.writeUnknown = false := by
  cases hu : w.writeUnknown with
  | false => rfl
  | true => exact absurd (hsure.symm.trans (h.writeUnknown hu)) nofun

/-- Nothing is in doubt in the other phases. -/
theorem not_commitUnknown (h : Records l w) (hs : l.slots.phase ≠ .commitUncertain) {P : Prop}
    (hu : w.commitUnknown = true) : P := absurd (h.commitUnknown hu) hs

end Records

theorem LiveChange.records (hchange : LiveChange l e t) (hsound : Sound l) (h : Records l w) :
    Records t (w.note e) := by
  cases hchange with
  | same => exact h
  -- no report of an earlier candidate counts for this one
  | start hrecovery hvacant hslots hphase hcandidate hepoch htransport =>
    refine
      { h with
        commitUnknown := fun hu => ?_
        candidate := fun _ => rfl
        imports := nofun
        reports := fun _ _ hne => absurd UInt64.and_zero hne }
    rw [h.commitUnknown hu] at hvacant
    cases hvacant
  | write hrecovery hopen hwatermark =>
    refine { h with inFlight := ?_ }
    show _ :: w.inFlight = [_]
    rw [h.inFlight, hopen.2.1]
    rfl
  | finish hpending hsure | resolveHeld hpending hrecovery hheld
  | resolve hpending hrecovery hheld => exact h.settle hsound hpending
  | recover hpending hrecovery hphase =>
    exact (h.settle hsound hpending).resumed ((congrArg _ hphase).trans rfl)
  | doubt hpending =>
    exact { h with writeUnknown := fun _ => rfl }
  | @copy watermark hphase hle hold =>
    refine { h with imports := ?_, reports := fun service hservice hne => ?_ }
    · intro copied hcopied
      rw [Option.some.inj hcopied]
      exact List.mem_cons_self
    · -- reports count for the snapshot they were made for
      by_cases hsame : l.copiedThrough = some watermark
      · rw [if_neg (not_not.mpr hsame)] at hne
        obtain ⟨c, hc, hreport⟩ := h.reports service hservice hne
        obtain rfl := Option.some.inj (hc.symm.trans hsame)
        exact ⟨c, rfl, hreport⟩
      · rw [if_pos hsame] at hne
        exact absurd UInt64.and_zero hne
  | @ready service watermark hphase hservice hcopied =>
    refine { h with reports := fun bit hbit hne => ?_ }
    by_cases hold : bit &&& l.readyServices = 0
    · have hnew : bit &&& service ≠ 0 := fun hzero => hne (by
        show bit &&& (l.readyServices ||| service) = 0
        rw [and_or_distrib, hold, hzero]
        rfl)
      rw [eq_of_and_ne_zero hbit hservice hnew]
      exact ⟨watermark, hcopied, List.mem_cons_self⟩
    · obtain ⟨c, hc, hreport⟩ := h.reports bit hbit hold
      exact ⟨c, hc, List.mem_cons_of_mem _ hreport⟩
  | advance hslots hphase =>
    rcases hphase with hphase | ⟨hs, hphase⟩
    · exact h.slots (fun hu => hphase.trans (h.commitUnknown hu)) fun hs => hphase ▸ hs
    · exact h.slots (h.not_commitUnknown (by rw [hs]; nofun)) fun _ => by rw [hs]; nofun
  | @quiesce slots hslots hphase | @switch slots hslots hphase hcaught =>
    have hnew : Records { l with slots } w :=
      h.slots (h.not_commitUnknown (by rw [hphase.1]; nofun)) fun _ => by rw [hphase.1]; nofun
    exact { hnew.unready with }
  | healthy hslots hphase hcaught =>
    exact h.slots (h.not_commitUnknown (by rw [hphase.1]; nofun)) fun _ => by rw [hphase.1]; nofun
  -- either no commit was tried, or it was observed to have failed
  | rollback hslots hphase hpending he hsure =>
    have hvacant := (congrArg TeeUpdatePhase.standing hphase).trans rfl
    obtain ⟨rfl, hs⟩ | rfl := he
    · exact (h.slots (h.not_commitUnknown hs) fun hne => absurd hvacant hne).resumed hvacant
    · have hobserved : Records l (w.note (.observed .notCommitted)) := h.observe nofun
      exact (hobserved.slots nofun fun hne => absurd hvacant hne).resumed hvacant
  -- a write in doubt rules out that a commit is in doubt as well
  | @strand slots hslots hphase hpending hdoubt =>
    have hvacant := (congrArg TeeUpdatePhase.standing hphase).trans rfl
    have hs : l.slots.phase ≠ .commitUncertain := fun hs => by
      rw [(hsound.pending_eq_none (by rw [hs]; rfl)).2] at hdoubt
      cases hdoubt
    have hnew : Records { l with slots } w :=
      h.slots (h.not_commitUnknown hs) fun hne => absurd hvacant hne
    exact { hnew with }
  | doubtCommit hslots hphase hpending =>
    have hs := switched_of_pending hpending
    exact
      { h with
        commitUnknown := fun _ => hphase
        candidate := fun _ => h.candidate (by rw [hs]; nofun) }
  | handover hslots hphase hpending =>
    have hvacant := (congrArg TeeUpdatePhase.standing hphase).trans rfl
    exact { h with commitUnknown := nofun, candidate := fun hs => absurd hvacant hs }

theorem stale_finishWrite (h : l.writer.pending ≠ some ticket) (outcome) :
    finishWrite ticket outcome l = .err (.storage .stale) l := by
  simp only [finishWrite, onWriter, mapErr, zoom, Writer.finish, Bind.bind, Prog.bind, Prog.get, check,
    if_neg h]

theorem stale_resolveWrite (h : l.writer.pending ≠ some ticket) (outcome) :
    resolveWrite ticket outcome l = .err (.storage .stale) l := by
  simp only [resolveWrite, onWriter, mapErr, zoom, Writer.resolve, Bind.bind, Prog.bind, Prog.get,
    check,
    if_neg h]

/-! ### Every run -/

theorem sound_new {source generation watermark transport required slot hash}
    (h : new source generation slot hash watermark transport required = .ok l) :
    Sound l ∧ Records l (.new watermark required) := by
  unfold new at h
  split at h
  · cases h
  split at h
  · cases h
  rename_i writer hwriter
  obtain rfl := Except.ok.inj h
  unfold Writer.new at hwriter
  split at hwriter
  · cases hwriter
  obtain rfl := Except.ok.inj hwriter
  exact ⟨sound_of_vacant rfl rfl nofun nofun nofun,
    ⟨rfl, rfl, rfl, nofun, nofun, fun hs => absurd rfl hs, nofun,
      fun _ _ hne => absurd UInt64.and_zero hne⟩⟩

theorem Watches.records (h : Watches l w) : Sound l ∧ Records l w := by
  obtain ⟨source, generation, slot, hash, watermark, transport, required, start, hnew, hrun⟩ := h
  refine Steps.invariant (I := fun x => Sound x.1 ∧ Records x.1 x.2) (fun x op y hx _ hy => ?_)
    hrun (sound_new hnew)
  obtain ⟨t, ht, rfl⟩ := Option.map_eq_some_iff.mp hy
  have hchange : LiveChange x.1 (x.1.event op) t := of_state (wp_exec hx.1 op) ht
  exact ⟨hchange.sound hx.1, hchange.records hx.1 hx.2⟩

/-- A new owner is the candidate, after a commit with nothing pending and everything reported. -/
theorem LiveChange.owner (hchange : LiveChange l e t) (hsound : Sound l) (h : Records l w)
    (howner : t.writer.owner ≠ l.writer.owner) :
    e = .observed .committed ∧ t.writer.owner = w.candidate ∧ w.inFlight = [] ∧
    w.writeUnknown = false ∧ l.writer.pending = none ∧ l.writer.uncertain = false ∧
    l.writer.watermark ∈ w.imports ∧
    ∀ service, isPowerOfTwo service = true → service &&& w.required ≠ 0 →
      (service, l.writer.watermark) ∈ w.reports := by
  cases hchange with
  | handover hslots hphase hpending =>
    have hs := switched_of_pending hpending
    obtain ⟨hnone, hsure⟩ := hsound.pending_eq_none hs
    obtain ⟨-, hcopied⟩ := hsound.caught hs
    refine ⟨rfl, h.candidate (by rw [hs]; nofun), ?_, ?_, hnone, hsure, h.imports _ hcopied,
      fun service hservice hne => ?_⟩
    · rw [h.inFlight, hnone]
      rfl
    · exact h.writeUnknown_eq_false hsure
    · rw [← h.required, ← hsound.ready hpending] at hne
      obtain ⟨watermark, hwatermark, hreport⟩ := h.reports service hservice hne
      obtain rfl := Option.some.inj (hcopied.symm.trans hwatermark)
      exact hreport
  | _ => exact absurd rfl howner

/-- **One owner writes.**  In every state reached:

* at most one write is in flight, and the watermark counts the writes observed as committed;
* a write begins only for the current owner and epoch, and not while the outcome of a write or
  of the commit is unknown;
* the owner changes only to the candidate, in a call that observes a committed outcome of the
  image's commit, when no write is pending or in doubt, and the candidate has imported all
  writes up to the watermark and every required service has reported for it;
* a ticket of another epoch is not accepted. -/
theorem single_authority (h : Watches l w) :
    (w.inFlight.length ≤ 1 ∧ l.writer.watermark.toNat = w.start.toNat + w.committedWrites) ∧
    (∀ owner epoch ticket t, beginWrite owner epoch l = .ok ticket t →
      owner = l.writer.owner ∧ epoch = l.writer.epoch ∧ w.inFlight = [] ∧
      w.writeUnknown = false ∧ w.commitUnknown = false) ∧
    (∀ op t, step op l = some t → t.writer.owner ≠ l.writer.owner →
      l.event op = .observed .committed ∧ t.writer.owner = w.candidate ∧ w.inFlight = [] ∧
      w.writeUnknown = false ∧ l.writer.pending = none ∧ l.writer.uncertain = false ∧
      l.writer.watermark ∈ w.imports ∧
      ∀ service, isPowerOfTwo service = true → service &&& w.required ≠ 0 →
        (service, l.writer.watermark) ∈ w.reports) ∧
    (∀ ticket outcome, ticket.epoch ≠ l.writer.epoch →
      finishWrite ticket outcome l = .err (.storage .stale) l ∧
      resolveWrite ticket outcome l = .err (.storage .stale) l) := by
  obtain ⟨hsound, hrecords⟩ := h.records
  refine ⟨⟨?_, hrecords.count⟩, fun owner epoch ticket t hrun => ?_, fun op t ht howner => ?_,
    fun ticket outcome hepoch => ?_⟩
  · rw [hrecords.inFlight]
    cases l.writer.pending <;> simp
  · obtain ⟨howner, hepoch, hchange⟩ := of_ok (wp_beginWrite owner epoch) hrun
    refine ⟨howner, hepoch, ?_⟩
    cases hchange with
    | rollback _ _ _ he _ => rcases he with ⟨he, -⟩ | he <;> cases he
    | write hrecovery hopen hwatermark =>
      obtain ⟨hfrozen, hnone, hsure⟩ := hopen
      refine ⟨by rw [hrecords.inFlight, hnone]; rfl, hrecords.writeUnknown_eq_false hsure, ?_⟩
      cases hu : w.commitUnknown with
      | false => rfl
      | true =>
        have hheld := hsound.frozen (by rw [hrecords.commitUnknown hu]; rfl)
        exact absurd (hfrozen.symm.trans hheld) nofun
  · have hchange : LiveChange l (l.event op) t := of_state (wp_exec hsound op) ht
    exact hchange.owner hsound hrecords howner
  · have hne : l.writer.pending ≠ some ticket := fun heq => hepoch (hsound.ticket ticket heq).1
    exact ⟨stale_finishWrite hne outcome, stale_resolveWrite hne outcome⟩

/-- The candidate imports the storage and its two services report. -/
def reportsReady (watermark : UInt64) : List LiveOp :=
  [.imported 2 watermark, .serviceReady 2 1 watermark, .serviceReady 2 2 watermark]

/-- One write, then a replacement up to the health of the candidate. -/
def replacement (image : ImageHash) : List LiveOp :=
  [.beginWrite 1 7, .finishWrite ⟨7, 1⟩ .committed, .begin 2 2 image 0] ++ reportsReady 41 ++
    [.prepared 1, .quiesce 2] ++ reportsReady 41 ++ [.switch 3] ++ reportsReady 41 ++ [.healthy 4]

/-- The commit of the candidate makes it the owner, and the source's ticket is stale. -/
theorem single_authority_replaced :
    ∃ l w t, Watches l w ∧ step (.commit fun _ => .committed) l = some t ∧ w.candidate = 2 ∧
      l.writer.owner = 1 ∧ t.writer.owner = 2 ∧ l.writer.watermark ∈ w.imports := by
  let image : ImageHash := List.Vector.replicate 32 1
  let start : Live × Ledger :=
    (((new 1 1 .a image 40 7 3).toOption.get (by decide +kernel)), .new 40 3)
  have hnew : new 1 1 .a image 40 7 3 = .ok start.1 := rfl
  have hrun : (runAll (watch step fun w op l _ => w.note (l.event op)) (fun _ _ => true)
      (replacement image) start).any (fun x => x.2.candidate = 2 ∧ x.1.writer.owner = 1 ∧
        (step (.commit fun _ => .committed) x.1).any fun t => t.writer.owner = 2) = true := by
    decide +kernel
  obtain ⟨⟨l, w⟩, hsteps, hcandidate, hsource, hcommit⟩ := exists_steps (fun _ _ => True) _ hrun
  obtain ⟨t, ht, howner⟩ := (Option.any_eq_true _ _).mp hcommit
  have hwatch : Watches l w := ⟨1, 1, .a, image, 40, 7, 3, start.1, hnew, hsteps⟩
  have howner : t.writer.owner = 2 := of_decide_eq_true howner
  have hchange := (single_authority hwatch).2.2.1 _ t ht (by rw [howner, hsource]; decide)
  exact ⟨l, w, t, hwatch, ht, hcandidate, hsource, howner, hchange.2.2.2.2.2.2.1⟩

end Live

end Bexos
