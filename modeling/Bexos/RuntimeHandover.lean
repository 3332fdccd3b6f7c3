/-
Replacing a service by a prepared successor (`runtime/handover.rs`), and the exit of a
thread (`runtime/mod.rs`), which may end a handover.

A handover names a source and a target process.  The target is quarantined; the source or
the coordinator lists the handles, mappings and pins to be preserved; the source quiesces;
the target reports that it is ready; `commitHandover` moves what was preserved and retires
the source, `abortHandover` retires the target.

* `Runtime.beginHandover`, `Runtime.preserveHandle`, `Runtime.preserveMapping`,
  `Runtime.quiesceHandover`, `Runtime.readyHandover`;
* `Runtime.commitHandover` — validate, map, move, retire;
* `Runtime.abortHandoverInternal`, `Runtime.exitCurrentWithCode`.
-/
import Bexos.RuntimeProcess

namespace Bexos

open Prog

/-- Resources may be listed until the target is ready. -/
def Phase.listing : Phase → Bool
  | .staged | .bulk | .catchUp | .quiesced => true
  | _ => false

namespace Runtime

variable {B : Type} [Backend B]

/-- Owner, memory object and domain of a pin or a DMA mapping. -/
def preservedPinResource (s : Runtime B) (token : UInt64) : Except Status (ℕ × ℕ × Option ℕ) :=
  if token &&& DMA_TOKEN_TAG ≠ 0 then do
    let index ← dmaTokenIndex token
    match (s.dmaMappings[index]?).join with
    | none => .error .errInvalidHandle
    | some m => .ok (m.owner, m.vmo, some m.domain)
  else if token = 0 then .error .errInvalidHandle
  else
    match (s.pins[token.toNat - 1]?).join with
    | none => .error .errInvalidHandle
    | some (owner, vmo) => .ok (owner, vmo, none)

abbrev setProcessAuthority (process : ℕ) (authority : UInt32) : RtM B Unit := do
  let s ← get
  check (s.hasAuthority AUTH_APP_MANAGER ∧ authority &&& ~~~AUTH_VALID_MASK = 0) .errAccessDenied
  let c ← cap process ADMIN
  let id ← some? c.object.process? .errInvalidHandle
  let p ← unwrap s.processes[id]?
  check (¬ (p.quarantined ∨ p.exited)) .errInvalidArgs
  modify (modifyProcess id fun p => { p with authority := authority })
  changed .process id

def discardCandidate (process : ℕ) : RtM B Unit := do
  let s ← get
  check (s.hasAuthority AUTH_APP_MANAGER) .errAccessDenied
  let c ← cap process ADMIN
  let id ← some? c.object.process? .errInvalidHandle
  let p ← unwrap s.processes[id]?
  check (¬ (id = s.current ∨ p.running ∨
    s.handover.any fun h => id == h.source || id == h.target)) .errAccessDenied
  retireProcess id

/-! ### Preparing -/

abbrev processFor (h : ℕ) : RtM B ℕ := do
  let c ← cap h ADMIN
  some? c.object.process? .errInvalidHandle

/-- The source of a handover: zero stands for the caller. -/
abbrev handoverSource (source : ℕ) : RtM B ℕ := do
  let s ← get
  if source = 0 then return s.current else processFor source

abbrev beginHandover (source target : ℕ) (generation now : UInt64) (timeouts : Timeouts) :
    RtM B Unit := do
  let s ← get
  check (s.hasAuthority AUTH_APP_MANAGER) .errAccessDenied
  check (¬ (s.handover.isSome ∨ s.dirty.isSome)) .errAlreadyExists
  let source ← handoverSource source
  let target ← processFor target
  let p ← unwrap s.processes[source]?
  let q ← unwrap s.processes[target]?
  check (¬ (source = target ∨ p.exited ∨ ¬ p.running ∨ q.exited ∨ q.running ∨ q.authority ≠ 0 ∨
    p.package ≠ q.package ∨ p.hardware ≠ q.hardware)) .errInvalidArgs
  let session ← some? (Session.new generation now timeouts).toOption .errInvalidArgs
  modify (modifyProcess target fun p => { p with quarantined := true })
  modify fun s =>
    { s with
      handover := some
        { coordinator := s.current
          source, target, session
          handles := []
          mappings := []
          pins := []
          sourceRunning := true } }

/-- Change the handover in progress. -/
def modifyHandover (f : Handover → Handover) (s : Runtime B) : Runtime B :=
  { s with handover := s.handover.map f }

/-- The handover, for its coordinator or its source. -/
abbrev handoverActor : RtM B Handover := do
  let s ← get
  let h ← some? s.handover .errInvalidArgs
  check (s.current = h.coordinator ∨ s.current = h.source) .errAccessDenied
  return h

def preserveHandle (handle : ℕ) : RtM B Unit := do
  let h ← handoverActor
  check h.session.phase.listing .errInvalidArgs
  let s ← get
  let c ← some? (s.slot handle) .errInvalidHandle
  check (¬ (c.owner ≠ h.source ∨ c.rights &&& TRANSFER = 0 ∧ c.object.process?.isNone ∧
    c.object.space?.isNone ∧ c.object.thread?.isNone)) .errAccessDenied
  check (c.object ≠ .process h.source ∧ c.object ≠ .space h.source ∧
    c.object ≠ .thread h.source) .errAccessDenied
  when (handle ∉ h.handles)
    (modify (modifyHandover fun h => { h with handles := h.handles ++ [handle] }))

/-- The place a preserved mapping asks for in the target. -/
def preservedPlaceOk (target : Process) (h : Handover) (arch : Arch) (vmoSize : UInt64)
    (offset va size : UInt64) : Bool :=
  size != 0 && size % 4096 == 0 && offset % 4096 == 0 && va % 4096 == 0 &&
    !endsAbove offset size vmoSize && va ≥ arch.userStart && !endsAbove va size USER_END &&
    !(target.mappings ++ h.mappings).any (·.overlapsRange va size)

def preserveMapping (handle : ℕ) (offset va size : UInt64) (rights : UInt32) : RtM B Unit := do
  let h ← handoverActor
  let s ← get
  let c ← some? (s.slot handle) .errInvalidHandle
  check (c.owner = h.source) .errAccessDenied
  let vmo ← some? c.object.vmo? .errInvalidHandle
  check (¬ (c.rights &&& (MAP ||| rights) ≠ MAP ||| rights ∨
    rights &&& ~~~(READ ||| WRITE ||| EXECUTE) ≠ 0 ∨ rights &&& READ = 0 ∨
    rights &&& (WRITE ||| EXECUTE) = WRITE ||| EXECUTE)) .errAccessDenied
  let v ← some? (s.vmo vmo) .errInvalidHandle
  let target ← unwrap s.processes[h.target]?
  check (preservedPlaceOk target h (Backend.arch B) v.size offset va size) .errInvalidArgs
  preserveHandle handle
  modify (modifyHandover fun h =>
    { h with mappings := h.mappings ++ [⟨vmo, target.rootVmar, offset, va, size, rights⟩] })

def preservePin (token : UInt64) : RtM B Unit := do
  let h ← handoverActor
  check h.session.phase.listing .errInvalidArgs
  let s ← get
  let (owner, _, _) ← lift (s.preservedPinResource token)
  check (owner = h.source) .errAccessDenied
  when (token ∉ h.pins)
    (modify (modifyHandover fun h => { h with pins := h.pins ++ [token] }))

/-! ### Phases -/

/-- Run a session operation on the handover. -/
def onSession {α : Type} (x : SessionM α) : RtM B (Except MigrationError α) := do
  let s ← get
  let h ← unwrap s.handover
  match x h.session with
  | .ok a session => do
    modify (modifyHandover fun h => { h with session := session })
    return .ok a
  | .err e session => do
    modify (modifyHandover fun h => { h with session := session })
    return .error e
  | .halt => halt

/-- A session operation whose failure is reported as a status. -/
def sessionOr (status : Status) (x : SessionM Unit) : RtM B Unit := do
  match ← onSession x with
  | .ok _ => return ()
  | .error _ => fail status

abbrev handoverBulk (now : UInt64) : RtM B Unit := do
  let _ ← handoverActor
  sessionOr .errInvalidArgs (Session.beginBulk now)

abbrev handoverCatchUp (now : UInt64) : RtM B Unit := do
  let _ ← handoverActor
  sessionOr .errInvalidArgs (Session.bulkComplete now)

abbrev beginCutoverHandover (sequence now : UInt64) : RtM B Unit := do
  let h ← handoverActor
  let s ← get
  check (s.current = h.source) .errAccessDenied
  sessionOr .errInvalidArgs (Session.quiesce sequence now)

/-- Enter the quiesced phase, or check that it was entered with the same sequence. -/
abbrev enterQuiesced (h : Handover) (sequence now : UInt64) : RtM B Unit :=
  if h.session.phase = .catchUp then sessionOr .errInvalidArgs (Session.quiesce sequence now)
  else do
    sessionOr .errTimedOut (Session.poll now)
    let s ← get
    let h ← unwrap s.handover
    check (h.session.phase = .quiesced ∧ h.session.finalSequence = some sequence)
      .errInvalidArgs

abbrev quiesceHandover (sequence now : UInt64) : RtM B Unit := do
  let h ← handoverActor
  let s ← get
  check (s.current = h.source) .errAccessDenied
  enterQuiesced h sequence now
  let _ ← unwrap s.processes[h.source]?
  modify (modifyProcess h.source fun p => { p with running := false })
  let _ ← sched (Scheduler.quiesceProcess (h.source + 1))
  changed .process s.current

abbrev readyHandover (sequence now : UInt64) : RtM B Unit := do
  let s ← get
  let h ← some? s.handover .errInvalidArgs
  check (s.current = h.target) .errAccessDenied
  let source ← unwrap s.processes[h.source]?
  check (¬ source.running) .errInvalidArgs
  sessionOr .errInvalidArgs (Session.ready sequence now)

/-! ### Aborting -/

def abortHandoverInternal : RtM B Unit := do
  let s ← get
  match s.handover with
  | none => return ()
  | some h => do
    modify fun s => { s with handover := none }
    let source ← unwrap s.processes[h.source]?
    let running := h.sourceRunning && !source.exited
    modify (modifyProcess h.source fun p => { p with running := running })
    when running do
      let _ ← sched (Scheduler.resumeQuiescedProcess (h.source + 1))
      return ()
    retireProcess h.target

def abortHandover : RtM B Unit := do
  let s ← get
  let h ← some? s.handover .errInvalidArgs
  check (s.current = h.coordinator ∨ s.current = h.source ∨ s.current = h.target)
    .errAccessDenied
  abortHandoverInternal

def pollHandover (now : UInt64) : RtM B Unit := do
  let s ← get
  match s.handover with
  | none => return ()
  | some _ => do
    match ← onSession (Session.poll now) with
    | .ok _ => return ()
    | .error _ => abortHandoverInternal

/-! ### Committing -/

/-- Every preserved handle is still the source's. -/
def preservedHandlesOk (s : Runtime B) (h : Handover) : Bool :=
  h.handles.all fun handle => (s.slot handle).any (·.owner == h.source)

/-- Is an object named by one of the preserved handles? -/
def preserves (s : Runtime B) (h : Handover) (object : Object) : Bool :=
  h.handles.any fun handle => (s.slot handle).any (·.object == object)

def checkPinOwner (h : Handover) (token : UInt64) : RtM B Unit := do
  let s ← get
  let (owner, _, _) ← lift (s.preservedPinResource token)
  check (owner = h.source) .errInvalidHandle

/-- A pin stays backed by a preserved memory object, and by a preserved domain. -/
def checkPinBacking (h : Handover) (token : UInt64) : RtM B Unit := do
  let s ← get
  let (_, vmo, domain) ← lift (s.preservedPinResource token)
  check (s.preserves h (.vmo vmo)) .errInvalidArgs
  check (domain.all fun d => s.preserves h (.iommuDomain d)) .errInvalidArgs

/-- Unmap pages of the target again. -/
def unmapAll (root : UInt64) (vas : List UInt64) : RtM B Unit := do
  forEach vas fun va => onBackend (Backend.unmapPage root va)
  onBackend Backend.flushMappings

/-- Map the pages of a preserved mapping; the addresses mapped so far are passed on. -/
def mapPreservedPages (root : UInt64) (m : Mapping) (device : Bool) :
    List UInt64 → List UInt64 → RtM B (List UInt64)
  | [], mapped => return mapped
  | off :: rest, mapped => do
    let (pa, zeroPage) ← vmoPagePhys m.vmo (m.offset + off) false
    let rights := if zeroPage then m.rights &&& ~~~WRITE else m.rights
    match ← attempt (tryBackend (Backend.mapPage root (m.va + off) pa rights device)) with
    | .ok _ => mapPreservedPages root m device rest (mapped ++ [m.va + off])
    | .error e => do
      unmapAll root mapped
      fail e

def mapPreserved (root : UInt64) : List Mapping → List UInt64 → RtM B (List UInt64)
  | [], mapped => return mapped
  | m :: ms, mapped => do
    let s ← get
    let v ← some? (s.vmo m.vmo) .errInvalidHandle
    let mapped ← mapPreservedPages root m v.deviceMapping (pageOffsets m.size) mapped
    mapPreserved root ms mapped

/-- Give a preserved pin to the target. -/
def movePin (target : ℕ) (token : UInt64) : RtM B Unit :=
  if token &&& DMA_TOKEN_TAG ≠ 0 then do
    let index ← unwrap (dmaTokenIndex token).toOption
    let s ← get
    let _ ← unwrap (s.dmaMappings[index]?).join
    modify fun s =>
      { s with
        dmaMappings := s.dmaMappings.modify index (Option.map fun m =>
          { m with owner := target }) }
    changed .dmaMapping index
  else do
    let s ← get
    let _ ← unwrap (s.pins[token.toNat - 1]?).join
    modify fun s =>
      { s with
        pins := s.pins.modify (token.toNat - 1) (Option.map fun (_, vmo) => (target, vmo)) }

/-- Enter a preserved mapping into the tables of the target. -/
def installMapping (target : ℕ) (m : Mapping) : RtM B Unit := do
  let s ← get
  let _ ← unwrap (s.vmo m.vmo)
  modify (modifyVmo m.vmo fun v => { v with refs := v.refs + 1 })
  modify (modifyProcess target fun p =>
    { p with nextVa := max p.nextVa (m.va + m.size), mappings := p.mappings ++ [m] })

/-- Move what was preserved to the target. -/
def movePreserved (h : Handover) : RtM B Unit := do
  forEach h.handles fun handle => do
    let s ← get
    let _ ← unwrap (s.slot handle)
    modify (setOwner (handle - 1) h.target)
  forEach h.pins (movePin h.target)
  forEach h.mappings (installMapping h.target)

/-- The target takes over: resources, then authority; the source is retired. -/
def finishHandover (h : Handover) : RtM B Unit := do
  modify fun s => { s with handover := none }
  movePreserved h
  let s ← get
  let source ← unwrap s.processes[h.source]?
  modify (modifyProcess h.target fun p => { p with authority := source.authority })
  modify (modifyProcess h.source fun p => { p with authority := 0 })
  modify (modifyProcess h.target fun p => { p with quarantined := false })
  retireProcess h.source

/-- The checks of `commit_handover`: every resource is validated before any moves. -/
def checkCommit (h : Handover) : RtM B Process := do
  let s ← get
  check (s.current = h.target ∨ s.current = h.coordinator) .errAccessDenied
  check (¬ (s.current = h.source ∨ h.session.phase ≠ .ready)) .errInvalidArgs
  check (s.preservedHandlesOk h) .errInvalidHandle
  forEach h.pins (checkPinOwner h)
  forEach h.pins (checkPinBacking h)
  let target ← unwrap s.processes[h.target]?
  check (¬ h.mappings.any fun m => target.mappings.any fun other =>
    m.va < other.va + other.size && other.va < m.va + m.size) .errInvalidArgs
  return target

def commitHandover (now : UInt64) : RtM B Unit := do
  let s ← get
  let h ← some? s.handover .errInvalidArgs
  let target ← checkCommit h
  let mapped ← mapPreserved target.root h.mappings []
  onBackend Backend.flushMappings
  let s ← get
  match ← onSession (Session.commit ((Backend.monotonicMs s.backend).getD now)) with
  | .ok _ => finishHandover h
  | .error _ => do
    unmapAll target.root mapped
    abortHandoverInternal
    fail .errTimedOut

/-! ### The exit of a thread -/

/-- Does the current thread take a party of the handover with it? -/
def endsHandover (s : Runtime B) : Bool :=
  !(s.threads.zipIdx.any fun (t, id) =>
    id != s.currentThread && t.process == s.current && !t.exited) &&
  s.handover.any fun h => h.target == s.current || h.source == s.current

/-- End the current thread. -/
def exitThread (exitCode : Int32) : RtM B Unit := do
  let s ← get
  modify (modifyThread s.currentThread fun t =>
    { t with running := false, exited := true, exitCode := exitCode, restricted := none })
  releaseRestricted ((s.threads[s.currentThread]?).bind (·.restricted))
  let _ ← sched (Scheduler.exitTask (s.currentThread + 1) exitCode)
  changed .thread s.currentThread
  wakeWaitersForObject (.thread s.currentThread) SIGNAL_TERMINATED

def exitCurrentWithCode (exitCode : Int32) : RtM B Unit := do
  let s ← get
  when s.endsHandover do
    let _ ← attempt abortHandover
    return ()
  exitThread exitCode
  let s ← get
  when (¬ s.threads.any fun t => t.process == s.current && !t.exited) (retireProcess s.current)

end Runtime

end Bexos
