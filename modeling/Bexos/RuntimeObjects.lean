/-
Capabilities and the objects they name (`runtime/mod.rs`, `slots.rs`, `reclamation.rs` and
the reference counting of `memory.rs`).

* `Runtime.capability` — the check every operation starts with;
* `Runtime.grant` — hand out a capability and count the reference;
* `Runtime.releaseObject` — give a reference back.  Dropping the last reference to a
  channel end drops the capabilities that travel in its queue, and so on down;
* `Runtime.close`, `Runtime.duplicate`.

Design notes: reading a table beyond its end, taking the value of a vacant entry and
counting below zero stop the kernel (`Prog.halt`).  `releaseObject` recurses through
queues; every level first empties a handle slot, so the number of slots bounds the depth,
and `releaseObject` takes that bound as fuel.
-/
import Bexos.RuntimeState

namespace Bexos

open Prog

/-! ### What an object is -/

namespace Object

def vmo? : Object → Option ℕ
  | .vmo id => some id
  | _ => none

def vmar? : Object → Option ℕ
  | .vmar id => some id
  | _ => none

def channel? : Object → Option (ℕ × End)
  | .channel id e => some (id, e)
  | _ => none

def socket? : Object → Option (ℕ × End)
  | .socket id e => some (id, e)
  | _ => none

def process? : Object → Option ℕ
  | .process id => some id
  | _ => none

def job? : Object → Option ℕ
  | .job id => some id
  | _ => none

def space? : Object → Option ℕ
  | .space id => some id
  | _ => none

def thread? : Object → Option ℕ
  | .thread id => some id
  | _ => none

def profile? : Object → Option ℕ
  | .profile id => some id
  | _ => none

def replyToken? : Object → Option (ℕ × End × UInt64)
  | .replyToken id e callId => some (id, e, callId)
  | _ => none

def iommuDomain? : Object → Option ℕ
  | .iommuDomain id => some id
  | _ => none

def interrupt? : Object → Option ℕ
  | .interrupt id => some id
  | _ => none

def resourceGroup? : Object → Option UInt32
  | .resourceGroup id => some id
  | _ => none

theorem eq_process {object : Object} {id : ℕ} (h : object.process? = some id) :
    object = .process id := by
  cases object <;> cases h
  rfl

theorem eq_job {object : Object} {id : ℕ} (h : object.job? = some id) : object = .job id := by
  cases object <;> cases h
  rfl

end Object

namespace Runtime

variable {B : Type}

/-! ### Reading the tables -/

section Read

variable (s : Runtime B)

/-- The capability in a handle slot. Handles count from one. -/
def slot (h : ℕ) : Option Capability :=
  if h = 0 then none else (s.handles[h - 1]?).join

def vmo (id : ℕ) : Option Vmo := (s.vmos[id]?).join

def vmar (id : ℕ) : Option Vmar := (s.vmars[id]?).join

/-- Is the object of a capability also held, or mapped, by the source of the handover? -/
def sharedWithSource (cap : Capability) : Bool :=
  match s.handover with
  | none => false
  | some h =>
    s.handles.any (fun c => c.any fun other =>
      other.owner == h.source && other.object == cap.object) ||
    match cap.object with
    | .vmo id => (s.processes[h.source]?).any fun p => p.mappings.any (·.vmo == id)
    | _ => false

/-- The capability the current process holds under a handle. A quarantined process may not
use what it shares with the process it replaces. -/
def capability (h : ℕ) (rights : UInt32) : Except Status Capability :=
  match s.slot h with
  | none => .error .errInvalidHandle
  | some cap =>
    if cap.owner ≠ s.current ∨ cap.rights &&& rights ≠ rights then .error .errAccessDenied
    else if (s.processes[s.current]?).any (·.quarantined) ∧ s.sharedWithSource cap then
      .error .errAccessDenied
    else .ok cap

def hasAuthority (authority : UInt32) : Bool :=
  (s.processes[s.current]?).any fun p =>
    !p.quarantined && p.authority &&& authority == authority

end Read

/-- `capability` as a program: before the first process exists there is no current process
to read, and the kernel stops. -/
def cap (h : ℕ) (rights : UInt32) : RtM B Capability := do
  let s ← get
  let c ← lift (s.capability h rights)
  let _ ← unwrap s.processes[s.current]?
  return c

/-- The process that runs. -/
def currentProcess : RtM B Process := do
  let s ← get
  unwrap s.processes[s.current]?

/-! ### Writing the tables -/

/-- Note that a record changed, and with it the summary record. -/
def changed (kind : RecordKind) (index : ℕ) : RtM B Unit :=
  modify fun s =>
    { s with dirty := s.dirty.map fun d => (d.mark ⟨kind, index⟩).mark ⟨.metadata, 0⟩ }

def modifyVmo (id : ℕ) (f : Vmo → Vmo) (s : Runtime B) : Runtime B :=
  { s with vmos := s.vmos.modify id (Option.map f) }

def modifyVmar (id : ℕ) (f : Vmar → Vmar) (s : Runtime B) : Runtime B :=
  { s with vmars := s.vmars.modify id (Option.map f) }

def modifyChannel (id : ℕ) (f : Channel → Channel) (s : Runtime B) : Runtime B :=
  { s with channels := s.channels.modify id f }

def modifySocket (id : ℕ) (f : Socket → Socket) (s : Runtime B) : Runtime B :=
  { s with sockets := s.sockets.modify id f }

def modifyProcess (id : ℕ) (f : Process → Process) (s : Runtime B) : Runtime B :=
  { s with processes := s.processes.modify id f }

def modifyThread (id : ℕ) (f : Thread → Thread) (s : Runtime B) : Runtime B :=
  { s with threads := s.threads.modify id f }

def modifyIommuDomain (id : ℕ) (f : IommuDomain → IommuDomain) (s : Runtime B) : Runtime B :=
  { s with iommuDomains := s.iommuDomains.modify id (Option.map f) }

def modifyInterrupt (id : ℕ) (f : Interrupt → Interrupt) (s : Runtime B) : Runtime B :=
  { s with interrupts := s.interrupts.modify id (Option.map f) }

/-- Empty a handle slot. -/
def clearSlot (i : ℕ) (s : Runtime B) : Runtime B :=
  { s with handles := s.handles.set i none }

/-- Change the owner of the capability in a handle slot. -/
def setOwner (i owner : ℕ) (s : Runtime B) : Runtime B :=
  { s with handles := s.handles.modify i (Option.map fun c => { c with owner := owner }) }

/-! ### The machine and the scheduler -/

def onBackend (f : B → B) : RtM B Unit := modify fun s => { s with backend := f s.backend }

def tryBackend {α : Type} (f : B → Except Status α × B) : RtM B α := do
  let s ← get
  modify fun s => { s with backend := (f s.backend).2 }
  lift (f s.backend).1

/-- Run a scheduler operation and keep its result as a value. -/
def sched {α : Type} (x : SchedM α) : RtM B (Except SchedulerError α) :=
  attempt (zoom scheduler (fun t s => { s with scheduler := t }) x)

def schedulerStatus : SchedulerError → Status
  | .full => .errNoMemory
  | .invalidTask => .errInvalidArgs
  | .alreadyExists => .errAlreadyExists
  | .accessDenied => .errAccessDenied
  | .resourceExhausted => .errResourceExhausted

/-- Run a scheduler operation whose error is returned as a status. -/
def schedOrStatus {α : Type} (x : SchedM α) : RtM B α :=
  mapErr schedulerStatus (zoom scheduler (fun t s => { s with scheduler := t }) x)

/-! ### Releasing memory -/

/-- Keep the pages of a retired memory object until maintenance has scrubbed them. -/
def deferVmoReclamation (id : ℕ) : RtM B Unit := do
  modify (modifyVmo id fun v =>
    match v.backing with
    | .contiguous base =>
      { v with
        backing := .lazyAnonymous ((List.range (v.size / PAGE).toNat).map fun i =>
          some (base + UInt64.ofNat i * PAGE)) }
    | _ => v)
  modify fun s => { s with reclaimCursor := min s.reclaimCursor id }
  changed .vmo id

/-- Runs of consecutive frames: the first frame and the number of frames. -/
def pageRuns : List UInt64 → List (UInt64 × UInt64)
  | [] => []
  | base :: pages =>
    match pageRuns pages with
    | [] => [(base, 1)]
    | (next, count) :: runs =>
      if next = base + PAGE then (base, count + 1) :: runs
      else (base, 1) :: (next, count) :: runs

section Release

variable [Backend B]

/-- Scrub and release the frames of a memory object. -/
def freePages (v : Vmo) : RtM B Unit :=
  match v.backing with
  | .contiguous base =>
    if v.device then return ()
    else do
      onBackend (Backend.zero base v.size)
      onBackend (Backend.release base (v.size / PAGE))
  | .lazyAnonymous pages =>
    forEach (pageRuns (pages.filterMap id)) fun (base, count) => do
      onBackend (Backend.zero base (count * PAGE))
      onBackend (Backend.release base count)
  | .sharedDevice _ => return ()

/-- Count boot image pages as reclaimed. -/
def reclaimBootfs (v : Vmo) (pages : UInt64) : RtM B Unit :=
  if v.bootfs then do
    let s ← get
    let bootfsPages ← unwrap (s.bootfsPages.checkedSub pages)
    let reclaimedPages ← unwrap (s.reclaimedPages.checkedAdd pages)
    modify fun s => { s with bootfsPages := bootfsPages, reclaimedPages := reclaimedPages }
  else return ()

/-- What happens to a memory object nobody refers to any more. -/
def retireVmo (id : ℕ) (v : Vmo) : RtM B Unit := do
  let s ← get
  when (s.timePageVmo = some id) do
    modify fun s => { s with timePageVmo := none }
    changed .metadata 0
  if s.deferReclamation ∧ ¬ v.device then deferVmoReclamation id
  else do
    modify fun s => { s with vmos := s.vmos.set id none }
    freePages v
    reclaimBootfs v (v.size / PAGE)

def releaseVmo (id : ℕ) : RtM B Unit := do
  changed .vmo id
  let s ← get
  let v ← unwrap (s.vmo id)
  if v.refs = 0 then halt
  else do
    modify (modifyVmo id fun v => { v with refs := v.refs - 1 })
    if v.refs = 1 then retireVmo id { v with refs := 0 } else return ()

def releaseVmar (id : ℕ) : RtM B Unit := do
  changed .vmar id
  let s ← get
  let _ ← unwrap s.vmars[id]?
  modify (modifyVmar id fun v => { v with refs := v.refs - 1 })

/-- Drop the DMA mapping in a slot if it satisfies `p`. -/
def dropDmaMapping (p : DmaMapping → Bool) (index : ℕ) : RtM B Unit := do
  let s ← get
  match (s.dmaMappings[index]?).join with
  | none => return ()
  | some mapping =>
    if p mapping then do
      modify fun s => { s with dmaMappings := s.dmaMappings.set index none }
      changed .dmaMapping index
      releaseVmo mapping.vmo
    else return ()

def releaseIommuDomain (id : ℕ) : RtM B Unit := do
  let s ← get
  match (s.iommuDomains[id]?).join with
  | none => return ()
  | some domain => do
    modify fun s =>
      { s with
        iommuDomains := s.iommuDomains.set id
          (if domain.refs ≤ 1 then none else some { domain with refs := domain.refs - 1 }) }
    changed .iommuDomain id
    if domain.refs ≤ 1 then
      forEach (List.range s.dmaMappings.length) (dropDmaMapping (·.domain == id))
    else return ()

/-! ### Releasing references -/

/-- Take the capability out of the slot of a handle. -/
def takeSlot (h : ℕ) : RtM B (Option Capability) := do
  let s ← get
  if h = 0 then halt
  else do
    let c ← unwrap s.handles[h - 1]?
    modify (clearSlot (h - 1))
    return c

/-- Give back the reference an object of this kind counts; the capabilities that travelled
to a channel end nobody can read any more are returned. -/
def releaseRef : Object → RtM B (List ℕ)
  | .vmo id => do
    releaseVmo id
    return []
  | .vmar id => do
    releaseVmar id
    return []
  | .iommuDomain id => do
    releaseIommuDomain id
    return []
  | .interrupt id => do
    modify fun s => { s with interrupts := s.interrupts.set id none }
    changed .interrupt id
    return []
  | .channel id e => do
    changed .channel id
    let s ← get
    let c ← unwrap s.channels[id]?
    if c.refs.get e = 0 then halt
    else if c.refs.get e = 1 then do
      modify (modifyChannel id fun c =>
        { c with refs := c.refs.modify e fun _ => 0, queues := c.queues.modify e fun _ => [] })
      return (c.queues.get e).flatMap (·.handles)
    else do
      modify (modifyChannel id fun c => { c with refs := c.refs.modify e (· - 1) })
      return []
  | .socket id e => do
    changed .socket id
    let s ← get
    let c ← unwrap s.sockets[id]?
    if c.refs.get e = 0 then halt
    else do
      modify (modifySocket id fun c => { c with refs := c.refs.modify e (· - 1) })
      if c.refs.get e = 1 then do
        modify (modifySocket id fun c =>
          { c with
            readClosed := c.readClosed.modify e fun _ => true
            writeClosed := c.writeClosed.modify e fun _ => true })
        return []
      else return []
  | .profile id => do
    changed .profile id
    return []
  | .replyToken id _ _ => do
    changed .channel id
    return []
  | _ => return []

/-- `release_object`, to a given depth of channels inside channels. -/
def releaseObjectTo : ℕ → Object → RtM B Unit
  | 0, _ => halt
  | depth + 1, object => do
    let travelling ← releaseRef object
    forEach travelling fun h => do
      let c ← takeSlot h
      match c with
      | none => return ()
      | some c => do
        changed .handle (h - 1)
        releaseObjectTo depth c.object

/-- Each level of `release_object` below the first has emptied a handle slot, so there are
at most as many levels as slots. -/
def releaseObject (object : Object) : RtM B Unit := do
  let s ← get
  releaseObjectTo (s.handles.length + 1) object

def close (h : ℕ) : RtM B Unit := do
  let c ← cap h 0
  modify (clearSlot (h - 1))
  changed .handle (h - 1)
  releaseObject c.object

end Release

/-! ### Handing out capabilities -/

/-- Mark the record of the object a new capability names. -/
def markObject : Object → RtM B Unit
  | .vmo id => changed .vmo id
  | .vmar id => changed .vmar id
  | .channel id _ => changed .channel id
  | .socket id _ => changed .socket id
  | .profile id => changed .profile id
  | .replyToken id _ _ => changed .channel id
  | .interrupt id => changed .interrupt id
  | .job id => changed .job id
  | _ => return ()

/-- Count a reference to an object, which must exist. -/
def acquireRef : Object → RtM B Unit
  | .vmo id => do
    let s ← get
    let _ ← unwrap (s.vmo id)
    modify (modifyVmo id fun v => { v with refs := v.refs + 1 })
  | .vmar id => do
    let s ← get
    let _ ← unwrap (s.vmar id)
    modify (modifyVmar id fun v => { v with refs := v.refs + 1 })
  | .channel id e => do
    let s ← get
    let _ ← unwrap s.channels[id]?
    modify (modifyChannel id fun c => { c with refs := c.refs.modify e (· + 1) })
  | .socket id e => do
    let s ← get
    let _ ← unwrap s.sockets[id]?
    modify (modifySocket id fun c => { c with refs := c.refs.modify e (· + 1) })
  | .iommuDomain id => do
    let s ← get
    let _ ← unwrap (s.iommuDomains[id]?).join
    modify (modifyIommuDomain id fun d => { d with refs := d.refs + 1 })
    changed .iommuDomain id
  | _ => return ()

/-- Put a capability into the first vacant slot. -/
def fillSlot (c : Capability) : RtM B ℕ := do
  let s ← get
  let index := firstFree s.handles
  modify fun s => { s with handles := putSlot s.handles index c }
  changed .handle index
  return index + 1

def grant (owner : ℕ) (object : Object) (rights : UInt32) : RtM B ℕ := do
  markObject object
  acquireRef object
  fillSlot ⟨object, rights, owner⟩

/-- Grant a capability to the current process. -/
def grantCurrent (object : Object) (rights : UInt32) : RtM B ℕ := do
  let s ← get
  grant s.current object rights

abbrev duplicate (h : ℕ) (rights : UInt32) : RtM B ℕ := do
  let c ← cap h DUPLICATE
  check (rights &&& ~~~c.rights = 0) .errAccessDenied
  grantCurrent c.object rights

/-! ### Storage slots -/

/-- May the storage of a channel be used again? -/
def channelVacant (s : Runtime B) (id : ℕ) (c : Channel) : Bool :=
  c.refs == ⟨0, 0⟩ && c.queues == ⟨[], []⟩ && c.calls == ⟨[], []⟩ &&
    !s.handles.any fun h => h.any fun cap =>
      match cap.object with
      | .replyToken channel _ _ => channel == id
      | _ => false

/-- An identity above all those in use. -/
def nextIdentity (s : Runtime B) : Option UInt64 :=
  match (s.channels.map (·.identity.toNat)).max? with
  | none => some 1
  | some largest => (UInt64.ofNat largest).checkedAdd 2

def insertChannel : RtM B ℕ := do
  let s ← get
  let identity ← unwrap s.nextIdentity
  let channel : Channel :=
    { identity
      queues := ⟨[], []⟩
      calls := ⟨[], []⟩
      refs := ⟨0, 0⟩
      nextCallId := 1
      policy := ChannelPolicy.disabled }
  let id := (s.channels.zipIdx.find? fun (c, i) => s.channelVacant i c).elim
    s.channels.length Prod.snd
  modify fun s =>
    { s with
      channels := if id < s.channels.length then s.channels.set id channel
        else s.channels ++ [channel] }
  changed .channel id
  return id

abbrev insertVmo (v : Vmo) : RtM B ℕ := do
  let s ← get
  let id := firstFree s.vmos
  modify fun s => { s with vmos := putSlot s.vmos id v }
  changed .vmo id
  return id

end Runtime

end Bexos
