/-
Relations that every operation moves along.

A relation between states that allows every change of some parts (`Covers`) is one that an
operation moves along as soon as it allows what the operation does to the other parts.  Each
operation that works through others is gone through once, for every relation, and asks of the
relation only what it does to

* the handle table — `grant`, `setOwner` and `clearSlot`;
* the tables of channels and of regions — `insertChannel`, `insertVmar`, `mapAt`;
* the scheduler and the threads — `Calls` and `Drivable`;
* the handover.
-/
import Bexos.OperationFrames
import Bexos.SchedulerCalls

namespace Bexos

open Prog

namespace Runtime

variable {B : Type}

/-- What calls the scheduler moves along a relation. -/
class Calls (R : Runtime B → Runtime B → Prop) : Prop where
  sched : ∀ {α : Type} (x : SchedM α) [SchedCall x], Moves R (sched x : RtM B _)
  status : ∀ {α : Type} (x : SchedM α) [SchedCall x], Moves R (schedOrStatus x : RtM B α)
  account : ∀ (f : Scheduler → Scheduler) [SchedCall (modify f : SchedM Unit)],
    Moves R (modify fun s => { s with scheduler := f s.scheduler } : RtM B Unit)

/-- So does what begins or ends a thread. -/
class Drivable [Backend B] (R : Runtime B → Runtime B → Prop) : Prop extends Calls R where
  addThread : ∀ process context, Moves R (addThreadToProcess process context : RtM B ℕ)
  endThread : ∀ i t exitCode, Moves R (endThread i t exitCode : RtM B Unit)
  exitThread : ∀ exitCode, Moves R (exitThread exitCode : RtM B Unit)

attribute [instance] Calls.sched Calls.status Calls.account Drivable.addThread
  Drivable.endThread Drivable.exitThread

section

variable {R : Runtime B → Runtime B → Prop} {F : List Part} [Covers R F]

instance [Has .scheduler F] : Calls R where
  sched _ _ := inferInstance
  status _ _ := inferInstance
  account _ _ := (Moves.modify fun s => touches_scheduler (F := F) s _).mono Covers.le

end

variable {R : Runtime B → Runtime B → Prop} [Std.Refl R] [IsTrans (Runtime B) R]
  {F : List Part} [Covers R F] [Has .dirty F]
  (id owner h vmar maxBytes maxHandles process thread cpu : ℕ) (e : End) (object : Object)
  (rights flags hardware group : UInt32) (base size offset va now uaddr : UInt64)
  (realtime : Bool) (handles : List ℕ) (bytes : Bytes) (name package : Text) (exitCode : Int32)

/-! ### The references a new capability counts -/

instance [Has .vmos F] : Moves (Touches F) (acquireRef (.vmo id) : RtM B Unit) := by
  unfold acquireRef
  infer_instance

instance [Has .vmarRefs F] : Moves (Touches F) (acquireRef (.vmar id) : RtM B Unit) := by
  unfold acquireRef
  infer_instance

instance [Has .channels F] : Moves (Touches F) (acquireRef (.channel id e) : RtM B Unit) := by
  unfold acquireRef
  infer_instance

instance [Has .sockets F] : Moves (Touches F) (acquireRef (.socket id e) : RtM B Unit) := by
  unfold acquireRef
  infer_instance

instance [Has .iommuDomains F] : Moves (Touches F) (acquireRef (.iommuDomain id) : RtM B Unit) := by
  unfold acquireRef
  infer_instance

instance : Moves R (acquireRef (.process id) : RtM B Unit) := .pure ()

instance : Moves R (acquireRef (.job id) : RtM B Unit) := .pure ()

instance : Moves R (acquireRef (.space id) : RtM B Unit) := .pure ()

instance : Moves R (acquireRef (.thread id) : RtM B Unit) := .pure ()

instance : Moves R (acquireRef (.profile id) : RtM B Unit) := .pure ()

instance (callId) : Moves R (acquireRef (.replyToken id e callId) : RtM B Unit) := .pure ()

instance (id) : Moves R (acquireRef (.resourceGroup id) : RtM B Unit) := .pure ()

variable [Backend B]

/-! ### Capabilities -/

instance [Moves R (fillSlot ⟨object, rights, owner⟩ : RtM B ℕ)]
    [Moves R (acquireRef object : RtM B Unit)] : Moves R (grant owner object rights) := by
  unfold grant
  infer_instance

instance [∀ owner, Moves R (grant owner object rights : RtM B ℕ)] :
    Moves R (grantCurrent object rights) := by
  unfold grantCurrent
  infer_instance

section Dropping

variable [∀ i, Moves R (modify (clearSlot i) : RtM B Unit)]

instance : Moves R (takeSlot h) := by
  unfold takeSlot
  infer_instance

variable [∀ object, Moves R (releaseRef object : RtM B (List ℕ))]

instance (depth) : Moves R (releaseObjectTo depth object) := by
  induction depth generalizing object with
  | zero => unfold releaseObjectTo; infer_instance
  | succ n ih =>
    unfold releaseObjectTo
    refine .next fun travelling => ?_
    refine @Moves.forEach _ _ _ _ _ _ _ (fun h => .next fun c => ?_) _
    cases c <;> dsimp only <;> infer_instance

instance : Moves R (releaseObject object) := by
  unfold releaseObject
  infer_instance

instance : Moves R (close h) := by
  unfold close
  infer_instance

instance (i) : Moves R (dropSlot i) := by
  unfold dropSlot
  refine .next fun s => ?_
  split <;> infer_instance

end Dropping

/-! ### Memory that is handed out -/

section Memory

variable [Has .backend F] [Has .vmos F] [Has .counters F] [Has .reclaim F] [Has .vmarRefs F]
  [Has .iommuDomains F]

section Granting

variable [∀ owner id rights, Moves R (grant owner (.vmo id) rights : RtM B ℕ)]
  [∀ owner id rights, Moves R (grant owner (.vmar id) rights : RtM B ℕ)]
  [∀ owner id rights, Moves R (grant owner (.iommuDomain id) rights : RtM B ℕ)]

set_option synthInstance.maxSize 100000 in
instance [∀ owner parent base size rights,
      Moves R (insertVmar owner parent base size rights : RtM B ℕ)] (parent) :
    Moves R (createSubVmar parent offset size flags) := by
  unfold createSubVmar
  infer_instance

end Granting

section Mapping

variable [∀ pid vmar h offset size va rights,
    Moves R (mapAt pid vmar h offset size va rights : RtM B UInt64)]
  [∀ pid vmars va size, Moves R (unmapMatching pid vmars va size : RtM B Unit)]

end Mapping

set_option synthInstance.maxSize 100000 in
instance [Has .regions F] [Has .layout F] [∀ i, Moves R (modify (clearSlot i) : RtM B Unit)] :
    Moves R (destroyVmar vmar) := by
  unfold destroyVmar
  dsimp only
  infer_instance

end Memory

/-! ### Waiting and messages -/

section Messages

variable [Calls R] [Has .threadRun F] [Has .sockets F] [Has .profiles F] [Has .interrupts F]

instance (signals) : Moves R (wakeWaitersForObject object signals) := by
  unfold wakeWaitersForObject
  infer_instance

instance (items deadlineNanos) : Moves R (blockOnItems items deadlineNanos) := by
  unfold blockOnItems
  infer_instance

instance (items deadlineNanos) : Moves R (waitMany items deadlineNanos) := by
  unfold waitMany
  refine .next fun s => .next fun r => ?_
  cases r <;> dsimp only <;> infer_instance

section Granting

variable [∀ owner id rights, Moves R (grant owner (.profile id) rights : RtM B ℕ)]
  [∀ owner id rights, Moves R (grant owner (.resourceGroup id) rights : RtM B ℕ)]
  [∀ owner id e rights, Moves R (grant owner (.channel id e) rights : RtM B ℕ)]
  [∀ owner id e rights, Moves R (grant owner (.socket id e) rights : RtM B ℕ)]
  [∀ owner id rights, Moves R (grant owner (.interrupt id) rights : RtM B ℕ)]
  [Moves R (insertChannel : RtM B ℕ)]

instance : Moves R (createSocketPair) := by
  unfold createSocketPair
  infer_instance

end Granting

section Sending

variable [∀ i owner, Moves R (modify (setOwner i owner) : RtM B Unit)]
  [∀ id (queues : Channel → Ends (List Message)),
    Moves R (modify (modifyChannel id fun c => { c with queues := queues c }) : RtM B Unit)]

instance : Moves R (assignAll handles owner) := by
  unfold assignAll
  infer_instance

set_option synthInstance.maxSize 100000 in
instance : Moves R (writeMessage h bytes handles) := by
  unfold writeMessage
  refine .next fun ⟨id, e, channel⟩ => ?_
  dsimp only
  infer_instance

instance (own) : Moves R (prepareTransferMessage own bytes handles) := by
  unfold prepareTransferMessage
  infer_instance

instance (message) : Moves R (restoreMessageHandles message owner) := by
  unfold restoreMessageHandles
  infer_instance

instance (message) : Moves R (deliverRuntimeMessage message maxBytes maxHandles) := by
  unfold deliverRuntimeMessage
  infer_instance

set_option synthInstance.maxSize 100000 in
instance : Moves R (readMessage h maxBytes maxHandles) := by
  unfold readMessage
  refine .next fun ⟨id, e, channel⟩ => ?_
  dsimp only
  split <;> infer_instance

end Sending

section Calling

variable [∀ i owner, Moves R (modify (setOwner i owner) : RtM B Unit)]

instance [Has .channels F] (request) : Moves R (sendCall h id e request) := by
  unfold sendCall
  infer_instance

set_option synthInstance.maxSize 100000 in
instance [∀ id e, Moves R (takeCompletedCallReply id e : RtM B (Option Message))]
    [∀ h id e request, Moves R (sendCall h id e request : RtM B Unit)] (deadline) :
    Moves R (call h bytes handles deadline maxBytes maxHandles) := by
  unfold call
  refine .next fun ⟨id, e, channel⟩ => ?_
  dsimp only
  refine .next fun reply => ?_
  cases reply <;> dsimp only <;> infer_instance

instance (policy caller) : Moves R (donateForCall policy caller) := by
  unfold donateForCall
  refine .next fun s => ?_
  split <;> infer_instance

instance [Has .channels F] [∀ owner id e callId rights,
      Moves R (grant owner (.replyToken id e callId) rights : RtM B ℕ)] (c index) :
    Moves R (serveCall id e c index) := by
  unfold serveCall
  infer_instance

set_option synthInstance.maxSize 100000 in
instance [∀ id e c index, Moves R (serveCall id e c index : RtM B ℕ)] (deadline) :
    Moves R (readCall h deadline maxBytes maxHandles) := by
  unfold readCall
  refine .next fun ⟨id, e, channel⟩ => ?_
  dsimp only
  infer_instance

instance [Has .channels F] (callId c reply) : Moves R (completeCall id e callId c reply) := by
  unfold completeCall
  refine .next fun _ => ?_
  split <;> infer_instance

instance [Has .channels F] [∀ i, Moves R (modify (clearSlot i) : RtM B Unit)] (token) :
    Moves R (replyCall token bytes handles) := by
  unfold replyCall
  refine .next fun c => .next fun ⟨id, e, callId⟩ => ?_
  dsimp only
  refine .next fun _ => .next fun _ => .next fun _ => .next fun s => .next fun channel => ?_
  split <;> infer_instance

end Calling

/-! ### Sockets and interrupts -/

set_option synthInstance.maxSize 100000 in
instance : Moves R (writeSocket h bytes) := by
  unfold writeSocket
  refine .next fun ⟨id, e, socket⟩ => ?_
  dsimp only
  infer_instance

instance : Moves R (readSocket h maxBytes) := by
  unfold readSocket
  refine .next fun ⟨id, e, socket⟩ => ?_
  dsimp only
  refine .next fun _ => .next fun _ => ?_
  split <;> infer_instance

instance (read write) : Moves R (shutdownSocket h read write) := by
  unfold shutdownSocket
  refine .next fun ⟨id, e, socket⟩ => ?_
  dsimp only
  infer_instance

set_option synthInstance.maxSize 100000 in
instance (irq) : Moves R (deliverInterrupt irq now) := by
  unfold deliverInterrupt
  dsimp only
  infer_instance

end Messages

/-! ### Processes and threads -/

section Processes

variable [Has .backend F] [Has .vmos F] [Has .counters F] [Has .reclaim F] [Has .vmarRefs F]
  [Has .threadRun F] [Has .threadContext F] [Has .current F] [Has .life F]
  [Has .space F] [Has .population F] [Has .jobs F] [Has .dmaMappings F] [Has .pins F]

section Creation

variable [∀ owner id rights, Moves R (grant owner (.vmar id) rights : RtM B ℕ)]
  [∀ owner id rights, Moves R (grant owner (.process id) rights : RtM B ℕ)]
  [∀ owner id rights, Moves R (grant owner (.space id) rights : RtM B ℕ)]
  [∀ owner id rights, Moves R (grant owner (.job id) rights : RtM B ℕ)]

set_option synthInstance.maxSize 100000 in
instance [Has .regions F] [Has .layout F] (job) : Moves R
      (createProcessWithFixedPolicy name package hardware group realtime job :
        RtM B (ℕ × ℕ)) := by
  unfold createProcessWithFixedPolicy
  dsimp only
  infer_instance

section

variable [∀ name package hardware group realtime job,
  Moves R (createProcessWithFixedPolicy name package hardware group realtime job :
    RtM B (ℕ × ℕ))]

instance : Moves R
      (createProcessWithPolicy name package hardware group realtime : RtM B (ℕ × ℕ)) := by
  unfold createProcessWithPolicy
  infer_instance

end

end Creation

section Scheduling

variable [Calls R]

instance : Moves R (adoptFirstThread id process) := by
  unfold adoptFirstThread
  refine .next fun s => ?_
  split <;> infer_instance

instance : Moves R (yieldOrTick cpu now) := by
  unfold yieldOrTick
  refine .next fun r => ?_
  cases r <;> dsimp only <;> infer_instance

instance (frame) : Moves R
      (scheduleAtOnCpu cpu now frame : RtM B (AddressSpaceSwitch × Context)) := by
  unfold scheduleAtOnCpu
  refine .next fun s => @Moves.ite _ _ _ _ _ _ _ _ inferInstance ?_
  refine .next fun _ => .next fun r => ?_
  cases r <;> dsimp only <;> infer_instance

instance (count is woken) : Moves R (futexWakeAmong uaddr count is woken) := by
  induction is generalizing woken with
  | nil | cons i is ih => unfold futexWakeAmong; infer_instance

end Scheduling

section

variable [Has .scheduler F] [Has .threadLife F] [Has .handles F]

set_option synthInstance.maxSize 100000 in
instance (context) : Moves (Touches F) (addThreadToProcess process context : RtM B ℕ) := by
  unfold addThreadToProcess
  infer_instance

instance (i t exitCode) : Moves (Touches F) (endThread i t exitCode : RtM B Unit) := by
  unfold endThread
  infer_instance

set_option synthInstance.maxSize 100000 in
instance : Moves (Touches F) (exitThread exitCode : RtM B Unit) := by
  unfold exitThread
  infer_instance

instance : Drivable R where
  addThread _ _ := inferInstance
  endThread _ _ _ := inferInstance
  exitThread _ := inferInstance

end

section Starting

variable [Drivable R] [∀ i owner, Moves R (modify (setOwner i owner) : RtM B Unit)]
  [∀ owner id rights, Moves R (grant owner (.thread id) rights : RtM B ℕ)]

end Starting

section Ending

variable [Calls R] [∀ i t exitCode, Moves R (endThread i t exitCode : RtM B Unit)]
  [∀ i, Moves R (modify (clearSlot i) : RtM B Unit)]
  [∀ object, Moves R (releaseRef object : RtM B (List ℕ))]

instance (p : Thread → Bool) (exitCode) : Moves R (endThreads id p exitCode) := by
  unfold endThreads
  infer_instance

set_option synthInstance.maxSize 100000 in
instance : Moves R (terminateProcess process exitCode) := by
  unfold terminateProcess
  infer_instance

set_option synthInstance.maxSize 100000 in
instance [Has .layout F] : Moves R (retireResources id) := by
  unfold retireResources
  infer_instance

variable [∀ id, Moves R (retireResources id : RtM B Unit)]

set_option synthInstance.maxSize 100000 in
instance : Moves R (retireProcess id) := by
  unfold retireProcess
  infer_instance

set_option synthInstance.maxSize 100000 in
instance : Moves R (discardCandidate process) := by
  unfold discardCandidate
  infer_instance

end Ending

/-! ### Handovers -/

set_option synthInstance.maxSize 100000 in
instance [∀ f, Moves R (modify (modifyHandover f) : RtM B Unit)] (handle) :
    Moves R (preserveMapping handle offset va size rights) := by
  unfold preserveMapping
  infer_instance

section Handovers

variable [Calls R] [∀ exitCode, Moves R (exitThread exitCode : RtM B Unit)]
  [∀ x : Session,
    Moves R (modify (modifyHandover fun h => { h with session := x }) : RtM B Unit)]

variable [∀ id, Moves R (retireProcess id : RtM B Unit)]
  [Moves R (modify fun s => { s with handover := none } : RtM B Unit)]

instance : Moves R (abortHandoverInternal) := by
  unfold abortHandoverInternal
  refine .next fun s => ?_
  split <;> infer_instance

instance : Moves R (abortHandover) := by
  unfold abortHandover
  infer_instance

instance : Moves R (pollHandover now) := by
  unfold pollHandover
  refine .next fun s => ?_
  split
  · infer_instance
  · refine .next fun r => ?_
    cases r <;> dsimp only <;> infer_instance

instance : Moves R (exitCurrentWithCode exitCode) := by
  unfold exitCurrentWithCode
  infer_instance

instance [Has .layout F] [∀ i owner, Moves R (modify (setOwner i owner) : RtM B Unit)]
    (h) : Moves R (movePreserved h) := by
  unfold movePreserved
  infer_instance

set_option synthInstance.maxSize 100000 in
instance [∀ h, Moves R (movePreserved h : RtM B Unit)] (h) : Moves R (finishHandover h) := by
  unfold finishHandover
  infer_instance

instance [∀ h, Moves R (finishHandover h : RtM B Unit)] : Moves R (commitHandover now) := by
  unfold commitHandover
  refine .next fun s => .next fun h => .next fun target => .next fun mapped => .next fun _ =>
    .next fun s => .next fun r => ?_
  cases r <;> dsimp only <;> infer_instance

end Handovers

end Processes

end Runtime

end Bexos
