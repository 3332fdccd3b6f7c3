/-
The operations of the scheduler that the runtime calls.

A program on the scheduler that does what one of the scheduler's own operations does
(`SchedCall`), so that what is known of the operations is known of the runtime's calls.
-/
import Bexos.SchedulerOps

namespace Bexos

open Prog

/-- A program on the scheduler that does what one of its operations does, to the tasks that
there are. -/
class SchedCall {α : Type} (x : SchedM α) : Prop where
  op : ∃ op : SchedOp, op.steady = true ∧ ∀ s, (x s).state? = Scheduler.step op s

namespace Scheduler

theorem state?_discard {α : Type} (x : SchedM α) (s : Scheduler) :
    (discard x s).state? = (x s).state? := by
  show (Prog.bind x (fun _ => pure ()) s).state? = _
  unfold Prog.bind
  cases x s <;> rfl

theorem schedCall {x} (op) (hop : op.steady = true := by rfl) (hx : exec op = x := by rfl) :
    SchedCall x :=
  ⟨op, hop, fun s => by rw [step, hx]⟩

/-- The operation that discards the result of a program does what the program does. -/
theorem schedCall_discard {α : Type} {x : SchedM α} (op : SchedOp)
    (hop : op.steady = true := by rfl) (hx : exec op = discard x := by rfl) : SchedCall x :=
  ⟨op, hop, fun s => by rw [step, hx, state?_discard]⟩

variable (id cpu processId : ℕ) (nowNs : UInt64)

instance (id) : SchedCall (ensureResourceGroup id) := schedCall (.ensureResourceGroup id)

instance (id parentId cpuShares maxUtilizationPermille allowRealtime) :
    SchedCall (ensureResourceGroupWithLimits id parentId cpuShares maxUtilizationPermille
      allowRealtime) :=
  schedCall (.ensureResourceGroupWithLimits id parentId cpuShares maxUtilizationPermille allowRealtime)

instance (reason) : SchedCall (blockCurrent reason) :=
  schedCall_discard (.blockCurrentOnCpu 0 reason)

instance : SchedCall (wakeTask id) := schedCall (.wakeTask id)

instance (handle signals) : SchedCall (wakeHandleWaiters handle signals) :=
  schedCall (.wakeHandleWaiters handle signals)

instance (exitCode) : SchedCall (exitTask id exitCode) := schedCall (.exitTask id exitCode)

instance (profile) : SchedCall (setProfile id profile) :=
  schedCall (.setProfile id profile)

instance (affinityMask) : SchedCall (setCpuAffinity id affinityMask) :=
  schedCall (.setCpuAffinity id affinityMask)

instance (owner priority) : SchedCall (donatePriority owner priority) :=
  schedCall (.donatePriority owner priority)

instance : SchedCall (restoreBasePriority id) := schedCall (.restoreBasePriority id)

instance : SchedCall tick := schedCall_discard .tick

instance : SchedCall (tickAtOnCpu cpu nowNs) := schedCall_discard (.tickAtOnCpu cpu nowNs)

instance (target) : SchedCall (yieldCurrentToOnCpu cpu target) :=
  schedCall_discard (.yieldCurrentToOnCpu cpu target)

instance (target) : SchedCall (yieldCurrentToAtOnCpu cpu target nowNs) :=
  schedCall_discard (.yieldCurrentToAtOnCpu cpu target nowNs)

instance : SchedCall (quiesceProcess processId) := schedCall (.quiesceProcess processId)

instance : SchedCall (resumeQuiescedProcess processId) :=
  schedCall (.resumeQuiescedProcess processId)

instance : SchedCall (stopProcess processId) := schedCall (.stopProcess processId)

instance : SchedCall (resumeStoppedProcess processId) := schedCall (.resumeStoppedProcess processId)

instance : SchedCall (modify (accountRuntime nowNs) : SchedM Unit) :=
  schedCall (.accountRuntime nowNs)

instance (thread) : SchedCall (modify (accountExecuting cpu thread nowNs) : SchedM Unit) :=
  schedCall (.accountExecuting cpu thread nowNs)

instance {α : Type} (c : Prop) [Decidable c] (x y : SchedM α) [hx : SchedCall x]
    [hy : SchedCall y] : SchedCall (if c then x else y) := by
  split
  · exact hx
  · exact hy

end Scheduler

end Bexos
