/-
Copying a running kernel record by record: the bulk cursor and the set of changed records
(`runtime/incremental.rs`).

`Runtime.beginLiveSnapshot` starts to note changes and returns a cursor over the records
that exist; from then on `Runtime.changed` marks every record an operation changes, until
`Runtime.recordCopied` reports that its current contents have been sent.
-/
import Bexos.RuntimeRestricted

namespace Bexos

open Prog

/-- The kinds of records in the order in which they are copied. -/
def RecordKind.all : List RecordKind :=
  [.metadata, .process, .vmo, .handle, .channel, .pin, .socket, .thread, .vmar, .profile,
    .iommuDomain, .dmaMapping, .interrupt, .job]

/-- The records still to be copied in bulk: for each kind, the next slot and the number of
slots there were at the start. -/
structure BulkCursor where
  remaining : List (RecordKind × ℕ × ℕ)

namespace Runtime

variable {B : Type}

/-- The number of slots of a kind of record. -/
def recordCount (s : Runtime B) : RecordKind → ℕ
  | .metadata => 1
  | .process => s.processes.length
  | .vmo => s.vmos.length
  | .handle => s.handles.length
  | .channel => s.channels.length
  | .pin => s.pins.length
  | .socket => s.sockets.length
  | .thread => s.threads.length
  | .vmar => s.vmars.length
  | .profile => s.profiles.length
  | .iommuDomain => s.iommuDomains.length
  | .dmaMapping => s.dmaMappings.length
  | .interrupt => s.interrupts.length
  | .job => s.jobs.length

def beginLiveSnapshot (dirtyCapacity : ℕ) : RtM B BulkCursor := do
  let s ← get
  check (¬ (s.handover.isSome ∨ s.dirty.isSome)) .errAlreadyExists
  modify fun s => { s with dirty := some (DirtySet.new dirtyCapacity) }
  return ⟨RecordKind.all.map fun kind => (kind, 0, s.recordCount kind)⟩

def endLiveSnapshot : RtM B Unit := modify fun s => { s with dirty := none }

def recordCopied (key : RecordKey) : RtM B Unit :=
  modify fun s => { s with dirty := s.dirty.map (·.copied key) }

end Runtime

end Bexos
