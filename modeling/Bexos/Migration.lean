/-
Migration sessions and change sets (`lib/migration/src/session.rs`, `dirty.rs`).

A `Session` walks through the phases of a handover under two deadlines; a `DirtySet`
collects, up to a capacity, the keys of records that changed since they were last copied.
-/
import Mathlib.Data.List.Sort
import Bexos.Outcome
import Bexos.Words

namespace Bexos

open Prog

inductive MigrationError where
  | badState | invalidData | unsupportedVersion | checksum | sequence | capacity | timedOut
  deriving DecidableEq

inductive Phase where
  | staged | bulk | catchUp | quiesced | ready | committed | reclaimed | aborted
  deriving DecidableEq

structure Timeouts where
  preparationMs : UInt64
  cutoverMs : UInt64
  deriving DecidableEq

/-- Times are monotonic milliseconds. -/
structure Session where
  generation : UInt64
  phase : Phase
  preparationDeadline : UInt64
  cutoverDeadline : Option UInt64
  timeouts : Timeouts
  lastTime : UInt64
  finalSequence : Option UInt64
  deriving DecidableEq

/-- Programs on a session. -/
abbrev SessionM := Prog Session MigrationError

namespace Session

def new (generation now : UInt64) (timeouts : Timeouts) : Except MigrationError Session :=
  if generation = 0 ∨ timeouts.preparationMs = 0 ∨ timeouts.cutoverMs = 0 then
    .error .invalidData
  else
    match now.checkedAdd timeouts.preparationMs with
    | none => .error .invalidData
    | some deadline =>
      .ok
        { generation, timeouts
          phase := .staged
          preparationDeadline := deadline
          cutoverDeadline := none
          lastTime := now
          finalSequence := none }

/-- Has one of the deadlines passed? -/
def timedOut (s : Session) (now : UInt64) : Bool :=
  now ≥ s.preparationDeadline || s.cutoverDeadline.any (now ≥ ·)

def poll (now : UInt64) : SessionM Unit := do
  let s ← get
  check (¬ now < s.lastTime) .invalidData
  modify fun s => { s with lastTime := now }
  if s.phase = .committed ∨ s.phase = .reclaimed then return ()
  else if s.phase = .aborted then fail .badState
  else if s.timedOut now then do
    modify fun s => { s with phase := .aborted }
    fail .timedOut
  else return ()

def advance (fromPhase toPhase : Phase) (now : UInt64) : SessionM Unit := do
  poll now
  let s ← get
  check (s.phase = fromPhase) .badState
  modify fun s => { s with phase := toPhase }

def beginBulk : UInt64 → SessionM Unit := advance .staged .bulk

def bulkComplete : UInt64 → SessionM Unit := advance .bulk .catchUp

def quiesce (sequence now : UInt64) : SessionM Unit := do
  let s ← get
  let deadline ← some? (now.checkedAdd s.timeouts.cutoverMs) .invalidData
  advance .catchUp .quiesced now
  modify fun s => { s with cutoverDeadline := some deadline, finalSequence := some sequence }

def ready (appliedSequence now : UInt64) : SessionM Unit := do
  poll now
  let s ← get
  check (s.finalSequence = some appliedSequence) .sequence
  advance .quiesced .ready now

def commit : UInt64 → SessionM Unit := advance .ready .committed

def reclaimed : UInt64 → SessionM Unit := advance .committed .reclaimed

def abort : SessionM Unit := do
  let s ← get
  check (¬ (s.phase = .committed ∨ s.phase = .reclaimed)) .badState
  modify fun s => { s with phase := .aborted }

end Session

/-! ### Change sets -/

/-- Keys of changed records, in increasing order. -/
structure DirtySet (κ : Type) where
  keys : List κ
  capacity : ℕ
  failed : Bool

namespace DirtySet

variable {κ : Type} [LT κ] [DecidableLT κ] [DecidableEq κ]

def new (capacity : ℕ) : DirtySet κ := { keys := [], capacity, failed := false }

/-- Insert a key in order, once. -/
def insertKey (key : κ) : List κ → List κ
  | [] => [key]
  | k :: ks =>
    if key < k then key :: k :: ks else if key = k then k :: ks else k :: insertKey key ks

def mark (key : κ) (d : DirtySet κ) : DirtySet κ :=
  let failed := d.failed || (d.keys.length ≥ d.capacity && key ∉ d.keys)
  { d with failed := failed, keys := if failed then d.keys else insertKey key d.keys }

def copied (key : κ) (d : DirtySet κ) : DirtySet κ :=
  { d with keys := d.keys.filter (· ≠ key) }

end DirtySet

end Bexos
