/-
The disciplined wall clock (`lib/time_abi/src/lib.rs`).

`SlewState` holds the offset of real time from monotonic time and a correction that is
still being worked off at a bounded rate.
-/
import Mathlib.Data.Int.Basic
import Mathlib.Tactic.Common
import Bexos.Words

namespace Bexos

def MAX_SLEW_RATE_PPM : ℤ := 500

structure SlewState where
  realtimeOffsetNs : Int64
  slewStartMonotonicNs : UInt64
  slewRemainingNs : Int64
  slewRatePpm : Int32
  deriving DecidableEq

namespace SlewState

inductive Error where
  | invalidRate | directionMismatch | overflow
  deriving DecidableEq

/-- A 64-bit integer with the given value, if there is one. -/
def checked64 (v : ℤ) : Except Error Int64 :=
  if -2 ^ 63 ≤ v ∧ v < 2 ^ 63 then .ok (Int64.ofInt v) else .error .overflow

def new : SlewState := ⟨0, 0, 0, 0⟩

/-- The part of a correction that has been applied by a given time. -/
def accruedSlew (start now : UInt64) (remaining : Int64) (rate : Int32) : Except Error Int64 :=
  if remaining = 0 ∨ rate = 0 then .ok 0
  else if remaining.toInt.sign ≠ rate.toInt.sign then .error .directionMismatch
  else
    let elapsed := (now.satSub start).toNat
    let magnitude := min (elapsed * rate.toInt.natAbs / 1000000) remaining.toInt.natAbs
    if remaining.toInt < 0 then checked64 magnitude |>.map (- ·) else checked64 magnitude

def materializedAt (s : SlewState) (now : UInt64) : Except Error SlewState := do
  let applied ← accruedSlew s.slewStartMonotonicNs now s.slewRemainingNs s.slewRatePpm
  let offset ← checked64 (s.realtimeOffsetNs.toInt + applied.toInt)
  let remaining ← checked64 (s.slewRemainingNs.toInt - applied.toInt)
  .ok
    { realtimeOffsetNs := offset
      slewRemainingNs := remaining
      slewStartMonotonicNs := now
      slewRatePpm := if remaining = 0 then 0 else s.slewRatePpm }

def adjust (s : SlewState) (now : UInt64) (offsetDelta : Int64) (rate : Int32) :
    Except Error SlewState := do
  if rate.toInt < -MAX_SLEW_RATE_PPM ∨ MAX_SLEW_RATE_PPM < rate.toInt then
    .error .invalidRate
  else
    let state ← s.materializedAt now
    if rate = 0 then
      let offset ← checked64 (state.realtimeOffsetNs.toInt + offsetDelta.toInt)
      return { state with realtimeOffsetNs := offset, slewRemainingNs := 0, slewRatePpm := 0 }
    else
      let pending ← checked64 (state.slewRemainingNs.toInt + offsetDelta.toInt)
      if pending = 0 then
        return { state with slewRemainingNs := 0, slewRatePpm := 0 }
      else if pending.toInt.sign ≠ rate.toInt.sign then .error .directionMismatch
      else
        .ok
          { state with
            slewRemainingNs := pending
            slewRatePpm := rate
            slewStartMonotonicNs := now }

end SlewState

end Bexos
