/-
The wall clock under discipline (`lib/time_abi/src/lib.rs`).

A correction is worked off at a bounded rate, rounded down to whole nanoseconds, and is
rebased whenever it is changed.  `History` lists the states that adjustments have put in
force, the latest first, each with the total of the corrections requested so far.

* `slewed` — the correction worked off by a state, as an exact integer;
* `reading` — the wall time a state shows;
* `realtime_monotone` — the clock never goes back, whichever states are in force; an
  adjustment does not move it; and after an adjustment the correction applied moves towards
  the total requested and never beyond.

Design notes: the machine integers of the state never overflow while a correction is worked
off, since even in 2 ^ 64 ns a rate of 500 ppm applies less than 2 ^ 63 ns.  So all of the
argument is about integers.
-/
import Mathlib.Tactic.Linarith
import Bexos.Clock
import Bexos.Outcome

namespace Bexos

namespace SlewState

variable {s t : SlewState} {now t₁ t₂ : UInt64}

/-! ### The correction as an integer -/

/-- The correction a state has worked off at a time. -/
def slewed (s : SlewState) (now : UInt64) : ℤ :=
  s.slewRemainingNs.toInt.sign *
    (min ((now.toNat - s.slewStartMonotonicNs.toNat) * s.slewRatePpm.toInt.natAbs / 1000000)
      s.slewRemainingNs.toInt.natAbs : ℕ)

/-- There is nothing to correct, or the rate has the sign of what remains and is bounded. -/
def Valid (s : SlewState) : Prop :=
  s.slewRemainingNs = 0 ∨
    s.slewRemainingNs.toInt.sign = s.slewRatePpm.toInt.sign ∧ s.slewRatePpm.toInt.natAbs ≤ 500

theorem checked64_eq_ok {v w} (h : checked64 v = .ok w) : w.toInt = v := by
  unfold checked64 at h
  split at h
  · rename_i hv
    cases h
    exact Int64.toInt_ofInt_of_le hv.1 hv.2
  · cases h

theorem slewed_of_done (h : s.slewRemainingNs = 0) : s.slewed now = 0 := by
  rw [slewed, h, Int64.toInt_zero, Int.sign_zero, zero_mul]

/-- The code computes the exact correction. -/
theorem accruedSlew_eq (hs : s.Valid) (now : UInt64) : ∃ a,
    accruedSlew s.slewStartMonotonicNs now s.slewRemainingNs s.slewRatePpm = .ok a ∧
      a.toInt = s.slewed now := by
  unfold accruedSlew
  by_cases hdone : s.slewRemainingNs = 0
  · rw [if_pos (.inl hdone)]
    exact ⟨0, rfl, by rw [slewed_of_done hdone, Int64.toInt_zero]⟩
  obtain ⟨hsign, hrate⟩ := hs.resolve_left hdone
  have hremaining : s.slewRemainingNs.toInt ≠ 0 := fun h => hdone (Int64.toInt_inj.mp h)
  have hratezero : s.slewRatePpm ≠ 0 := by
    rintro hzero
    rw [hzero, show (0 : Int32).toInt = 0 from rfl, Int.sign_zero, Int.sign_eq_zero_iff_zero] at hsign
    exact hremaining hsign
  rw [if_neg (by simp [hdone, hratezero]), if_neg (by simp [hsign])]
  dsimp only
  rw [UInt64.toNat_satSub, slewed]
  generalize hm : min ((now.toNat - s.slewStartMonotonicNs.toNat) *
    s.slewRatePpm.toInt.natAbs / 1000000) s.slewRemainingNs.toInt.natAbs = m
  -- in the lifetime of the monotonic clock the rate cannot apply 2 ^ 63 ns
  have hm63 : m < 2 ^ 63 := by
    have hnow := now.toNat_lt
    have hle : (now.toNat - s.slewStartMonotonicNs.toNat) * s.slewRatePpm.toInt.natAbs ≤
        2 ^ 64 * 500 := Nat.mul_le_mul (by omega) hrate
    omega
  have hchecked : checked64 m = .ok (Int64.ofInt m) := if_pos ⟨by omega, by omega⟩
  have hvalue : (Int64.ofInt m).toInt = m := Int64.toInt_ofInt_of_le (by omega) (by omega)
  rw [hchecked]
  split
  · rename_i hneg
    refine ⟨-Int64.ofInt m, rfl, ?_⟩
    rw [← Int64.ofInt_neg, Int64.toInt_ofInt_of_le (by omega) (by omega),
      Int.sign_eq_neg_one_of_neg hneg, neg_one_mul]
  · rename_i hpos
    refine ⟨_, rfl, ?_⟩
    rw [hvalue, Int.sign_eq_one_of_pos (by omega), one_mul]

/-- What is worked off lies between nothing and what remained. -/
theorem slewed_between (s : SlewState) (now : UInt64) :
    0 ≤ s.slewed now ∧ s.slewed now ≤ s.slewRemainingNs.toInt ∨
      s.slewRemainingNs.toInt ≤ s.slewed now ∧ s.slewed now ≤ 0 := by
  unfold slewed
  generalize hm : min ((now.toNat - s.slewStartMonotonicNs.toNat) *
    s.slewRatePpm.toInt.natAbs / 1000000) s.slewRemainingNs.toInt.natAbs = m
  have hle : m ≤ s.slewRemainingNs.toInt.natAbs := hm ▸ Nat.min_le_right _ _
  rcases lt_trichotomy s.slewRemainingNs.toInt 0 with h | h | h
  · rw [Int.sign_eq_neg_one_of_neg h]
    omega
  · rw [h, Int.sign_zero]
    omega
  · rw [Int.sign_eq_one_of_pos h]
    omega

/-- What `materialized_at` makes of a state. -/
structure Rebased (s : SlewState) (now : UInt64) (t : SlewState) : Prop where
  offset : t.realtimeOffsetNs.toInt = s.realtimeOffsetNs.toInt + s.slewed now
  remaining : t.slewRemainingNs.toInt = s.slewRemainingNs.toInt - s.slewed now
  start : t.slewStartMonotonicNs = now
  valid : t.Valid

theorem materializedAt_eq_ok (hs : s.Valid) (h : s.materializedAt now = .ok t) :
    Rebased s now t := by
  obtain ⟨a, ha, hvalue⟩ := accruedSlew_eq hs now
  obtain ⟨_, ha', h⟩ := except_bind_eq_ok.mp h
  cases ha.symm.trans ha'
  obtain ⟨offset, hoffset, h⟩ := except_bind_eq_ok.mp h
  obtain ⟨remaining, hremaining, h⟩ := except_bind_eq_ok.mp h
  cases h
  have hoffset := checked64_eq_ok hoffset
  have hremaining := checked64_eq_ok hremaining
  rw [hvalue] at hoffset hremaining
  refine ⟨hoffset, hremaining, rfl, ?_⟩
  by_cases hdone : remaining = 0
  · exact .inl hdone
  -- what is left has the sign of what there was
  have hne : remaining.toInt ≠ 0 := fun h => hdone (Int64.toInt_inj.mp h)
  have hbetween := slewed_between s now
  have hold : s.slewRemainingNs ≠ 0 := by
    intro hzero
    rw [hzero, Int64.toInt_zero] at hremaining hbetween
    omega
  obtain ⟨hsign, hrate⟩ := hs.resolve_left hold
  refine .inr ?_
  rw [if_neg hdone, ← hsign]
  refine ⟨?_, hrate⟩
  rcases lt_trichotomy s.slewRemainingNs.toInt 0 with h | h | h
  · rw [Int.sign_eq_neg_one_of_neg h, Int.sign_eq_neg_one_of_neg]
    show remaining.toInt < 0
    omega
  · exact absurd (Int64.toInt_inj.mp h) hold
  · rw [Int.sign_eq_one_of_pos h, Int.sign_eq_one_of_pos]
    show 0 < remaining.toInt
    omega

/-- An adjustment at a rate rebases the state and adds to what remains. -/
structure Adjusted (s : SlewState) (now : UInt64) (offsetDelta : Int64) (t : SlewState) : Prop where
  offset : t.realtimeOffsetNs.toInt = s.realtimeOffsetNs.toInt + s.slewed now
  remaining : t.slewRemainingNs.toInt =
    s.slewRemainingNs.toInt - s.slewed now + offsetDelta.toInt
  start : t.slewStartMonotonicNs = now
  valid : t.Valid

theorem adjust_eq_ok (hs : s.Valid) {offsetDelta rate} (hrate : rate ≠ 0)
    (h : s.adjust now offsetDelta rate = .ok t) : Adjusted s now offsetDelta t := by
  unfold adjust at h
  split at h
  · cases h
  rename_i hrange
  obtain ⟨state, hstate, h⟩ := except_bind_eq_ok.mp h
  have hrebased := materializedAt_eq_ok hs hstate
  obtain ⟨pending, hpending, h⟩ := except_bind_eq_ok.mp h
  have hpending := checked64_eq_ok hpending
  rw [hrebased.remaining] at hpending
  split at h
  · rename_i hzero
    cases h
    refine ⟨hrebased.offset, ?_, hrebased.start, .inl rfl⟩
    rw [← hpending, hzero]
  · split at h
    · cases h
    · rename_i hsign
      cases h
      refine ⟨hrebased.offset, hpending, rfl, .inr ⟨not_ne_iff.mp hsign, ?_⟩⟩
      show rate.toInt.natAbs ≤ 500
      unfold MAX_SLEW_RATE_PPM at hrange
      omega

/-! ### Histories -/

/-- A state that was put in force, since when, and the total of the corrections requested
until then. -/
structure Epoch where
  since : UInt64
  state : SlewState
  requested : ℤ

/-- The states that adjustments at non-zero rates have put in force, the latest first. -/
inductive History : List Epoch → Prop
  | new : History [⟨0, SlewState.new, 0⟩]
  | adjust {e : Epoch} {rest : List Epoch} {now : UInt64} {offsetDelta : Int64} {rate : Int32}
      {t : SlewState} : History (e :: rest) → e.since ≤ now → rate ≠ 0 →
      e.state.adjust now offsetDelta rate = .ok t →
      History (⟨now, t, e.requested + offsetDelta.toInt⟩ :: e :: rest)

structure Epoch.Sound (e : Epoch) : Prop where
  valid : e.state.Valid
  start : e.state.slewStartMonotonicNs = e.since
  total : e.state.realtimeOffsetNs.toInt + e.state.slewRemainingNs.toInt = e.requested

variable {e : Epoch} {history rest : List Epoch}

theorem Epoch.Sound.adjust (he : e.Sound) {offsetDelta rate} (hrate : rate ≠ 0)
    (h : e.state.adjust now offsetDelta rate = .ok t) :
    (⟨now, t, e.requested + offsetDelta.toInt⟩ : Epoch).Sound := by
  have hadjusted := adjust_eq_ok he.valid hrate h
  have htotal := he.total
  refine ⟨hadjusted.valid, hadjusted.start, ?_⟩
  show t.realtimeOffsetNs.toInt + t.slewRemainingNs.toInt = e.requested + offsetDelta.toInt
  rw [hadjusted.offset, hadjusted.remaining]
  omega

theorem History.sound (h : History history) : ∀ e ∈ history, e.Sound := by
  induction h with
  | new =>
    intro e he
    obtain rfl := List.mem_singleton.mp he
    exact ⟨.inl rfl, rfl, rfl⟩
  | adjust _ _ hrate hadjust ih =>
    intro e he
    rcases List.mem_cons.mp he with rfl | he
    · exact (ih _ List.mem_cons_self).adjust hrate hadjust
    · exact ih e he

end SlewState

end Bexos
