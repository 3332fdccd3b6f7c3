/-
Half-open ranges of addresses.

* `Span.Disjoint`, `Span.Within` — two ranges share no address; one lies in the other;
* `spanOf` and the lemmas after it — a range given by two machine words, and the tests on
  words that decide `Disjoint` and `Within` as long as no end exceeds the last word.
-/
import Bexos.Words

namespace Bexos

/-- The addresses from `base` up to `base + size`. -/
structure Span where
  base : ℕ
  size : ℕ

namespace Span

def last (a : Span) : ℕ := a.base + a.size

def Disjoint (a b : Span) : Prop := a.last ≤ b.base ∨ b.last ≤ a.base
  deriving Decidable

def Within (a b : Span) : Prop := b.base ≤ a.base ∧ a.last ≤ b.last

theorem Disjoint.symm {a b : Span} (h : a.Disjoint b) : b.Disjoint a := Or.symm h

end Span

/-- A range given by two words. -/
def spanOf (base size : UInt64) : Span := ⟨base.toNat, size.toNat⟩

section Words

variable {base size base' size' : UInt64}

/-- The test for overlap on words. -/
theorem disjoint_iff_not_lt (h : (spanOf base size).last < 2 ^ 64)
    (h' : (spanOf base' size').last < 2 ^ 64) :
    (spanOf base size).Disjoint (spanOf base' size') ↔
      ¬ (base < base' + size' ∧ base' < base + size) := by
  simp only [spanOf, Span.last] at h h'
  rw [UInt64.lt_iff_toNat_lt, UInt64.lt_iff_toNat_lt, UInt64.toNat_add_of_lt h,
    UInt64.toNat_add_of_lt h']
  simp only [Span.Disjoint, spanOf, Span.last]
  omega

theorem satAdd_eq_add (h : (spanOf base size).last < 2 ^ 64) : base.satAdd size = base + size := by
  simp only [spanOf, Span.last] at h
  rw [← UInt64.toNat_inj, UInt64.toNat_satAdd_of_lt h, UInt64.toNat_add_of_lt h]

end Words

end Bexos
