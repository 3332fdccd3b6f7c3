/-
Bitmaps in words of 64 bits.

`Bitmap.test`, `Bitmap.set` and `Bitmap.setRange` read and write the bits of a list of words
through masks.  Each write has one lemma that says which bits a later read finds; nothing
else about masks is needed.
-/
import Mathlib.Data.List.Basic
import Mathlib.Tactic.Common

namespace Bexos

namespace Bitmap

def test (words : List UInt64) (i : ℕ) : Bool :=
  words.getD (i / 64) 0 &&& (1 <<< UInt64.ofNat (i % 64)) != 0

/-- Set or clear the bits of a mask. -/
def write (mask : UInt64) (value : Bool) (w : UInt64) : UInt64 :=
  if value then w ||| mask else w &&& ~~~mask

def set (words : List UInt64) (i : ℕ) (value : Bool) : List UInt64 :=
  words.modify (i / 64) (write (1 <<< UInt64.ofNat (i % 64)) value)

def allOnes : UInt64 := 0xffff_ffff_ffff_ffff

/-- The part of the range from `start` to `finish` that lies in a word. -/
def rangeMask (start finish word : ℕ) : UInt64 :=
  let bitStart := min (start - word * 64) 64
  let bitEnd := min (finish - word * 64) 64
  let low : UInt64 := if bitStart = 0 then allOnes else allOnes <<< UInt64.ofNat bitStart
  let high : UInt64 := if bitEnd = 64 then allOnes else (1 <<< UInt64.ofNat bitEnd) - 1
  low &&& high

def setRange (words : List UInt64) (start finish : ℕ) (value : Bool) : List UInt64 :=
  if start ≥ finish then words
  else
    words.mapIdx fun word w =>
      if start / 64 ≤ word ∧ word ≤ (finish - 1) / 64 then
        write (rangeMask start finish word) value w
      else w

variable {words : List UInt64} {i j : ℕ} {value : Bool}

@[simp] theorem length_set : (set words i value).length = words.length := List.length_modify ..

variable {finish start b c : ℕ}

@[simp] theorem length_setRange :
    (setRange words start finish value).length = words.length := by
  unfold setRange
  split
  · rfl
  · exact List.length_mapIdx

/-! ### Single bits -/

/-- The bit of a word. -/
def bit (w : UInt64) (b : ℕ) : Bool := w.toBitVec.getLsbD b

theorem toBitVec_mask (hb : b < 64) :
    ((1 : UInt64) <<< UInt64.ofNat b).toBitVec = BitVec.twoPow 64 b := by
  rw [UInt64.toBitVec_shiftLeft, BitVec.twoPow_eq]
  simp only [UInt64.toBitVec_ofNat, UInt64.toBitVec_ofNat', BitVec.shiftLeft_eq',
    BitVec.toNat_umod, BitVec.toNat_ofNat]
  rw [Nat.mod_eq_of_lt (by omega : b < 2 ^ 64), Nat.mod_eq_of_lt (by simpa using hb)]

theorem bit_allOnes (hb : b < 64) : bit allOnes b = true := by
  have hones : allOnes.toBitVec = BitVec.allOnes 64 := by decide
  rw [bit, hones, BitVec.getLsbD_allOnes, decide_eq_true hb]

theorem bit_mask (hb : b < 64) : bit ((1 : UInt64) <<< UInt64.ofNat b) c = decide (c = b) := by
  rw [bit, toBitVec_mask hb, BitVec.getLsbD_twoPow, decide_eq_true hb, Bool.true_and]
  exact decide_eq_decide.mpr eq_comm

theorem test_eq_bit : test words i = bit (words.getD (i / 64) 0) (i % 64) := by
  have hb : i % 64 < 64 := Nat.mod_lt _ (by decide)
  unfold test bit
  generalize words.getD (i / 64) 0 = w
  have hand : (w &&& (1 <<< UInt64.ofNat (i % 64))).toBitVec =
      if w.toBitVec.getLsbD (i % 64) then BitVec.twoPow 64 (i % 64) else 0#64 := by
    rw [UInt64.toBitVec_and, toBitVec_mask hb, BitVec.and_twoPow]
  by_cases hbit : w.toBitVec.getLsbD (i % 64) = true
  · rw [hbit, bne_iff_ne]
    intro hzero
    rw [hzero, if_pos hbit] at hand
    have hbits := congrArg (·.getLsbD (i % 64)) hand
    simp [hb] at hbits
  · rw [if_neg hbit] at hand
    rw [UInt64.toBitVec_inj.mp hand, Bool.eq_false_iff.mpr hbit]
    rfl

theorem bit_write {mask w} :
    bit (write mask value w) b = if bit mask b then value else bit w b := by
  unfold write bit
  cases value with
  | true =>
    rw [if_pos rfl, UInt64.toBitVec_or, BitVec.getLsbD_or]
    cases mask.toBitVec.getLsbD b <;> simp
  | false =>
    rw [if_neg Bool.false_ne_true, UInt64.toBitVec_and, UInt64.toBitVec_not, BitVec.getLsbD_and,
      BitVec.getLsbD_not]
    cases hmask : mask.toBitVec.getLsbD b with
    | true => simp
    | false =>
      by_cases hb : b < 64
      · simp [hb]
      · simp [hb, BitVec.getLsbD_of_ge w.toBitVec b (by omega)]

theorem test_set (hi : i / 64 < words.length) :
    test (set words i value) j = if j = i then value else test words j := by
  have hib : i % 64 < 64 := Nat.mod_lt _ (by decide)
  rw [test_eq_bit, test_eq_bit, set, List.getD_eq_getElem?_getD, List.getD_eq_getElem?_getD,
    List.getElem?_modify]
  by_cases hword : i / 64 = j / 64
  · simp only [hword, if_true]
    rw [← hword, List.getElem?_eq_getElem hi]
    show bit (write _ value _) _ = _
    rw [bit_write, bit_mask hib]
    by_cases hbit : j % 64 = i % 64
    · have hij : j = i := by omega
      rw [if_pos hij, if_pos (decide_eq_true hbit)]
    · have hij : j ≠ i := fun h => hbit (h ▸ rfl)
      rw [if_neg hij, if_neg (by simpa using hbit)]
      rfl
  · have hij : j ≠ i := fun h => hword (h ▸ rfl)
    simp only [hword, if_false, id_map', if_neg hij]

/-! ### Ranges -/

theorem bit_shifted (hb : b < 64) (hc : c < 64) :
    bit (allOnes <<< UInt64.ofNat b) c = decide (b ≤ c) := by
  have hones : allOnes.toBitVec = BitVec.allOnes 64 := by decide
  rw [bit, UInt64.toBitVec_shiftLeft, hones]
  simp only [UInt64.toBitVec_ofNat', BitVec.shiftLeft_eq', BitVec.toNat_umod, BitVec.toNat_ofNat]
  rw [Nat.mod_eq_of_lt (by omega : b < 2 ^ 64), show (64 : BitVec 64).toNat = 64 from rfl,
    Nat.mod_eq_of_lt hb, BitVec.getLsbD_shiftLeft, BitVec.getLsbD_allOnes, decide_eq_true hc,
    decide_eq_true (by omega : c - b < 64), Bool.true_and, Bool.and_true, ← decide_not]
  exact decide_eq_decide.mpr Nat.not_lt

theorem bit_below (hb : b < 64) : bit ((1 <<< UInt64.ofNat b) - 1) c = decide (c < b) := by
  have hpow : ((1 : UInt64) <<< UInt64.ofNat b).toNat = 2 ^ b := by
    rw [← UInt64.toNat_toBitVec, toBitVec_mask hb, BitVec.toNat_twoPow]
    exact Nat.mod_eq_of_lt (Nat.pow_lt_pow_right (by decide) hb)
  have hle : (1 : UInt64) ≤ 1 <<< UInt64.ofNat b := by
    rw [UInt64.le_iff_toNat_le, hpow]
    exact Nat.one_le_two_pow
  rw [bit, BitVec.getLsbD, UInt64.toNat_toBitVec, UInt64.toNat_sub_of_le _ _ hle, hpow]
  exact Nat.testBit_two_pow_sub_one b c

theorem bit_rangeMask {word} (hb : b < 64) (hword : start / 64 ≤ word) :
    bit (rangeMask start finish word) b =
      decide (start ≤ word * 64 + b ∧ word * 64 + b < finish) := by
  unfold rangeMask
  dsimp only
  have hlow : bit (if min (start - word * 64) 64 = 0 then allOnes
      else allOnes <<< UInt64.ofNat (min (start - word * 64) 64)) b =
      decide (start ≤ word * 64 + b) := by
    split
    · rw [bit_allOnes hb]
      exact (decide_eq_true (by omega)).symm
    · rw [bit_shifted (by omega) hb]
      exact decide_eq_decide.mpr (by omega)
  have hhigh : bit (if min (finish - word * 64) 64 = 64 then allOnes
      else (1 <<< UInt64.ofNat (min (finish - word * 64) 64)) - 1) b =
      decide (word * 64 + b < finish) := by
    split
    · rw [bit_allOnes hb]
      exact (decide_eq_true (by omega)).symm
    · rw [bit_below (by omega)]
      exact decide_eq_decide.mpr (by omega)
  have hand : ∀ v w : UInt64, bit (v &&& w) b = (bit v b && bit w b) := fun v w => by
    rw [bit, UInt64.toBitVec_and, BitVec.getLsbD_and]
    rfl
  rw [hand, hlow, hhigh, Bool.decide_and]

/-- A range is written exactly, across words. -/
theorem test_setRange (hfinish : finish ≤ 64 * words.length) :
    test (setRange words start finish value) i =
      if start ≤ i ∧ i < finish then value else test words i := by
  have hb : i % 64 < 64 := Nat.mod_lt _ (by decide)
  have hi : i / 64 * 64 + i % 64 = i := Nat.div_add_mod' i 64
  unfold setRange
  split
  · rw [if_neg (by omega)]
  · rw [test_eq_bit, test_eq_bit, List.getD_eq_getElem?_getD, List.getD_eq_getElem?_getD,
      List.getElem?_mapIdx]
    by_cases hlen : i / 64 < words.length
    · rw [List.getElem?_eq_getElem hlen, Option.map_some, Option.getD_some]
      split
      · rename_i hword
        rw [bit_write, bit_rangeMask hb hword.1, hi]
        by_cases hrange : start ≤ i ∧ i < finish
        · rw [if_pos (decide_eq_true hrange), if_pos hrange]
        · rw [if_neg (by simpa using hrange), if_neg hrange]
          rfl
      · rw [if_neg (by omega)]
        rfl
    · rw [List.getElem?_eq_none (by omega), if_neg (by omega)]
      rfl

end Bitmap

end Bexos
