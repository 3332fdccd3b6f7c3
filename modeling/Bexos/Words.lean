/-
Fixed-width arithmetic as the machine does it, and tables of optional entries.

* `checkedAdd`, `checkedMul`, `satAdd`, `satSub`, `satMul` — arithmetic on 64-bit words
  that reports overflow or stops at the bounds; each has one lemma about `toNat`, so that
  goals about words become linear goals about natural numbers;
* `updateFirst`, `minByKey`, `swapRemove` — the list operations behind a mutable search,
  a minimum by key and an unordered removal;
* `firstFree`, `putSlot` — a table whose vacant entries are filled before it grows.
-/
import Mathlib.Data.List.Basic
import Mathlib.Data.List.Count
import Mathlib.Data.List.Nodup
import Mathlib.Data.List.Perm.Basic
import Mathlib.Tactic.Ring

/-! ### Words -/

namespace UInt64

variable {a b : UInt64}

/-- Addition that reports overflow. -/
def checkedAdd (a b : UInt64) : Option UInt64 :=
  if a.toNat + b.toNat < 2 ^ 64 then some (a + b) else none

/-- Subtraction that reports underflow. -/
def checkedSub (a b : UInt64) : Option UInt64 :=
  if b ≤ a then some (a - b) else none

/-- Multiplication that reports overflow. -/
def checkedMul (a b : UInt64) : Option UInt64 :=
  if a.toNat * b.toNat < 2 ^ 64 then some (a * b) else none

def maxValue : UInt64 := 0xffff_ffff_ffff_ffff

/-- Addition that stops at the largest word. -/
def satAdd (a b : UInt64) : UInt64 := (checkedAdd a b).getD maxValue

/-- Subtraction that stops at zero. -/
def satSub (a b : UInt64) : UInt64 := (checkedSub a b).getD 0

/-- Multiplication that stops at the largest word. -/
def satMul (a b : UInt64) : UInt64 := (checkedMul a b).getD maxValue

theorem checkedAdd_eq_some {c} : checkedAdd a b = some c ↔ c.toNat = a.toNat + b.toNat := by
  have hc : c.toNat < 2 ^ 64 := c.toNat_lt
  unfold checkedAdd
  by_cases h : a.toNat + b.toNat < 2 ^ 64
  · rw [if_pos h, Option.some_inj, ← UInt64.toNat_inj, UInt64.toNat_add, Nat.mod_eq_of_lt h]
    exact eq_comm
  · rw [if_neg h]
    constructor
    · intro hn; cases hn
    · intro hn; omega

theorem checkedAdd_of_lt (h : a.toNat + b.toNat < 2 ^ 64) :
    checkedAdd a b = some (a + b) := if_pos h

theorem toNat_add_of_lt (h : a.toNat + b.toNat < 2 ^ 64) : (a + b).toNat = a.toNat + b.toNat := by
  rw [UInt64.toNat_add, Nat.mod_eq_of_lt h]

theorem toNat_satAdd_of_lt (h : a.toNat + b.toNat < 2 ^ 64) :
    (a.satAdd b).toNat = a.toNat + b.toNat := by
  rw [satAdd, checkedAdd, if_pos h, Option.getD_some, toNat_add_of_lt h]

theorem toNat_satAdd_le (a b : UInt64) : (a.satAdd b).toNat ≤ a.toNat + b.toNat := by
  by_cases h : a.toNat + b.toNat < 2 ^ 64
  · rw [toNat_satAdd_of_lt h]
  · exact (toNat_lt _).le.trans (Nat.not_lt.mp h)

theorem le_satAdd_of_le {n} (h : n.toNat ≤ a.toNat + b.toNat) : n ≤ a.satAdd b := by
  rw [le_iff_toNat_le]
  by_cases hsum : a.toNat + b.toNat < 2 ^ 64
  · rwa [toNat_satAdd_of_lt hsum]
  · rw [satAdd, checkedAdd, if_neg hsum, Option.getD_none]
    exact Nat.le_of_lt_succ n.toNat_lt

/-- A sum that stops at the greatest word is still ahead of every other word that it exceeds. -/
theorem lt_satAdd {n} (hn : n ≠ maxValue) (h : n.toNat < a.toNat + b.toNat) : n < a.satAdd b := by
  rw [lt_iff_toNat_lt]
  by_cases hsum : a.toNat + b.toNat < 2 ^ 64
  · rw [toNat_satAdd_of_lt hsum]
    exact h
  · rw [satAdd, checkedAdd, if_neg hsum, Option.getD_none]
    have hle : n.toNat ≤ maxValue.toNat := Nat.le_of_lt_succ n.toNat_lt
    exact Nat.lt_of_le_of_ne hle fun heq => hn (UInt64.toNat_inj.mp heq)

theorem toNat_satSub (a b : UInt64) : (a.satSub b).toNat = a.toNat - b.toNat := by
  unfold satSub checkedSub
  split
  · rename_i hle
    rw [Option.getD_some, UInt64.toNat_sub_of_le _ _ hle]
  · rename_i hlt
    have hlt : a.toNat < b.toNat := UInt64.lt_iff_toNat_lt.mp (UInt64.not_le.mp hlt)
    rw [Option.getD_none, Nat.sub_eq_zero_of_le hlt.le]
    rfl

theorem toNat_satMul_of_lt (h : a.toNat * b.toNat < 2 ^ 64) :
    (a.satMul b).toNat = a.toNat * b.toNat := by
  rw [satMul, checkedMul, if_pos h, Option.getD_some, UInt64.toNat_mul, Nat.mod_eq_of_lt h]

end UInt64

namespace UInt32

theorem not_or (a b : UInt32) : ~~~(a ||| b) = ~~~a &&& ~~~b := by
  apply UInt32.toBitVec_inj.mp
  apply BitVec.eq_of_getLsbD_eq
  intro i hi
  simp [hi]

theorem and_or (a b c : UInt32) : a &&& (b ||| c) = (a &&& b) ||| (a &&& c) := by
  apply UInt32.toBitVec_inj.mp
  apply BitVec.eq_of_getLsbD_eq
  intro i hi
  simp [Bool.and_or_distrib_left]

/-- A mask of one bit finds all of itself or nothing. -/
theorem and_twoPow (a : UInt32) (i : ℕ) :
    a &&& ⟨BitVec.twoPow 32 i⟩ = 0 ∨ a &&& ⟨BitVec.twoPow 32 i⟩ = ⟨BitVec.twoPow 32 i⟩ := by
  have hmask : (a &&& ⟨BitVec.twoPow 32 i⟩).toBitVec =
      if a.toBitVec.getLsbD i then BitVec.twoPow 32 i else 0#32 := BitVec.and_twoPow _ _
  by_cases hbit : a.toBitVec.getLsbD i
  · rw [if_pos hbit] at hmask
    exact .inr (UInt32.toBitVec_inj.mp hmask)
  · rw [if_neg hbit] at hmask
    exact .inl (UInt32.toBitVec_inj.mp hmask)

end UInt32

/-! ### Lists -/

namespace Bexos

section Lists

variable {α β : Type} {as : List α} {a : α} {κ : Type}
  {i : ℕ} {f g : α → α} {p : α → Bool} {k : α → κ} {xs : List α}

theorem modify_eq_set_of_getElem? (f : α → α) (h : xs[i]? = some a) :
    xs.modify i f = xs.set i (f a) := by
  obtain ⟨hi, rfl⟩ := getElem?_eq_some_iff.mp h
  refine List.ext_getElem? fun j => ?_
  rw [List.getElem?_modify, List.getElem?_set]
  by_cases hij : i = j
  · subst hij
    simp [hi]
  · simp [hij]

/-- Change the first member that satisfies `p`. -/
def updateFirst (p : α → Bool) (f : α → α) : List α → List α
  | [] => []
  | a :: as => if p a then f a :: as else a :: updateFirst p f as

theorem updateFirst_cons (p : α → Bool) (f : α → α) (a as) :
    updateFirst p f (a :: as) = if p a then f a :: as else a :: updateFirst p f as := rfl

theorem map_updateFirst (p : α → Bool) {g : α → β} (h : ∀ a, g (f a) = g a) (as) :
    (updateFirst p f as).map g = as.map g := by
  induction as with
  | nil => rfl
  | cons a as ih =>
    rw [updateFirst_cons]
    split
    · rw [List.map_cons, List.map_cons, h]
    · rw [List.map_cons, List.map_cons, ih]

theorem mem_updateFirst {b} (h : b ∈ updateFirst p f as) : b ∈ as ∨ ∃ a ∈ as, b = f a := by
  induction as with
  | nil => exact .inl h
  | cons a as ih =>
    rw [updateFirst_cons] at h
    split at h
    · rcases List.mem_cons.mp h with hb | hmem
      · exact .inr ⟨a, List.mem_cons_self, hb⟩
      · exact .inl (List.mem_cons_of_mem a hmem)
    · rcases List.mem_cons.mp h with hb | hmem
      · exact .inl (hb ▸ List.mem_cons_self)
      · exact (ih hmem).imp (List.mem_cons_of_mem a) fun ⟨c, hc, hb⟩ =>
          ⟨c, List.mem_cons_of_mem a hc, hb⟩

theorem updateFirst_congr (ha : as.find? p = some a) (hfg : f a = g a) :
    updateFirst p f as = updateFirst p g as := by
  induction as with
  | nil => rfl
  | cons b as ih =>
    rw [List.find?_cons] at ha
    rw [updateFirst_cons, updateFirst_cons]
    split at ha
    · rename_i hb
      rw [Option.some.inj ha, if_pos (Option.some.inj ha ▸ hb), if_pos (Option.some.inj ha ▸ hb), hfg]
    · rename_i hb
      rw [if_neg (by rw [hb]; decide), if_neg (by rw [hb]; decide), ih ha]

theorem updateFirst_updateFirst (hf : ∀ a, p a → p (f a)) (as) :
    updateFirst p g (updateFirst p f as) = updateFirst p (fun a => g (f a)) as := by
  induction as with
  | nil => rfl
  | cons a as ih =>
    by_cases ha : p a
    · rw [updateFirst_cons, if_pos ha, updateFirst_cons, if_pos (hf a ha), updateFirst_cons, if_pos ha]
    · rw [updateFirst_cons, if_neg ha, updateFirst_cons, if_neg ha, updateFirst_cons, if_neg ha, ih]

/-- Looking up a key after the entry of a key was changed. -/
theorem find?_updateFirst [DecidableEq κ] (h : ∀ a, k (f a) = k a) (i j : κ) (as : List α) :
    (updateFirst (k · == i) f as).find? (k · == j) =
      if j = i then (as.find? (k · == j)).map f else as.find? (k · == j) := by
  induction as with
  | nil => simp [updateFirst]
  | cons a as ih =>
    rw [updateFirst_cons]
    by_cases hi : k a = i <;> by_cases hj : k a = j <;>
      simp only [hi, hj, h, ih, List.find?_cons, beq_self_eq_true, beq_iff_eq, if_true, if_false,
        Option.map_some]
    all_goals grind

theorem find?_map_key [DecidableEq κ] (h : ∀ a, k (f a) = k a) (i : κ) (as : List α) :
    (as.map f).find? (k · == i) = (as.find? (k · == i)).map f := by
  rw [List.find?_map]
  refine congrArg (Option.map f) (congrArg (as.find? ·) ?_)
  funext a
  exact congrArg (· == i) (h a)

/-- Changing the entry of a key, where keys are unique. -/
theorem updateFirst_eq_map [DecidableEq κ] (i : κ) (hkeys : (as.map k).Nodup) :
    updateFirst (k · == i) f as = as.map fun a => if k a = i then f a else a := by
  induction as with
  | nil => rfl
  | cons a as ih =>
    rw [List.map_cons, List.nodup_cons] at hkeys
    rw [updateFirst_cons, List.map_cons]
    by_cases ha : k a = i
    · rw [if_pos (beq_iff_eq.mpr ha), if_pos ha]
      refine congrArg (f a :: ·) ((List.map_id as).symm.trans (List.map_congr_left fun b hb => ?_))
      have hb : k b ≠ i := fun hbi => hkeys.1 (ha.trans hbi.symm ▸ List.mem_map_of_mem hb)
      rw [if_neg hb]
      rfl
    · rw [if_neg fun h => ha (beq_iff_eq.mp h), if_neg ha, ih hkeys.2]

/-- Keys that occur once find their member. -/
theorem find?_of_mem [DecidableEq κ] (hkeys : (as.map k).Nodup) (ha : a ∈ as) :
    as.find? (k · == k a) = some a := by
  induction as with
  | nil => cases ha
  | cons b as ih =>
    rw [List.map_cons, List.nodup_cons] at hkeys
    rw [List.find?_cons]
    by_cases hb : k b = k a
    · rcases List.mem_cons.mp ha with rfl | hmem
      · simp
      · exact absurd (hb ▸ List.mem_map_of_mem hmem) hkeys.1
    · rcases List.mem_cons.mp ha with rfl | hmem
      · exact absurd rfl hb
      · rw [beq_eq_false_iff_ne.mpr hb]
        exact ih hkeys.2 hmem

/-- A new entry with a key of its own. -/
theorem nodup_map_concat (h : (as.map k).Nodup) (hnew : k a ∉ as.map k) :
    ((as ++ [a]).map k).Nodup := by
  rw [List.map_append, List.map_singleton]
  refine List.nodup_append.mpr ⟨h, List.nodup_singleton _, ?_⟩
  rintro key hkey _ hlast rfl
  rw [List.mem_singleton] at hlast
  exact hnew (hlast ▸ hkey)

/-- The first member with the least key. -/
def minByKey (key : α → UInt64) : List α → Option α
  | [] => none
  | a :: as =>
    match minByKey key as with
    | none => some a
    | some b => if key b < key a then some b else some a

theorem minByKey_mem (key : α → UInt64) (h : minByKey key as = some a) : a ∈ as := by
  induction as with
  | nil => cases h
  | cons b as ih =>
    rw [minByKey] at h
    split at h
    · exact Option.some.inj h ▸ List.mem_cons_self
    · rename_i c hc
      split at h
      · exact List.mem_cons_of_mem _ (ih (hc.trans h))
      · exact Option.some.inj h ▸ List.mem_cons_self

/-- Remove the entry at an index by moving the last entry into its place. -/
def swapRemove (xs : List α) (i : ℕ) : List α :=
  match xs.getLast? with
  | none => xs
  | some last => (xs.set i last).dropLast

/-- An unordered removal removes one entry and nothing else. -/
theorem swapRemove_perm (h : xs[i]? = some a) : xs.Perm (a :: swapRemove xs i) := by
  obtain ⟨hi, rfl⟩ := getElem?_eq_some_iff.mp h
  rcases List.eq_nil_or_concat xs with rfl | ⟨ys, last, rfl⟩
  · cases hi
  simp only [List.concat_eq_append] at hi ⊢
  have hs : swapRemove (ys ++ [last]) i = ((ys ++ [last]).set i last).dropLast := by
    simp [swapRemove]
  rw [hs]
  by_cases hlast : i = ys.length
  · subst hlast
    simp
  · have hi' : i < ys.length := by
      rw [List.length_append, List.length_singleton] at hi
      omega
    rw [List.set_append_left _ _ hi', List.dropLast_concat, List.getElem_append_left hi']
    calc (ys ++ [last]).Perm (last :: ys) := List.perm_append_singleton last ys
      _ |>.Perm (last :: ys[i] :: ys.eraseIdx i) :=
        ((List.getElem_cons_eraseIdx_perm hi').symm).cons _
      _ |>.Perm (ys[i] :: last :: ys.eraseIdx i) := List.Perm.swap _ _ _
      _ |>.Perm (ys[i] :: ys.set i last) := ((List.set_perm_cons_eraseIdx hi' last).symm).cons _

/-- The first vacant index of a table, or its length. -/
def firstFree (xs : List (Option α)) : ℕ :=
  xs.findIdx (·.isNone)

/-- Put an entry at an index of a table, or at its end. -/
def putSlot (xs : List (Option α)) (i : ℕ) (a : α) : List (Option α) :=
  if i < xs.length then xs.set i (some a) else xs ++ [some a]

theorem firstFree_le (xs : List (Option α)) : firstFree xs ≤ xs.length := List.findIdx_le_length

theorem firstFree_vacant (xs : List (Option α)) : (xs[firstFree xs]?).join = none := by
  by_cases h : firstFree xs < xs.length
  · have hnone := List.findIdx_getElem (w := h)
    rw [List.getElem?_eq_getElem h, Option.join_some]
    exact Option.isNone_iff_eq_none.mp hnone
  · rw [List.getElem?_eq_none (Nat.not_lt.mp h)]
    rfl

theorem getElem?_of_map_eq {β γ : Type*} {f : α → γ} {g : β → γ} {bs : List β}
    (h : as.map f = bs.map g) (i : ℕ) : (as[i]?).map f = (bs[i]?).map g := by
  rw [← List.getElem?_map, h, List.getElem?_map]

theorem map_of_map_eq {β γ δ : Type*} {f : α → γ} {f' : β → γ} {bs : List β}
    (h : as.map f = bs.map f') (g : γ → δ) : as.map (g ∘ f) = bs.map (g ∘ f') := by
  rw [← List.map_map, h, List.map_map]

theorem exists_of_map_eq {β γ : Type*} {f : α → γ} {g : β → γ} {o p} (h : o.map f = p.map g)
    (ha : o = some a) : ∃ b, p = some b ∧ g b = f a := by
  rw [ha, Option.map_some] at h
  exact Option.map_eq_some_iff.mp h.symm

theorem getElem?_concat (as : List α) (a : α) (j : ℕ) :
    (as ++ [a])[j]? = if j = as.length then some a else as[j]? := by
  rcases Nat.lt_trichotomy j as.length with hlt | rfl | hgt
  · rw [List.getElem?_append_left hlt, if_neg (Nat.ne_of_lt hlt)]
  · rw [List.getElem?_concat_length, if_pos rfl]
  · rw [if_neg (Nat.ne_of_gt hgt), List.getElem?_eq_none (Nat.le_of_lt hgt),
      List.getElem?_eq_none (by rw [List.length_append, List.length_singleton]; omega)]

/-- An entry of a list with one more is the new one or an old one. -/
theorem of_getElem?_concat {b} (h : (as ++ [a])[i]? = some b) :
    i = as.length ∧ a = b ∨ as[i]? = some b := by
  rw [getElem?_concat] at h
  split at h
  · exact .inl ⟨‹_›, Option.some.inj h⟩
  · exact .inr h

theorem of_getElem?_set {b j} (h : (as.set i a)[j]? = some b) :
    j = i ∧ a = b ∨ j ≠ i ∧ as[j]? = some b := by
  rw [List.getElem?_set] at h
  split at h
  · rename_i hij
    split at h
    · exact .inl ⟨hij.symm, Option.some.inj h⟩
    · cases h
  · rename_i hij
    exact .inr ⟨Ne.symm hij, h⟩

theorem join_set_none (xs : List (Option α)) (k i : ℕ) :
    ((xs.set k none)[i]?).join = if k = i then none else (xs[i]?).join := by
  rw [List.getElem?_set]
  by_cases hk : k = i
  · subst hk
    by_cases hlt : k < xs.length <;> simp [hlt]
  · simp [hk]

theorem getElem?_putSlot {xs : List (Option α)} (hi : i ≤ xs.length) (a j) :
    (putSlot xs i a)[j]? = if j = i then some (some a) else xs[j]? := by
  unfold putSlot
  split
  · rename_i hlt
    rw [List.getElem?_set]
    by_cases hij : i = j
    · subst hij
      rw [if_pos rfl, if_pos hlt, if_pos rfl]
    · rw [if_neg hij, if_neg (Ne.symm hij)]
  · have heq : i = xs.length := by omega
    rw [heq, getElem?_concat]

end Lists

end Bexos
