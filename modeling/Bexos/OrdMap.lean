/-
Ordered maps.

`OrdMap κ α` is the extensional ordered map of the standard library; two maps with the same
entries are equal.  The lemmas here say what a lookup finds after each operation, in terms
of equality of keys, and `entryAfter` walks through a map in the order of its keys.

A vector sorted by keys serves as a map too: `upsert` is what a binary search and a write at
the place it finds do together.
-/
import Bexos.Words

namespace Bexos

abbrev OrdMap (κ α : Type) [Ord κ] := Std.ExtTreeMap κ α compare

namespace OrdMap

open Std

variable {κ α : Type} [Ord κ] [TransOrd κ] [LawfulEqOrd κ]

theorem get_insert [DecidableEq κ] (m : OrdMap κ α) (k j : κ) (a : α) :
    (m.insert k a)[j]? = if j = k then some a else m[j]? := by
  rw [ExtTreeMap.getElem?_insert]
  by_cases h : j = k
  · rw [if_pos h, if_pos (Std.compare_eq_iff_eq.mpr h.symm)]
  · rw [if_neg h, if_neg fun hc => h (Std.compare_eq_iff_eq.mp hc).symm]

theorem get_erase [DecidableEq κ] (m : OrdMap κ α) (k j : κ) :
    (m.erase k)[j]? = if j = k then none else m[j]? := by
  rw [ExtTreeMap.getElem?_erase]
  by_cases h : j = k
  · rw [if_pos h, if_pos (Std.compare_eq_iff_eq.mpr h.symm)]
  · rw [if_neg h, if_neg fun hc => h (Std.compare_eq_iff_eq.mp hc).symm]

variable {k : κ} {m : OrdMap κ α} {b : α} {j : κ}

theorem get_insert_eq_some [DecidableEq κ] {a} :
    (m.insert k a)[j]? = some b ↔ j = k ∧ a = b ∨ j ≠ k ∧ m[j]? = some b := by
  rw [get_insert]
  by_cases h : j = k <;> simp [h]

theorem get_erase_eq_some [DecidableEq κ] : (m.erase k)[j]? = some b ↔ j ≠ k ∧ m[j]? = some b := by
  rw [get_erase]
  by_cases h : j = k <;> simp [h]

/-- A new key hides no entry. -/
theorem get_insert_of_get [DecidableEq κ] (a : α) (hfree : m[k]? = none) (h : m[j]? = some b) :
    (m.insert k a)[j]? = some b := by
  refine get_insert_eq_some.mpr (.inr ⟨?_, h⟩)
  rintro rfl
  rw [hfree] at h
  cases h

/-- The entry of another key stays, and one with another value is that of another key. -/
theorem get_erase_of_ne [DecidableEq κ] {a} (hk : m[k]? = some a) (hj : m[j]? = some b)
    (hne : b ≠ a) : (m.erase k)[j]? = some b := by
  refine get_erase_eq_some.mpr ⟨?_, hj⟩
  rintro rfl
  exact hne (Option.some.inj (hj.symm.trans hk))

theorem get_filter (m : OrdMap κ α) (p : κ → α → Bool) (k : κ) :
    (m.filter p)[k]? = m[k]?.filter (p k) := by
  rw [ExtTreeMap.getElem?_filter]
  simp only [ExtTreeMap.getKey_eq, Option.pfilter_eq_filter]

theorem get_map (m : OrdMap κ α) (f : κ → α → α) (k : κ) : (m.map f)[k]? = m[k]?.map (f k) := by
  rw [ExtTreeMap.getElem?_map]

theorem mem_toList (m : OrdMap κ α) {a} : (k, a) ∈ m.toList ↔ m[k]? = some a :=
  ExtTreeMap.mem_toList_iff_getElem?_eq_some

/-! ### In the order of the keys -/

section Order

variable [LT κ] [LE κ] [LawfulOrderOrd κ] [LawfulOrderLT κ]

omit [LawfulEqOrd κ] in
theorem pairwise_toList (m : OrdMap κ α) : m.toList.Pairwise (·.1 < ·.1) :=
  (ExtTreeMap.ordered_keys_toList (t := m)).imp compare_eq_lt.mp

/-- A key lies after another one, or after none. -/
def After (after : Option κ) (k : κ) : Prop := ∀ j ∈ after, j < k

variable [DecidableLT κ]

variable {after : Option κ}

end Order

end OrdMap

/-! ### Sorted vectors -/

section Sorted

variable {α : Type} {key : α → UInt64}

/-- Search a vector sorted by keys: the index of the key, or the index at which to insert it. -/
def binarySearchByKey (key : α → UInt64) (k : UInt64) (as : List α) : Except ℕ ℕ :=
  match as.findIdx? (key · == k) with
  | some i => .ok i
  | none => .error (as.takeWhile (key · < k)).length

/-- The entry that a binary search finds. -/
def getByKey (key : α → UInt64) (k : UInt64) (as : List α) : Option α :=
  match binarySearchByKey key k as with
  | .ok i => as[i]?
  | .error _ => none

/-- Write an entry at the place that a binary search finds for its key. -/
def putByKey (key : α → UInt64) (a : α) (as : List α) : List α :=
  match binarySearchByKey key (key a) as with
  | .ok i => as.set i a
  | .error i => as.insertIdx i a

/-- Put an entry into a list sorted by keys, in the place of the one with its key. -/
def upsert (key : α → UInt64) (a : α) : List α → List α
  | [] => [a]
  | b :: bs =>
    if key b < key a then b :: upsert key a bs
    else if key b = key a then a :: bs else a :: b :: bs

theorem getByKey_eq_find? (k as) : getByKey key k as = as.find? (key · == k) := by
  unfold getByKey binarySearchByKey
  cases hidx : as.findIdx? (key · == k) with
  | none =>
    refine (List.find?_eq_none.mpr fun a ha => ?_).symm
    rw [List.findIdx?_eq_none_iff.mp hidx a ha]
    decide
  | some i =>
    obtain ⟨hi, hp, hbefore⟩ := List.findIdx?_eq_some_iff_getElem.mp hidx
    refine (List.getElem?_eq_getElem hi).trans (Eq.symm ?_)
    exact List.find?_eq_some_iff_getElem.mpr ⟨hp, i, hi, rfl, fun j hj => by simpa using hbefore j hj⟩

variable {as : List α} {a : α}

theorem putByKey_eq_upsert (hsorted : as.Pairwise (key · < key ·)) (a) :
    putByKey key a as = upsert key a as := by
  induction as with
  | nil => rfl
  | cons b bs ih =>
    obtain ⟨hfirst, hsorted⟩ := List.pairwise_cons.mp hsorted
    have ih := ih hsorted
    unfold putByKey binarySearchByKey at ih ⊢
    rw [upsert, List.findIdx?_cons]
    by_cases hlt : key b < key a
    · have hne : (key b == key a) = false :=
        beq_eq_false_iff_ne.mpr fun h => UInt64.lt_irrefl _ (h ▸ hlt)
      rw [hne, if_pos hlt, ← ih, if_neg Bool.false_ne_true]
      cases bs.findIdx? (key · == key a) with
      | none => simp [hlt]
      | some i => rfl
    · by_cases heq : key b = key a
      · rw [if_neg hlt, if_pos heq, beq_iff_eq.mpr heq, if_pos rfl]
        rfl
      · have hgt : key a < key b :=
          UInt64.lt_of_le_of_ne (UInt64.not_lt.mp hlt) (Ne.symm heq)
        have hnone : bs.findIdx? (key · == key a) = none := by
          refine List.findIdx?_eq_none_iff.mpr fun c hc => beq_eq_false_iff_ne.mpr fun h => ?_
          exact UInt64.lt_irrefl _ (UInt64.lt_trans hgt (h ▸ hfirst c hc))
        rw [if_neg hlt, if_neg heq, beq_eq_false_iff_ne.mpr heq, if_neg Bool.false_ne_true, hnone]
        simp [hlt]

theorem mem_upsert {b} (h : b ∈ upsert key a as) : b = a ∨ b ∈ as := by
  induction as with
  | nil => exact .inl (List.mem_singleton.mp h)
  | cons c cs ih =>
    rw [upsert] at h
    split at h
    · rcases List.mem_cons.mp h with rfl | h
      · exact .inr List.mem_cons_self
      · exact (ih h).imp id (List.mem_cons_of_mem c)
    · split at h
      · exact (List.mem_cons.mp h).imp id (List.mem_cons_of_mem c)
      · exact List.mem_cons.mp h

theorem pairwise_upsert (h : as.Pairwise (key · < key ·)) :
    (upsert key a as).Pairwise (key · < key ·) := by
  induction as with
  | nil => exact List.pairwise_singleton _ _
  | cons b bs ih =>
    obtain ⟨hfirst, hrest⟩ := List.pairwise_cons.mp h
    rw [upsert]
    split
    · rename_i hlt
      refine List.pairwise_cons.mpr ⟨fun c hc => ?_, ih hrest⟩
      rcases mem_upsert hc with rfl | hc
      · exact hlt
      · exact hfirst c hc
    · split
      · rename_i heq
        exact List.pairwise_cons.mpr ⟨fun c hc => heq ▸ hfirst c hc, hrest⟩
      · rename_i hlt hne
        have hgt : key a < key b := UInt64.lt_of_le_of_ne (UInt64.not_lt.mp hlt) (Ne.symm hne)
        refine List.pairwise_cons.mpr ⟨fun c hc => ?_, h⟩
        rcases List.mem_cons.mp hc with rfl | hc
        · exact hgt
        · exact UInt64.lt_trans hgt (hfirst c hc)

theorem find?_upsert (k) : (upsert key a as).find? (key · == k) =
      if k = key a then some a else as.find? (key · == k) := by
  induction as with
  | nil =>
    by_cases hk : k = key a
    · simp [upsert, hk]
    · simp [upsert, hk, Ne.symm hk]
  | cons b bs ih =>
    rw [upsert]
    by_cases hk : k = key a
    · subst hk
      split
      · rename_i hlt
        have hne : (key b == key a) = false :=
          beq_eq_false_iff_ne.mpr fun h => UInt64.lt_irrefl _ (h ▸ hlt)
        rw [List.find?_cons, hne, ih, if_pos rfl, if_pos rfl]
      · split <;> simp
    · have hne : (key a == k) = false := beq_eq_false_iff_ne.mpr (Ne.symm hk)
      rw [if_neg hk] at ih ⊢
      split
      · rw [List.find?_cons, List.find?_cons, ih]
      · split
        · rename_i heq
          rw [List.find?_cons, List.find?_cons, hne, heq, hne]
        · rw [List.find?_cons, hne]

theorem nodup_keys_of_sorted (h : as.Pairwise (key · < key ·)) : (as.map key).Nodup := by
  refine List.pairwise_map.mpr (h.imp fun {a b} hlt heq => ?_)
  rw [heq] at hlt
  exact UInt64.lt_irrefl _ hlt

theorem mem_iff_find?_of_sorted (h : as.Pairwise (key · < key ·)) :
    a ∈ as ↔ as.find? (key · == key a) = some a :=
  ⟨find?_of_mem (nodup_keys_of_sorted h), List.mem_of_find?_eq_some⟩

/-- Sorted lists with the same members are equal. -/
theorem sorted_ext {bs} (ha : as.Pairwise (key · < key ·)) (hb : bs.Pairwise (key · < key ·))
    (h : ∀ a, a ∈ as ↔ a ∈ bs) : as = bs := by
  have hnodup : ∀ {cs : List α}, cs.Pairwise (key · < key ·) → cs.Nodup := fun hc =>
    (List.pairwise_map.mp (nodup_keys_of_sorted hc)).imp fun hne heq => hne (congrArg key heq)
  have hperm : as.Perm bs := (List.perm_ext_iff_of_nodup (hnodup ha) (hnodup hb)).mpr h
  refine hperm.eq_of_pairwise (fun a b _ _ hab hba => ?_) ha hb
  exact absurd (UInt64.lt_trans hab hba) (UInt64.lt_irrefl _)

end Sorted

end Bexos
