/-
Strings: their parts between slashes, and their order.

A string (`Text`) is a list of bytes that are well-formed UTF-8.  A slash is a character of
its own in such a list (`utf8Valid_of_slash`), so the parts between slashes are strings again
(`Text.split`).  Strings are ordered by their bytes.
-/
import Bexos.Codec

namespace Bexos

/-- The parts of a byte string between slashes. -/
def splitSlash : Bytes → List Bytes
  | [] => [[]]
  | b :: bs =>
    if b = 0x2f then [] :: splitSlash bs
    else
      match splitSlash bs with
      | [] => [[b]]
      | w :: ws => (b :: w) :: ws

theorem not_small_slash : ¬ (0x80 : UInt8) ≤ 0x2f := by decide

/-- A slash is not within a character, so that both sides of it are well formed. -/
theorem utf8Valid_of_slash : ∀ {a b : Bytes}, utf8Valid (a ++ 0x2f :: b) = true →
    utf8Valid a = true ∧ utf8Valid b = true
  | [], b, h => by
    rw [List.nil_append, utf8Valid.eq_def] at h
    exact ⟨rfl, h⟩
  | x :: a, b, h => by
    rw [List.cons_append, utf8Valid.eq_def] at h
    rw [utf8Valid.eq_def]
    dsimp only at h ⊢
    split at h
    · rename_i hx
      rw [if_pos hx]
      exact utf8Valid_of_slash h
    rename_i hx
    rw [if_neg hx]
    -- a slash is no continuation byte, so no sequence of bytes reaches across it
    match a, h with
    | [], h =>
      exfalso
      have hfirst : ¬ (0xa0 : UInt8) ≤ 0x2f := by decide
      have hsecond : ¬ (0x90 : UInt8) ≤ 0x2f := by decide
      simp only [List.nil_append, hfirst, hsecond, not_small_slash, false_and, and_false,
        or_false, if_false] at h
      revert h
      rcases b with _ | ⟨c, _ | ⟨d, b⟩⟩ <;> simp
    | y :: a, h =>
      simp only [List.cons_append] at h ⊢
      split at h
      · rename_i hy
        rw [if_pos hy]
        exact utf8Valid_of_slash h
      rename_i hy
      rw [if_neg hy]
      match a, h with
      | [], h =>
        exfalso
        simp only [List.nil_append, not_small_slash, false_and, if_false] at h
        revert h
        cases b <;> simp
      | z :: a, h =>
        simp only [List.cons_append] at h ⊢
        split at h
        · rename_i hz
          rw [if_pos hz]
          exact utf8Valid_of_slash h
        rename_i hz
        rw [if_neg hz]
        match a, h with
        | [], h =>
          exfalso
          simp only [List.nil_append, not_small_slash, false_and, and_false, if_false] at h
          cases h
        | w :: a, h =>
          simp only [List.cons_append] at h ⊢
          split at h
          · rename_i hw
            rw [if_pos hw]
            exact utf8Valid_of_slash h
          · cases h

/-- The first part of a string, and what is left after the slash. -/
theorem splitSlash_cases (bs : Bytes) : (0x2f ∉ bs ∧ splitSlash bs = [bs]) ∨
      ∃ w rest, bs = w ++ 0x2f :: rest ∧ 0x2f ∉ w ∧ splitSlash bs = w :: splitSlash rest := by
  induction bs with
  | nil => exact .inl ⟨by simp, rfl⟩
  | cons b bs ih =>
    by_cases hb : b = 0x2f
    · subst hb
      exact .inr ⟨[], bs, rfl, by simp, by rw [splitSlash, if_pos rfl]⟩
    · rcases ih with ⟨hnot, hsplit⟩ | ⟨w, rest, rfl, hnot, hsplit⟩
      · refine .inl ⟨?_, by rw [splitSlash, if_neg hb, hsplit]⟩
        rw [List.mem_cons, not_or]
        exact ⟨Ne.symm hb, hnot⟩
      · refine .inr ⟨b :: w, rest, rfl, ?_, by rw [splitSlash, if_neg hb, hsplit]⟩
        rw [List.mem_cons, not_or]
        exact ⟨Ne.symm hb, hnot⟩

theorem utf8Valid_of_mem_splitSlash {bs w} (hbs : utf8Valid bs = true) (hw : w ∈ splitSlash bs) :
    utf8Valid w = true := by
  rcases splitSlash_cases bs with ⟨-, hsplit⟩ | ⟨v, rest, hcut, -, hsplit⟩
  · rw [hsplit, List.mem_singleton] at hw
    rw [hw]
    exact hbs
  · rw [hsplit, List.mem_cons] at hw
    rw [hcut] at hbs
    rcases hw with rfl | hw
    · exact (utf8Valid_of_slash hbs).1
    · exact utf8Valid_of_mem_splitSlash (utf8Valid_of_slash hbs).2 hw
termination_by bs.length
decreasing_by
  rw [hcut, List.length_append, List.length_cons]
  omega

/-- `str::split('/')`. -/
def Text.split (t : Text) : List Text :=
  (splitSlash t.bytes).attach.map fun w => ⟨w.1, utf8Valid_of_mem_splitSlash t.valid w.2⟩

theorem Text.split_ne_nil (t : Text) : t.split ≠ [] := by
  unfold split
  rw [ne_eq, List.map_eq_nil_iff, List.attach_eq_nil_iff]
  rcases splitSlash_cases t.bytes with ⟨-, h⟩ | ⟨_, _, -, -, h⟩
  · exact h ▸ List.cons_ne_nil _ _
  · exact h ▸ List.cons_ne_nil _ _

/-- A string without slashes is its own only part. -/
theorem Text.split_of_not_mem {t : Text} (h : 0x2f ∉ t.bytes) : t.split = [t] := by
  have hsplit : splitSlash t.bytes = [t.bytes] := by
    rcases splitSlash_cases t.bytes with ⟨-, hsplit⟩ | ⟨w, rest, hcut, -, -⟩
    · exact hsplit
    · rw [hcut] at h
      exact absurd (by simp) h
  have hmap : t.split.map Text.bytes = [t].map Text.bytes := by
    unfold split
    rw [List.map_map]
    exact (List.attach_map_subtype_val _).trans hsplit
  have hinj : Function.Injective Text.bytes := fun a b hab => by
    cases a
    cases b
    cases hab
    rfl
  exact List.map_injective_iff.mpr hinj hmap

/-- `core::str::from_utf8`. -/
def Text.ofUtf8 (bytes : Bytes) : Option Text :=
  if h : utf8Valid bytes = true then some ⟨bytes, h⟩ else none

/-- Strings are ordered by their bytes. -/
instance : Ord Text := ⟨compareOn Text.bytes⟩

instance : Std.TransOrd Text := inferInstanceAs (Std.TransCmp (compareOn Text.bytes))

instance : Std.LawfulEqOrd Text where
  eq_of_compare {a b} h := by
    have hbytes : a.bytes = b.bytes := Std.LawfulEqOrd.eq_of_compare h
    cases a
    cases b
    cases hbytes
    rfl

end Bexos
