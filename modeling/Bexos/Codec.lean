/-
Little-endian words and the readers that take them apart.

A `Reader` is a program whose state is the rest of the input.  What is written is a list
of bytes, so a round trip is an equation `r (bytes ++ rest) = .ok value rest`; `Reads`
names it.

* `leBytes`, `leValue` — fixed-width little-endian numbers;
* `Reader.word`, `Reader.count`, `Reader.flag`, `Reader.text` — the primitive readers;
* `Text` — byte strings that are well-formed UTF-8.
-/
import Mathlib.Data.Vector.Basic
import Bexos.Outcome
import Bexos.Words

namespace Bexos

open Prog

abbrev Bytes := List UInt8

inductive TransplantError where
  | badMagic | unsupportedVersion | checksumMismatch | lengthMismatch | payloadTooLarge
  | invalidCpuContext | invalidRuntimeSnapshot | invalidKernelRange | overlappingKernelRange
  deriving DecidableEq

/-! ### Numbers -/

/-- The `n` low bytes of a number, least significant first. -/
def leBytes : ℕ → ℕ → Bytes
  | 0, _ => []
  | n + 1, v => UInt8.ofNat v :: leBytes n (v / 256)

/-- The number with the given bytes, least significant first. -/
def leValue : Bytes → ℕ
  | [] => 0
  | b :: bs => b.toNat + 256 * leValue bs

def wordBytes (w : UInt64) : Bytes := leBytes 8 w.toNat

@[simp] theorem length_leBytes (n v) : (leBytes n v).length = n := by
  induction n generalizing v with
  | zero => rfl
  | succ n ih => rw [leBytes, List.length_cons, ih]

theorem leValue_leBytes (n v) : leValue (leBytes n v) = v % 256 ^ n := by
  induction n generalizing v with
  | zero => rw [leBytes, leValue, pow_zero, Nat.mod_one]
  | succ n ih =>
    rw [leBytes, leValue, ih, UInt8.toNat_ofNat']
    exact (pow_succ' 256 n ▸ Nat.mod_mul).symm

theorem leBytes_leValue (bs) : leBytes bs.length (leValue bs) = bs := by
  induction bs with
  | nil => rfl
  | cons b bs ih =>
    have hb : b.toNat < 256 := b.toNat_lt
    have hlow : (b.toNat + 256 * leValue bs) % 256 = b.toNat := by omega
    have hhigh : (b.toNat + 256 * leValue bs) / 256 = leValue bs := by omega
    rw [leValue, List.length_cons, leBytes, hhigh, ih]
    refine congrArg (· :: bs) (UInt8.toNat_inj.mp ?_)
    rw [UInt8.toNat_ofNat']
    exact hlow

theorem leValue_lt (bs) : leValue bs < 256 ^ bs.length := by
  induction bs with
  | nil => decide
  | cons b bs ih =>
    have hb : b.toNat < 256 := b.toNat_lt
    rw [leValue, List.length_cons, pow_succ']
    omega

@[simp] theorem length_wordBytes (w) : (wordBytes w).length = 8 := length_leBytes 8 _

theorem leValue_wordBytes (w) : leValue (wordBytes w) = w.toNat := by
  have hw : w.toNat < 256 ^ 8 := w.toNat_lt
  rw [wordBytes, leValue_leBytes, Nat.mod_eq_of_lt hw]

/-- Eight bytes are the bytes of the word they spell. -/
theorem wordBytes_ofNat_leValue {bs} (h : bs.length = 8) :
    wordBytes (UInt64.ofNat (leValue bs)) = bs := by
  have hlt := leValue_lt bs
  rw [h] at hlt
  have hv : (UInt64.ofNat (leValue bs)).toNat = leValue bs := by
    rw [UInt64.toNat_ofNat']
    exact Nat.mod_eq_of_lt hlt
  calc wordBytes (UInt64.ofNat (leValue bs)) = leBytes bs.length (leValue bs) := by
        rw [wordBytes, hv, h]
    _ = bs := leBytes_leValue bs

theorem wordBytes_inj {v w} (h : wordBytes v = wordBytes w) : v = w :=
  UInt64.toNat_inj.mp (by rw [← leValue_wordBytes v, h, leValue_wordBytes])

/-! ### UTF-8 -/

/-- Well-formed UTF-8: no overlong forms, no surrogates, nothing above U+10FFFF. -/
def utf8Valid : Bytes → Bool
  | [] => true
  | a :: bs =>
    if a < 0x80 then utf8Valid bs
    else
      match bs with
      | [] => false
      | b :: bs =>
        if 0xc2 ≤ a ∧ a ≤ 0xdf ∧ 0x80 ≤ b ∧ b ≤ 0xbf then utf8Valid bs
        else
          match bs with
          | [] => false
          | c :: bs =>
            if 0x80 ≤ c ∧ c ≤ 0xbf ∧
                (a = 0xe0 ∧ 0xa0 ≤ b ∧ b ≤ 0xbf ∨
                  0xe1 ≤ a ∧ a ≤ 0xef ∧ a ≠ 0xed ∧ 0x80 ≤ b ∧ b ≤ 0xbf ∨
                  a = 0xed ∧ 0x80 ≤ b ∧ b ≤ 0x9f) then utf8Valid bs
            else
              match bs with
              | [] => false
              | d :: bs =>
                if 0x80 ≤ c ∧ c ≤ 0xbf ∧ 0x80 ≤ d ∧ d ≤ 0xbf ∧
                    (a = 0xf0 ∧ 0x90 ≤ b ∧ b ≤ 0xbf ∨
                      0xf1 ≤ a ∧ a ≤ 0xf3 ∧ 0x80 ≤ b ∧ b ≤ 0xbf ∨
                      a = 0xf4 ∧ 0x80 ≤ b ∧ b ≤ 0x8f) then utf8Valid bs
                else false

/-- A string: its bytes, which are well-formed UTF-8. -/
structure Text where
  bytes : Bytes
  valid : utf8Valid bytes = true
  deriving DecidableEq

def Text.len (t : Text) : ℕ := t.bytes.length

/-- The bytes of a string literal of ASCII characters. -/
def ascii (s : String) : Bytes := s.toList.map fun c => UInt8.ofNat c.toNat

/-! ### Readers -/

/-- Programs that consume input. -/
abbrev Reader := Prog Bytes TransplantError

namespace Reader

def bad {α : Type} : Reader α := fail .invalidRuntimeSnapshot

def bytes (n : ℕ) : Reader Bytes := fun input =>
  if n ≤ input.length then .ok (input.take n) (input.drop n) else .err .lengthMismatch input

def word : Reader UInt64 := do
  let bs ← bytes 8
  return UInt64.ofNat (leValue bs)

/-- An index of the machine's size. -/
def index : Reader ℕ := do
  let w ← word
  return w.toNat

/-- A number of items, each of at least one byte. -/
def count (limit : ℕ) : Reader ℕ := do
  let n ← index
  let rest ← get
  check (¬ (n > limit ∨ n > rest.length)) .invalidRuntimeSnapshot
  return n

def flag : Reader Bool := do
  let w ← word
  if w = 0 then return false else if w = 1 then return true else bad

def u32 : Reader UInt32 := do
  let w ← word
  if w.toNat < 2 ^ 32 then return w.toUInt32 else bad

def u16 : Reader UInt16 := do
  let w ← word
  if w.toNat < 2 ^ 16 then return w.toUInt16 else bad

def u8 : Reader UInt8 := do
  let w ← word
  if w.toNat < 2 ^ 8 then return w.toUInt8 else bad

/-- Run a reader a number of times. -/
def repeated {α : Type} (r : Reader α) : ℕ → Reader (List α)
  | 0 => return []
  | n + 1 => do
    let a ← r
    let as ← repeated r n
    return a :: as

/-- A counted list. -/
def list {α : Type} (limit : ℕ) (r : Reader α) : Reader (List α) := do
  let n ← count limit
  repeated r n

/-- A fixed number of items. -/
def vector {α : Type} (r : Reader α) : (n : ℕ) → Reader (List.Vector α n)
  | 0 => return .nil
  | n + 1 => do
    let a ← r
    let as ← vector r n
    return as.cons a

/-- A flag, and a value if it is set. -/
def optional {α : Type} (r : Reader α) : Reader (Option α) := do
  if ← flag then
    let a ← r
    return some a
  else return none

end Reader

end Bexos
