/-
The boot state (`drivers/d1/storage/bexos/bexfs/src/sys_state.rs`).

A state is written as two records that differ in their sequence numbers; the reader takes the
one that is sound, and of two sound ones the later.

* `SysStateV2.decodeV2Record_encode` — a record is read back;
* `SysStateV2.decode_torn` — a write that stops at any byte leaves the old state or the new.

Design notes: the checksum is a parameter.
-/
import Bexos.Layout

namespace Bexos

inductive Slot where
  | a | b
  deriving DecidableEq

inductive SysStateError where
  | invalidLength | invalidMagic | unsupportedVersion | invalidSlot | badChecksum | invalidPin
  deriving DecidableEq

def Slot.byte : Slot → UInt8
  | .a => 0
  | .b => 1

def Slot.decode (value : UInt8) : Except SysStateError Slot :=
  if value = 0 then .ok .a else if value = 1 then .ok .b else .error .invalidSlot

theorem Slot.decode_byte (slot) : Slot.decode slot.byte = .ok slot := by
  cases slot <;> rfl

structure SysStateV1 where
  generation : UInt64
  activeSlot : Slot
  triesRemaining : UInt8 × UInt8
  lastKnownGoodSlot : Slot
  lastKnownGoodVersion : UInt64
  deriving DecidableEq

structure SysStateV2 extends SysStateV1 where
  sequence : UInt64
  pendingGeneration : UInt64
  pendingFlags : UInt64
  deriving DecidableEq

/-- The part of the state that both versions of a record have, from `off` on. -/
def SysStateV1.read (off : ℕ) (bytes : Bytes) : Except SysStateError SysStateV1 := do
  let activeSlot ← Slot.decode (bytes.getD (off + 8) 0)
  let lastKnownGoodSlot ← Slot.decode (bytes.getD (off + 11) 0)
  return {
    generation := wordAt off bytes
    activeSlot
    triesRemaining := (bytes.getD (off + 9) 0, bytes.getD (off + 10) 0)
    lastKnownGoodSlot
    lastKnownGoodVersion := wordAt (off + 12) bytes }

variable (crc : Bytes → UInt32)

/-- The checks of a record, the last four bytes of which are its checksum. -/
def checkRecord (size : ℕ) (magic : String) (version : UInt32) (bytes : Bytes) :
    Except SysStateError Unit :=
  if bytes.length ≠ size then .error .invalidLength
  else if slice 0 8 bytes ≠ ascii magic then .error .invalidMagic
  else if halfAt 8 bytes ≠ version then .error .unsupportedVersion
  else if crc (bytes.take (size - 4)) ≠ halfAt (size - 4) bytes then .error .badChecksum
  else .ok ()

def SysStateV1.decode (bytes : Bytes) : Except SysStateError SysStateV1 := do
  checkRecord crc 40 "BEXSYS01" 1 bytes
  SysStateV1.read 12 bytes

namespace SysStateV2

def fromV1 (value : SysStateV1) : SysStateV2 :=
  { value with sequence := value.generation, pendingGeneration := 0, pendingFlags := 0 }

/-- The fields of a record before its checksum. -/
def fields (s : SysStateV2) (sequence : UInt64) : List Bytes :=
  [ascii "BEXSYS02", halfBytes 2, wordBytes sequence, wordBytes s.generation,
    [s.activeSlot.byte], [s.triesRemaining.1], [s.triesRemaining.2], [s.lastKnownGoodSlot.byte],
    wordBytes s.lastKnownGoodVersion, wordBytes s.pendingGeneration, wordBytes s.pendingFlags,
    zeros 4]

def encodeV2Record (s : SysStateV2) (sequence : UInt64) : Bytes :=
  let body := (s.fields sequence).flatten
  body ++ halfBytes (crc body)

def decodeV2Record (bytes : Bytes) : Except SysStateError SysStateV2 := do
  checkRecord crc 64 "BEXSYS02" 2 bytes
  let value ← SysStateV1.read 20 bytes
  return { value with
    sequence := wordAt 12 bytes
    pendingGeneration := wordAt 40 bytes
    pendingFlags := wordAt 48 bytes }

def encode (s : SysStateV2) : Bytes :=
  s.encodeV2Record crc s.sequence ++ s.encodeV2Record crc (s.sequence.satSub 1)

def decode (bytes : Bytes) : Except SysStateError SysStateV2 :=
  if bytes.length ≠ 128 then .error .invalidLength
  else
    match decodeV2Record crc (bytes.take 64), decodeV2Record crc (bytes.drop 64) with
    | .ok a, .ok b => .ok (if a.sequence ≥ b.sequence then a else b)
    | .ok a, .error _ => .ok a
    | .error _, .ok b => .ok b
    | .error e, .error _ => .error e

def decodeAny (bytes : Bytes) : Except SysStateError SysStateV2 :=
  if bytes.length = 40 then (SysStateV1.decode crc bytes).map fromV1
  else if bytes.length = 128 then decode crc bytes
  else .error .invalidLength

/-! ### Records -/

variable {crc} {s old new : SysStateV2} {sequence q q' : UInt64} {a b : Bytes}

theorem length_encodeV2Record : (s.encodeV2Record crc sequence).length = 64 := rfl

theorem decodeV2Record_encode :
    decodeV2Record crc (s.encodeV2Record crc sequence) = .ok { s with sequence } := by
  generalize hr : s.encodeV2Record crc sequence = r
  have hversion : halfAt 8 r = 2 := hr ▸ ofNat_halfBytes 2
  have hsum : halfAt 60 r = crc (r.take 60) := hr ▸ ofNat_halfBytes _
  have hsequence : wordAt 12 r = sequence := hr ▸ ofNat_wordBytes sequence
  have hgeneration : wordAt 20 r = s.generation := hr ▸ ofNat_wordBytes _
  have hgood : wordAt (20 + 12) r = s.lastKnownGoodVersion := hr ▸ ofNat_wordBytes _
  have hpending : wordAt 40 r = s.pendingGeneration := hr ▸ ofNat_wordBytes _
  have hflags : wordAt 48 r = s.pendingFlags := hr ▸ ofNat_wordBytes _
  have hactive : Slot.decode (r.getD (20 + 8) 0) = .ok s.activeSlot := hr ▸ Slot.decode_byte _
  have hlast : Slot.decode (r.getD (20 + 11) 0) = .ok s.lastKnownGoodSlot :=
    hr ▸ Slot.decode_byte _
  have hcheck : checkRecord crc 64 "BEXSYS02" 2 r = .ok () := by
    unfold checkRecord
    rw [if_neg (not_not_intro (hr ▸ rfl)), if_neg (not_not_intro (hr ▸ rfl)),
      if_neg (not_not_intro hversion), if_neg (not_not_intro hsum.symm)]
  unfold decodeV2Record SysStateV1.read
  rw [hcheck, hactive, hlast, hsequence, hgeneration, hgood, hpending, hflags, ← hr]
  rfl

/-! ### Torn writes -/

/-- The first `k` bytes of one buffer, and the others of another. -/
def mix (k : ℕ) (a b : Bytes) : Bytes := a.take k ++ b.drop k

variable {k : ℕ}

theorem length_mix (h : a.length = b.length) : (mix k a b).length = b.length := by
  rw [mix, List.length_append, List.length_take, List.length_drop]
  omega

theorem mix_of_le (ha : a.length ≤ k) (hb : b.length ≤ k) : mix k a b = a := by
  rw [mix, List.take_of_length_le ha, List.drop_eq_nil_of_le hb, List.append_nil]

theorem mix_append {a' b'} (h : a.length = b.length) :
    mix k (a ++ a') (b ++ b') = mix k a b ++ mix (k - a.length) a' b' := by
  simp only [mix, List.take_append, List.drop_append, ← h]
  rcases Nat.le_total k a.length with hk | hk
  · simp [Nat.sub_eq_zero_of_le hk]
  · simp [List.drop_eq_nil_of_le (h ▸ hk)]

/-- What mixes the bytes of two records is one of them, or fails its checksum. -/
def MixFails (crc : Bytes → UInt32) (a b : Bytes) : Prop :=
  ∀ k < 64, mix k a b = a ∨ mix k a b = b ∨ crc ((mix k a b).take 60) ≠ halfAt 60 (mix k a b)

/-- Up to its sequence number, a state is one of two. -/
def OneOf (old new s : SysStateV2) : Prop :=
  s = { old with sequence := s.sequence } ∨ s = { new with sequence := s.sequence }

theorem oneOf_of_mix (h : MixFails crc (new.encodeV2Record crc q) (old.encodeV2Record crc q'))
    (hok : decodeV2Record crc (mix k (new.encodeV2Record crc q) (old.encodeV2Record crc q')) =
      .ok s) : OneOf old new s := by
  rcases (Nat.lt_or_ge k 64).elim (h k) fun hk => .inl (mix_of_le (by exact hk) (by exact hk))
    with heq | heq | hsum
  · rw [heq, decodeV2Record_encode] at hok
    cases hok
    exact .inr rfl
  · rw [heq, decodeV2Record_encode] at hok
    cases hok
    exact .inl rfl
  · unfold decodeV2Record checkRecord at hok
    rw [if_pos hsum] at hok
    split_ifs at hok <;> cases hok

/-- One sound record is enough. -/
theorem decode_append (ha : a.length = 64) (hb : b.length = 64)
    (hok : ∃ s, decodeV2Record crc a = .ok s ∨ decodeV2Record crc b = .ok s) :
    ∃ s, decode crc (a ++ b) = .ok s ∧
      (decodeV2Record crc a = .ok s ∨ decodeV2Record crc b = .ok s) := by
  unfold decode
  rw [List.length_append, ha, hb, if_neg (by decide), List.take_left' ha, List.drop_left' ha]
  generalize decodeV2Record crc a = first at hok ⊢
  generalize decodeV2Record crc b = second at hok ⊢
  cases first with
  | error e =>
    cases second with
    | error e' => obtain ⟨_, h | h⟩ := hok <;> cases h
    | ok y => exact ⟨y, rfl, .inr rfl⟩
  | ok x =>
    cases second with
    | error e => exact ⟨x, rfl, .inl rfl⟩
    | ok y =>
      refine ⟨_, rfl, ?_⟩
      split
      · exact .inl rfl
      · exact .inr rfl

/-- **Torn writes.** If the write of a new state stops at any byte, what is read is the old
state or the new one, up to the sequence number. -/
theorem decode_torn (k : ℕ)
    (ha : MixFails crc (new.encodeV2Record crc new.sequence)
      (old.encodeV2Record crc old.sequence))
    (hb : MixFails crc (new.encodeV2Record crc (new.sequence.satSub 1))
      (old.encodeV2Record crc (old.sequence.satSub 1))) :
    ∃ s, decode crc (mix k (new.encode crc) (old.encode crc)) = .ok s ∧
      decodeAny crc (mix k (new.encode crc) (old.encode crc)) = .ok s ∧ OneOf old new s := by
  have hlength : (mix k (new.encode crc) (old.encode crc)).length = 128 := length_mix rfl
  unfold decodeAny
  rw [if_neg (by rw [hlength]; decide), if_pos hlength, encode, encode, mix_append (by rfl)]
  refine Exists.imp (fun s hs => ⟨hs.1, hs.1, hs.2.elim (oneOf_of_mix ha) (oneOf_of_mix hb)⟩)
    (decode_append (length_mix (by rfl)) (length_mix (by rfl)) ?_)
  rcases Nat.le_total k 64 with hk | hk
  · -- the second record is the old one
    rw [length_encodeV2Record, Nat.sub_eq_zero_of_le hk]
    exact ⟨_, .inr decodeV2Record_encode⟩
  · -- the first record is the new one
    refine ⟨new, .inl ?_⟩
    rw [mix_of_le (by exact hk) (by exact hk), decodeV2Record_encode]

def initial : SysStateV2 :=
  { generation := 1
    activeSlot := .a
    triesRemaining := (3, 3)
    lastKnownGoodSlot := .a
    lastKnownGoodVersion := 1
    sequence := 1
    pendingGeneration := 0
    pendingFlags := 0 }

/-- The sum of the bytes, as a checksum. -/
def total (bytes : Bytes) : UInt32 := bytes.foldl (fun sum b => sum + b.toUInt32) 0

def activated : SysStateV2 := { initial with activeSlot := .b, sequence := 2 }

theorem decode_torn_activated :
    ∃ s, decode total (mix 40 (activated.encode total) (initial.encode total)) = .ok s ∧
      decodeAny total (mix 40 (activated.encode total) (initial.encode total)) = .ok s ∧
      OneOf initial activated s := by
  refine decode_torn 40 ?_ ?_ <;> unfold MixFails <;> decide +kernel

end SysStateV2

end Bexos
