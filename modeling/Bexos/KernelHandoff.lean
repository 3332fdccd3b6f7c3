/-
The block a kernel hands to the kernel that replaces it
(`kernel/core/src/transplant/handoff.rs`).

* `Handoff.validate` — what the new kernel checks before it reads anything else;
* `checksum_splice` — a word that is exchanged shows in the checksum exactly when what the
  word adds to it, `wordSum`, is different;
* `handoff_validation` — what is known of a block that was accepted.

Design notes: the checksum has 32 bits and a word has 64, so that no checksum of this width
could see every exchange of a word.  Here two changes next to each other can cancel, a byte
being rotated by fewer bits than it has; a change of one byte is always seen.  The version is
itself covered, but also decides how much is covered.
-/
import Bexos.MigrationRecords
import Bexos.RuntimeState

namespace Bexos

namespace Transplant

/-! ### Ranges -/

structure KernelRange where
  start : UInt64
  len : UInt64
  deriving DecidableEq

namespace KernelRange

/-- `end`. -/
def stop (r : KernelRange) : Option UInt64 := r.start.checkedAdd r.len

def isPageAligned (r : KernelRange) : Prop := r.start % 4096 = 0 ∧ r.len % 4096 = 0
  deriving Decidable

def contains (r other : KernelRange) : Bool :=
  0 < r.len && 0 < other.len && r.start ≤ other.start &&
    match r.stop, other.stop with
    | some a, some b => decide (b ≤ a)
    | _, _ => false

def overlaps (r other : KernelRange) : Bool :=
  match r.stop, other.stop with
  | some a, some b => decide (r.start < b) && decide (other.start < a)
  | _, _ => true

/-- The first address after a range. -/
def last (r : KernelRange) : ℕ := r.start.toNat + r.len.toNat

/-- There are addresses in the range, and all of them are words. -/
def Proper (r : KernelRange) : Prop := 0 < r.len.toNat ∧ r.last < 2 ^ 64

def Inside (r other : KernelRange) : Prop :=
  other.start.toNat ≤ r.start.toNat ∧ r.last ≤ other.last
  deriving Decidable

def Apart (r other : KernelRange) : Prop :=
  r.last ≤ other.start.toNat ∨ other.last ≤ r.start.toNat
  deriving Decidable

variable {r other : KernelRange}

theorem stop_eq_some {a} : r.stop = some a ↔ a.toNat = r.last :=
  UInt64.checkedAdd_eq_some

theorem last_lt_of_stop {a} (h : r.stop = some a) : r.last < 2 ^ 64 := by
  have hlast := stop_eq_some.mp h
  have := a.toNat_lt
  omega

theorem of_contains (h : r.contains other = true) : other.Proper ∧ other.Inside r := by
  unfold contains at h
  simp only [Bool.and_eq_true, decide_eq_true_eq, UInt64.lt_iff_toNat_lt,
    UInt64.le_iff_toNat_le] at h
  obtain ⟨⟨⟨_, hlen⟩, hstart⟩, h⟩ := h
  split at h
  · rename_i a b ha hb
    have hle : b.toNat ≤ a.toNat := UInt64.le_iff_toNat_le.mp (of_decide_eq_true h)
    rw [stop_eq_some.mp ha, stop_eq_some.mp hb] at hle
    exact ⟨⟨hlen, last_lt_of_stop hb⟩, hstart, hle⟩
  · cases h

theorem apart_of_overlaps (h : r.overlaps other = false) : r.Apart other := by
  unfold overlaps at h
  split at h
  · rename_i a b ha hb
    have hlast := stop_eq_some.mp ha
    have hlast' := stop_eq_some.mp hb
    simp only [Bool.and_eq_false_iff, decide_eq_false_iff_not, UInt64.lt_iff_toNat_lt] at h
    unfold Apart
    omega
  · cases h

end KernelRange

/-! ### The checksum -/

def rotateLeft5 (v : UInt32) : UInt32 := ⟨v.toBitVec.rotateLeft 5⟩

/-- One turn of the checksum. -/
def mix (value : UInt32) (byte : UInt8) : UInt32 := rotateLeft5 value ^^^ byte.toUInt32

def checksum (bytes : Bytes) : UInt32 := bytes.foldl mix 0x4258_0005

theorem rotateLeft5_xor (v w) : rotateLeft5 (v ^^^ w) = rotateLeft5 v ^^^ rotateLeft5 w := by
  refine UInt32.toBitVec_inj.mp (BitVec.eq_of_getLsbD_eq fun i hi => ?_)
  simp only [rotateLeft5, UInt32.toBitVec_xor, BitVec.getLsbD_xor, BitVec.getLsbD_rotateLeft]
  by_cases h5 : i < 5 <;> simp [h5, hi]

theorem rotateLeft5_injective : Function.Injective rotateLeft5 := by
  intro v w h
  have hbits := congrArg (fun x : UInt32 => x.toBitVec.getLsbD) h
  simp only [rotateLeft5] at hbits
  refine UInt32.toBitVec_inj.mp (BitVec.eq_of_getLsbD_eq fun i hi => ?_)
  -- a bit moves up by five places, the top five to the bottom
  by_cases htop : i < 27
  · have hbit := congrFun hbits (i + 5)
    simpa [BitVec.getLsbD_rotateLeft, hi, show i + 5 < 32 by omega] using hbit
  · have hbit := congrFun hbits (i - 27)
    simpa [BitVec.getLsbD_rotateLeft, show i - 27 < 5 by omega, show 27 + (i - 27) = i by omega]
      using hbit

theorem iterate_rotateLeft5_xor (n v w) :
    rotateLeft5^[n] (v ^^^ w) = rotateLeft5^[n] v ^^^ rotateLeft5^[n] w := by
  induction n generalizing v w with
  | zero => rfl
  | succ n ih =>
    rw [Function.iterate_succ_apply, Function.iterate_succ_apply, Function.iterate_succ_apply,
      rotateLeft5_xor, ih]

/-- What came before the bytes is rotated, and what the bytes add does not depend on it. -/
theorem foldl_mix (bytes : Bytes) (v : UInt32) :
    bytes.foldl mix v = rotateLeft5^[bytes.length] v ^^^ bytes.foldl mix 0 := by
  induction bytes generalizing v with
  | nil => exact UInt32.xor_zero.symm
  | cons b bytes ih =>
    have hzero : mix 0 b = b.toUInt32 := by
      show rotateLeft5 0 ^^^ b.toUInt32 = _
      rw [show rotateLeft5 0 = 0 from rfl, UInt32.zero_xor]
    rw [List.foldl_cons, List.foldl_cons, ih, ih (mix 0 b), hzero, mix, iterate_rotateLeft5_xor,
      List.length_cons, Function.iterate_succ_apply, UInt32.xor_assoc]

theorem mix_left_injective (b) : Function.Injective (mix · b) := fun _ _ h =>
  rotateLeft5_injective ((UInt32.xor_left_inj _).mp h)

theorem mix_right_injective (v) : Function.Injective (mix v) := fun _ _ h =>
  UInt8.toUInt32_inj.mp ((UInt32.xor_right_inj _).mp h)

theorem foldl_mix_injective (bytes : Bytes) : Function.Injective (bytes.foldl mix) := by
  induction bytes with
  | nil => exact fun _ _ h => h
  | cons b bytes ih => exact fun _ _ h => mix_left_injective b (ih h)

/-- What a word adds to the checksum. -/
def wordSum (w : UInt64) : UInt32 := (wordBytes w).foldl mix 0

/-- The checksum sees that a word was exchanged exactly when the words add different sums. -/
theorem checksum_splice (before after : Bytes) (w w' : UInt64) :
    checksum (before ++ wordBytes w' ++ after) = checksum (before ++ wordBytes w ++ after) ↔
      wordSum w' = wordSum w := by
  simp only [checksum, List.foldl_append, (foldl_mix_injective after).eq_iff]
  rw [foldl_mix, foldl_mix (wordBytes w), length_wordBytes, length_wordBytes,
    UInt32.xor_right_inj]
  rfl

theorem wordSum_ne_of_byte {w w' i b b'} (hb : (wordBytes w)[i]? = some b) (hne : b' ≠ b)
    (hw : wordBytes w' = (wordBytes w).set i b') : wordSum w' ≠ wordSum w := by
  unfold wordSum
  rw [hw]
  exact foldl_set_ne mix_left_injective mix_right_injective hb hne 0

/-! ### The block -/

/-- `Aarch64CpuContextRecord`. -/
structure CpuContextRecord where
  cpuId : UInt64
  programCounter : UInt64
  stackPointer : UInt64
  pstate : UInt64
  ttbr0El1 : UInt64
  ttbr1El1 : UInt64
  vbarEl1 : UInt64

def CpuContextRecord.validate (c : CpuContextRecord) : Except TransplantError Unit :=
  if c.programCounter = 0 ∨ c.stackPointer = 0 ∨ c.vbarEl1 = 0 then .error .invalidCpuContext
  else if c.stackPointer &&& 0xf ≠ 0 then .error .invalidCpuContext
  else .ok ()

/-- `Aarch64SystemRegisters`. -/
structure SystemRegisters where
  mair : UInt64
  tcr : UInt64
  sctlr : UInt64
  cpacr : UInt64
  cntkctl : UInt64

/-- `KernelTransplantHandoff`. -/
structure Handoff where
  magic : UInt64
  version : UInt64
  generation : UInt64
  oldKernel : KernelRange
  oldReclaim : KernelRange
  replacement : KernelRange
  handoff : KernelRange
  snapshot : KernelRange
  replacementEntry : UInt64
  cpu : CpuContextRecord
  system : SystemRegisters
  switchAuthorized : UInt64
  artifactHash : List.Vector UInt8 32
  snapshotChecksum : UInt64
  checksum : UInt64
  architecture : UInt64
  architectureState : List.Vector UInt64 16

/-- `BEXKH003`. -/
def HANDOFF_MAGIC : UInt64 := UInt64.ofNat (leValue (ascii "BEXKH003"))

def HANDOFF_VERSION : UInt64 := 4

/-- `UPDATE_BASE` to `UPDATE_END`. -/
def updateWindow : Arch → KernelRange
  | .aarch64 => ⟨0x4200_0000, 0x100_0000⟩
  | .x86_64 => ⟨0x1000_0000, 0x100_0000⟩

/-- `UPDATE_SNAPSHOT` to `UPDATE_SNAPSHOT_END`. -/
def snapshotWindow : Arch → KernelRange
  | .aarch64 => ⟨0x4300_0000, 0x40_0000⟩
  | .x86_64 => ⟨0x1100_0000, 0x40_0000⟩

namespace Handoff

variable (h : Handoff)

/-- The bytes the checksum is over. -/
def covered : Bytes :=
  (([h.magic, h.version, h.generation] ++
    [h.oldKernel, h.oldReclaim, h.replacement, h.handoff, h.snapshot].flatMap
      (fun r => [r.start, r.len]) ++
    [h.replacementEntry, h.cpu.cpuId, h.cpu.programCounter, h.cpu.stackPointer, h.cpu.pstate,
      h.cpu.ttbr0El1, h.cpu.ttbr1El1, h.cpu.vbarEl1, h.snapshotChecksum]).flatMap wordBytes) ++
  h.artifactHash.toList ++
  ([h.system.mair, h.system.tcr, h.system.sctlr, h.system.cpacr, h.system.cntkctl,
    h.switchAuthorized] ++
    if 4 ≤ h.version then h.architecture :: h.architectureState.toList else []).flatMap wordBytes

def computedChecksum : UInt32 := Transplant.checksum h.covered

/-- `seal`. -/
def sealed : Handoff := { h with checksum := h.computedChecksum.toUInt64 }

/-- The ranges that must not overlap. -/
def placed : List KernelRange := [h.oldKernel, h.replacement, h.handoff, h.snapshot]

def validate (arch : Arch) : Except TransplantError Unit :=
  if h.magic ≠ HANDOFF_MAGIC then .error .badMagic
  else if h.version ≠ HANDOFF_VERSION ∧ ¬ (h.version = 3 ∧ arch.tag = 1) then
    .error .unsupportedVersion
  else if 4 ≤ h.version ∧ h.architecture ≠ arch.tag then .error .invalidCpuContext
  else if h.checksum ≠ h.computedChecksum.toUInt64 then .error .checksumMismatch
  else if ∃ r ∈ [h.oldKernel, h.oldReclaim, h.replacement, h.handoff],
      r.len = 0 ∨ ¬ r.isPageAligned ∨ r.stop = none then .error .invalidKernelRange
  else if ¬ h.oldKernel.contains h.oldReclaim ∨ ¬ (updateWindow arch).contains h.replacement ∨
      ¬ (snapshotWindow arch).contains h.snapshot ∨
      ¬ h.replacement.contains ⟨h.replacementEntry, 4⟩ then .error .invalidKernelRange
  else if ¬ h.placed.Pairwise fun a b => a.overlaps b = false then
    .error .overlappingKernelRange
  else if 1 < h.switchAuthorized then .error .invalidRuntimeSnapshot
  else h.cpu.validate

/-- Every range a block describes. -/
def ranges : List KernelRange := h.oldReclaim :: h.placed

variable {h}

theorem ok_of_ite_error {c : Prop} [Decidable c] {e : TransplantError}
    {x : Except TransplantError Unit} (hx : (if c then .error e else x) = .ok ()) :
    ¬ c ∧ x = .ok () := by
  split at hx
  · cases hx
  · exact ⟨‹_›, hx⟩

/-- What acceptance says of the ranges and the checksum. -/
theorem of_validate {arch : Arch} (hok : h.validate arch = .ok ()) :
    h.checksum = h.computedChecksum.toUInt64 ∧ (∀ r ∈ h.ranges, r.Proper) ∧
      h.placed.Pairwise KernelRange.Apart ∧ h.oldReclaim.Inside h.oldKernel ∧
      h.replacement.Inside (updateWindow arch) ∧ h.snapshot.Inside (snapshotWindow arch) := by
  unfold validate at hok
  obtain ⟨_, hok⟩ := ok_of_ite_error hok
  obtain ⟨_, hok⟩ := ok_of_ite_error hok
  obtain ⟨_, hok⟩ := ok_of_ite_error hok
  obtain ⟨hsum, hok⟩ := ok_of_ite_error hok
  obtain ⟨hranges, hok⟩ := ok_of_ite_error hok
  obtain ⟨hinside, hok⟩ := ok_of_ite_error hok
  obtain ⟨hapart, _⟩ := ok_of_ite_error hok
  simp only [not_or, not_not] at hinside hsum hapart
  obtain ⟨hreclaim, hreplacement, hsnapshot, _⟩ := hinside
  have hproper : ∀ r ∈ [h.oldKernel, h.oldReclaim, h.replacement, h.handoff], r.Proper := by
    intro r hr
    have hr' : ¬ (r.len = 0 ∨ ¬ r.isPageAligned ∨ r.stop = none) := fun hbad =>
      hranges ⟨r, hr, hbad⟩
    simp only [not_or, ← Option.isSome_iff_ne_none, Option.isSome_iff_exists] at hr'
    obtain ⟨hlen, _, a, ha⟩ := hr'
    have hne : r.len.toNat ≠ 0 := fun hzero => hlen (UInt64.toNat_inj.mp hzero)
    exact ⟨Nat.pos_of_ne_zero hne, KernelRange.last_lt_of_stop ha⟩
  refine ⟨hsum, ?_, hapart.imp KernelRange.apart_of_overlaps,
    (KernelRange.of_contains hreclaim).2, (KernelRange.of_contains hreplacement).2,
    (KernelRange.of_contains hsnapshot).2⟩
  simp only [ranges, placed, List.forall_mem_cons] at hproper ⊢
  obtain ⟨hold, hreclaim', hnew, hhandoff, _⟩ := hproper
  exact ⟨hreclaim', hold, hnew, hhandoff, (KernelRange.of_contains hsnapshot).1,
    fun _ hr => absurd hr List.not_mem_nil⟩

end Handoff

/-- **Handoff validation.** The ranges of a block that is accepted are not empty and end below
the last address; the old kernel, its replacement, the block and the snapshot are pairwise
apart, what may be reclaimed is inside the old kernel, and the replacement and the snapshot are
inside their windows.  If one of the covered words is exchanged for one that adds another sum
to the checksum, the block is refused; and a word with one byte changed adds another sum. -/
theorem handoff_validation (arch : Arch) (h : Handoff) (hok : h.validate arch = .ok ()) :
    (∀ r ∈ h.ranges, r.Proper) ∧ h.placed.Pairwise KernelRange.Apart ∧
    h.oldReclaim.Inside h.oldKernel ∧ h.replacement.Inside (updateWindow arch) ∧
    h.snapshot.Inside (snapshotWindow arch) ∧
    (∀ (h' : Handoff) (before after : Bytes) (w w' : UInt64),
      h.covered = before ++ wordBytes w ++ after → h'.covered = before ++ wordBytes w' ++ after →
      h'.checksum = h.checksum → wordSum w' ≠ wordSum w → h'.validate arch ≠ .ok ()) ∧
    ∀ (w w' : UInt64) (i : ℕ) (b b' : UInt8), (wordBytes w)[i]? = some b → b' ≠ b →
      wordBytes w' = (wordBytes w).set i b' → wordSum w' ≠ wordSum w := by
  obtain ⟨hsum, hproper, hapart, hreclaim, hreplacement, hsnapshot⟩ := Handoff.of_validate hok
  refine ⟨hproper, hapart, hreclaim, hreplacement, hsnapshot, ?_, ?_⟩
  · intro h' before after w w' hcovered hcovered' hfield hne hok'
    obtain ⟨hsum', -⟩ := Handoff.of_validate hok'
    rw [hfield, hsum] at hsum'
    have hsame := UInt32.toUInt64_inj.mp hsum'
    unfold Handoff.computedChecksum at hsame
    rw [hcovered, hcovered'] at hsame
    exact hne ((checksum_splice before after w w').mp hsame.symm)
  · exact fun w w' i b b' hb hne hw => wordSum_ne_of_byte hb hne hw

/-- A block for an update of a kernel at the start of memory. -/
def sampleHandoff : Handoff :=
  Handoff.sealed
    { magic := HANDOFF_MAGIC, version := HANDOFF_VERSION, generation := 1
      oldKernel := ⟨0x4008_0000, 0x10_0000⟩, oldReclaim := ⟨0x4008_0000, 0x8_0000⟩
      replacement := ⟨0x4200_0000, 0x10_0000⟩, handoff := ⟨0x4300_0000, 0x1000⟩
      snapshot := ⟨0x4300_1000, 0x2000⟩, replacementEntry := 0x4200_0000
      cpu := ⟨0, 0x4008_1000, 0x4010_0000, 0, 0, 0, 0x4008_0800⟩, system := ⟨0, 0, 0, 0, 0⟩
      switchAuthorized := 0, artifactHash := List.Vector.replicate 32 0, snapshotChecksum := 0
      checksum := 0, architecture := 1, architectureState := List.Vector.replicate 16 0 }

theorem sampleHandoff_validation : sampleHandoff.validate .aarch64 = .ok () ∧
    sampleHandoff.replacement.Inside (updateWindow .aarch64) :=
  have hok : sampleHandoff.validate .aarch64 = .ok () := by decide +kernel
  ⟨hok, (handoff_validation .aarch64 sampleHandoff hok).2.2.2.1⟩

/-- A block is accepted whose old kernel is in no window and contains a range described with
it; and it stays accepted when two bytes of its generation are changed. -/
theorem exchanged_generation_accepted : sampleHandoff.validate .aarch64 = .ok () ∧
    ¬ sampleHandoff.oldKernel.Apart sampleHandoff.oldReclaim ∧
    ¬ sampleHandoff.oldKernel.Inside (updateWindow .aarch64) ∧
    ¬ sampleHandoff.oldKernel.Inside (snapshotWindow .aarch64) ∧
    ({ sampleHandoff with generation := 0x2000 }.validate .aarch64 = .ok ()) := by
  decide +kernel

end Transplant

end Bexos
