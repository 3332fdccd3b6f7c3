/-
Restricted mode (`runtime/restricted.rs`, `lib/restricted_abi`).

A thread may run a guest: its registers are kept in a memory object the process shares with
the kernel.  `Runtime.restrictedEnter` loads them, `Runtime.finishRestrictedExit` stores
them and continues at the host's vector.

Design notes: the shared page is read and written as bytes; `stateWord` and `stateBytes`
give its layout, a header of 64 bytes followed by words.
-/
import Bexos.RuntimeHandover

namespace Bexos

open Prog

inductive Reason where
  | syscall | exception | kick
  deriving DecidableEq

def Reason.code : Reason → ℕ
  | .syscall => 1
  | .exception => 2
  | .kick => 3

/-- Size of the state of an architecture, header included. -/
def Arch.stateSize : Arch → ℕ
  | .aarch64 => 352
  | .x86_64 => 224

/-! ### The layout of the shared page -/

def RESTRICTED_MAGIC : Bytes := ascii "BEXRST01"

/-- The flags a guest may set on x86. -/
def USER_RFLAGS : UInt64 := 0x250fd5

/-- A field of the page, little-endian. -/
def field (bytes : Bytes) (offset size : ℕ) : ℕ := leValue ((bytes.drop offset).take size)

/-- The `i`-th word after the header. -/
def stateWord (bytes : Bytes) (i : ℕ) : UInt64 := UInt64.ofNat (field bytes (64 + 8 * i) 8)

/-- `Header::valid_for`. -/
def headerValid (arch : Arch) (bytes : Bytes) : Bool :=
  bytes.take 8 == RESTRICTED_MAGIC && field bytes 8 4 == 1 && field bytes 12 4 == arch.stateSize &&
    field bytes 16 4 == arch.tag.toNat && field bytes 40 8 == 0 && field bytes 48 8 == 0 &&
    field bytes 56 8 == 0

def headerBytes (arch : Arch) (reason : Reason) (exceptionCode faultAddress : UInt64) : Bytes :=
  RESTRICTED_MAGIC ++ leBytes 4 1 ++ leBytes 4 arch.stateSize ++ leBytes 4 arch.tag.toNat ++
    leBytes 4 reason.code ++ wordBytes exceptionCode ++ wordBytes faultAddress ++
    List.replicate 24 0

/-- The registers of an x86 guest, in the order of the page. -/
def x86Words (c : Context) : List UInt64 :=
  [c.regs.get 0, c.regs.get 1, c.regs.get 2, c.regs.get 11, c.regs.get 4, c.regs.get 5,
    c.regs.get 10, c.regs.get 12, c.regs.get 13, c.regs.get 3, c.regs.get 14, c.regs.get 6,
    c.regs.get 7, c.regs.get 8, c.regs.get 9, c.instructionPointer, c.stackPointer,
    c.processorState, c.threadPointer, c.regs.get 15]

def aarch64Words (c : Context) (readonlyThreadPointer : UInt64) : List UInt64 :=
  c.regs.toList ++ [c.stackPointer, c.instructionPointer, c.processorState, c.threadPointer,
    readonlyThreadPointer]

def stateBytes (arch : Arch) (c : Context) (readonlyThreadPointer : UInt64) (reason : Reason)
    (exceptionCode faultAddress : UInt64) : Bytes :=
  headerBytes arch reason exceptionCode faultAddress ++
    (match arch with
      | .x86_64 => x86Words c
      | .aarch64 => aarch64Words c readonlyThreadPointer).flatMap wordBytes

/-- The guest of an x86 page: registers the page does not hold stay as they were. -/
def x86Guest (w : ℕ → UInt64) (c : Context) : Context :=
  { c with
    regs := ⟨[w 0, w 1, w 2, w 9, w 4, w 5, w 11, w 12, w 13, w 14, w 6, w 3, w 7, w 8, w 10,
      w 19] ++ (c.regs.toList.drop 16).take 14 ++ [0x23], by simp⟩
    instructionPointer := w 15
    stackPointer := w 16
    processorState := w 17 &&& USER_RFLAGS ||| 0x202
    threadPointer := w 18 }

def aarch64Guest (w : ℕ → UInt64) (c : Context) : Context :=
  { c with
    regs := ⟨(List.range 31).map w, by simp⟩
    stackPointer := w 31
    instructionPointer := w 32
    processorState := w 33 &&& 0xf0000000
    threadPointer := w 34 }

namespace Runtime

variable {B : Type} [Backend B]

/-- The place a guest continues at and its stack are mapped for it. -/
def guestRangesOk (s : Runtime B) (pc sp : UInt64) (entrySize : UInt64) : Bool :=
  pc < USER_END && sp < USER_END && sp ≥ 16 && s.validRange s.current pc entrySize EXECUTE &&
    s.validRange s.current (sp - 16) 16 WRITE

/-- The guest in a memory object, and its read-only thread pointer. -/
def readRestrictedState (s : Runtime B) (vmo : ℕ) (c : Context) :
    Except Status (Context × UInt64) := do
  let arch := Backend.arch B
  let bytes ← s.readVmoObject vmo 0 arch.stateSize
  let w := stateWord bytes
  match arch with
  | .x86_64 =>
    if headerValid .x86_64 bytes ∧ s.guestRangesOk (w 15) (w 16) 1 ∧ w 18 < USER_END ∧
        w 19 < USER_END then
      return (x86Guest w c, 0)
    else .error .errInvalidArgs
  | .aarch64 =>
    if headerValid .aarch64 bytes ∧ s.guestRangesOk (w 32) (w 31) 4 ∧ w 34 < USER_END ∧
        w 35 < USER_END then
      return (aarch64Guest w c, w 35)
    else .error .errInvalidArgs

def currentBinding (s : Runtime B) : Option RestrictedBinding :=
  (s.threads[s.currentThread]?).bind (·.restricted)

def modifyBinding (f : RestrictedBinding → RestrictedBinding) (s : Runtime B) : Runtime B :=
  modifyThread s.currentThread (fun t => { t with restricted := t.restricted.map f }) s

abbrev restrictedBindState (options : UInt32) (stateHandle : ℕ) : RtM B Unit := do
  check (options = 0) .errInvalidArgs
  let s ← get
  let t ← unwrap s.threads[s.currentThread]?
  check t.restricted.isNone .errAlreadyExists
  let id ← vmoFor stateHandle (READ ||| WRITE)
  let v ← some? (s.vmo id) .errInvalidHandle
  check (v.size = STATE_VMO_SIZE ∧ ¬ v.device ∧ ¬ v.bootfs) .errInvalidArgs
  modify (modifyVmo id fun v => { v with refs := v.refs + 1 })
  modify (modifyThread s.currentThread fun t =>
    { t with
      restricted := some
        { stateVmo := id
          hostContext := Context.zero (Backend.arch B)
          guestContext := Context.zero (Backend.arch B)
          hostReadonlyThreadPointer := 0
          guestReadonlyThreadPointer := 0
          vectorEntry := 0
          vectorContext := 0
          active := false
          pendingKick := false
          transitionPending := false } })
  changed .vmo id
  changed .thread s.currentThread

abbrev restrictedUnbindState (options : UInt32) : RtM B Unit := do
  check (options = 0) .errInvalidArgs
  let s ← get
  let t ← unwrap s.threads[s.currentThread]?
  let binding ← some? t.restricted .errInvalidArgs
  check (¬ binding.active) .errAlreadyExists
  modify (modifyThread s.currentThread fun t => { t with restricted := none })
  releaseVmo binding.stateVmo
  changed .thread s.currentThread

/-- On x86 the vector is entered with a return address of zero on the stack. -/
def enterVector (host : Context) : RtM B Context :=
  match Backend.arch B with
  | .aarch64 => return host
  | .x86_64 => do
    let sp := host.stackPointer.satSub 8
    copyToUser sp (wordBytes 0)
    return { host with stackPointer := sp }

abbrev finishRestrictedExit (reason : Reason) (exceptionCode faultAddress : UInt64)
    (guest : Context) : RtM B Context := do
  let s ← get
  let t ← unwrap s.threads[s.currentThread]?
  let binding ← some? t.restricted .errInvalidArgs
  writeVmoObject binding.stateVmo 0 (stateBytes (Backend.arch B) guest
    binding.guestReadonlyThreadPointer reason exceptionCode faultAddress)
  let host := binding.hostContext.setInitialArgument binding.vectorContext
  let host ← enterVector
    { host with
      instructionPointer := binding.vectorEntry
      regs := host.regs.set 1 (UInt64.ofNat reason.code) }
  modify (modifyBinding fun b =>
    { b with guestContext := guest, active := false, pendingKick := false })
  modify (modifyThread s.currentThread fun t => { t with context := host })
  changed .thread s.currentThread
  return host

/-- Load the guest into the binding; a pending kick keeps it from running. -/
abbrev bindGuest (host guest : Context) (vectorEntry vectorContext hostPointer guestPointer : UInt64) :
    RtM B Unit := do
  let s ← get
  modify (modifyBinding fun b =>
    { b with
      hostContext := host
      guestContext := guest
      hostReadonlyThreadPointer := hostPointer
      guestReadonlyThreadPointer := guestPointer
      vectorEntry := vectorEntry
      vectorContext := vectorContext
      pendingKick := false
      active := !b.pendingKick
      transitionPending := true })
  changed .thread s.currentThread

def restrictedEnter (options : UInt32) (vectorEntry vectorContext : UInt64) (host : Context)
    (hostReadonlyThreadPointer : UInt64) : RtM B Context := do
  let s ← get
  check (options = 0 ∧ s.validRange s.current vectorEntry 1 EXECUTE ∧ host.stackPointer ≥ 16 ∧
    s.validRange s.current (host.stackPointer - 16) 16 WRITE) .errInvalidArgs
  let t ← unwrap s.threads[s.currentThread]?
  let binding ← some? t.restricted .errInvalidArgs
  check (¬ binding.active) .errAlreadyExists
  let (guest, pointer) ← lift (s.readRestrictedState binding.stateVmo binding.guestContext)
  bindGuest host guest vectorEntry vectorContext hostReadonlyThreadPointer pointer
  if binding.pendingKick then finishRestrictedExit .kick 0 0 guest
  else do
    modify (modifyThread s.currentThread fun t => { t with context := guest })
    return guest

abbrev restrictedExitCurrent (reason : Reason) (exceptionCode faultAddress : UInt64)
    (guest : Context) : RtM B Context := do
  let s ← get
  check (s.currentBinding.any (·.active)) .errInvalidArgs
  finishRestrictedExit reason exceptionCode faultAddress guest

abbrev restrictedKick (options : UInt32) (thread : ℕ) : RtM B UInt64 := do
  check (options = 0) .errInvalidArgs
  let c ← cap thread ADMIN
  let id ← some? c.object.thread? .errInvalidHandle
  let s ← get
  let t ← some? s.threads[id]? .errInvalidHandle
  check (¬ (t.exited ∨ t.restricted.isNone)) .errInvalidArgs
  modify (modifyThread id fun t =>
    { t with restricted := t.restricted.map fun b => { b with pendingKick := true } })
  changed .thread id
  return ((s.scheduler.task (id + 1)).bind (·.assignedCpu)).elim 0 Scheduler.cpuBit

def restrictedDeliverPendingKick (frame : Context) : RtM B (Bool × Context) := do
  let s ← get
  let t ← unwrap s.threads[s.currentThread]?
  if t.restricted.any fun b => b.active && b.pendingKick then do
    match ← attempt (finishRestrictedExit .kick 0 0 frame) with
    | .ok host => return (true, host)
    | .error _ => return (false, frame)
  else return (false, frame)

/-- The flag is cleared without marking the record of the thread. -/
abbrev restrictedTakeTransition : RtM B (Option Context) := do
  let s ← get
  if s.currentBinding.any (·.transitionPending) then do
    modify (modifyBinding fun b => { b with transitionPending := false })
    return (s.threads[s.currentThread]?).map (·.context)
  else return none

abbrev restrictedCaptureReadonlyThreadPointer (value : UInt64) : RtM B Unit := do
  let s ← get
  let t ← unwrap s.threads[s.currentThread]?
  when (t.restricted.any (·.active)) do
    modify (modifyBinding fun b => { b with guestReadonlyThreadPointer := value })
    changed .thread s.currentThread

end Runtime

end Bexos
