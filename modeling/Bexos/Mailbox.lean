/-
The secure monitor's mailboxes and transport lanes.

`monitor/mailbox.rs` holds one request of a guest until its completion is polled.
`monitor/transport_lanes.rs` has two mailboxes, for the boot owner and for everybody else, which
number their requests independently and share one secure worker; `active` says which request the
worker has.  `mailbox_state.rs` writes both to bytes for the next monitor.

Design notes: the size of a buffer is a parameter, `MAX_SHARED_BYTES` in the source, and SHA-256
is a function.  A buffer handed to `fetch` or `poll` counts by its length; what is copied into it
is part of the result.
-/
import Bexos.Layout

namespace Bexos

open Prog

inductive MonitorStatus where
  | invalidArgs
  | accessDenied
  | unsupported
  | noResources
  | invalidHandle
  | busy
  deriving DecidableEq, Repr

def BOOT_OWNER_HANDLE : UInt64 := 0xffff_ffff_ffff_ffff

/-! ### One mailbox -/

structure Mailbox.Message where
  ticket : UInt64
  handle : UInt64
  operation : UInt32
  length : ℕ
  capacity : ℕ
  deriving DecidableEq

def Mailbox.Message.none : Mailbox.Message := ⟨0, 0, 0, 0, 0⟩

inductive MailPhase where
  | empty
  | submitted
  | running
  | completed
  deriving DecidableEq, Repr

structure Mailbox (size : ℕ) where
  message : Mailbox.Message
  phase : MailPhase
  nextTicket : UInt64
  result : Int64
  bytes : Buffer size

abbrev MailM (size : ℕ) := Prog (Mailbox size) MonitorStatus

namespace Mailbox

variable {size : ℕ}

def new : Mailbox size := ⟨.none, .empty, 1, 0, .zero⟩

def clear (m : Mailbox size) : Mailbox size :=
  { m with bytes := .zero, phase := .empty, result := 0, message := .none }

def runningTicket (m : Mailbox size) : Option UInt64 :=
  if m.phase = .running then some m.message.ticket else none

def retainsWorker (m : Mailbox size) (ticket : UInt64) : Bool :=
  ticket ≠ 0 && ticket < m.nextTicket &&
    match m.phase with
    | .empty => true
    | .submitted => ticket < m.message.ticket
    | .running => m.message.ticket = ticket
    | .completed => false

def submit (handle : UInt64) (operation : UInt32) (length : ℕ) (snapshot : Bytes) :
    MailM size UInt64 := do
  let m ← get
  check (m.phase = .empty) .busy
  check (¬ (handle = 0 ∨ operation = 0 ∨ length = 0 ∨ length > snapshot.length ∨
    snapshot.length > size)) .invalidArgs
  let ticket := m.nextTicket
  let nextTicket ← some? (ticket.checkedAdd 1) .noResources
  modify fun m =>
    { m with
      nextTicket
      bytes := .ofBytes snapshot
      message := ⟨ticket, handle, operation, length, snapshot.length⟩
      phase := .submitted }
  return ticket

/-- The message, and the bytes copied to a destination of length `len`. -/
def fetch (len : ℕ) : MailM size (Mailbox.Message × Bytes) := do
  let m ← get
  check (m.phase = .submitted) .busy
  check (len = size) .invalidArgs
  modify fun m => { m with phase := .running }
  return (m.message, m.bytes.toList)

def complete (ticket : UInt64) (result : Int64) (response : Bytes) : MailM size Unit := do
  let m ← get
  check (m.phase = .running ∧ ticket = m.message.ticket) .invalidHandle
  check (response.length = size) .invalidArgs
  modify fun m =>
    { m with
      bytes := m.bytes.put (response.take m.message.capacity)
      result
      phase := .completed }

def capacity (m : Mailbox size) (handle ticket : UInt64) : Except MonitorStatus ℕ :=
  if m.phase = .empty ∨ m.message.handle ≠ handle ∨ m.message.ticket ≠ ticket then
    .error .invalidHandle
  else .ok m.message.capacity

/-- The result, and the bytes copied to a destination of length `len`. -/
def poll (handle ticket : UInt64) (len : ℕ) : MailM size (Int64 × Bytes) := do
  let m ← get
  let capacity ← lift (m.capacity handle ticket)
  check (len = capacity) .invalidArgs
  check (m.phase = .completed) .busy
  modify clear
  return (m.result, m.bytes.toList.take capacity)

def revoke (handle : UInt64) : MailM size Unit := do
  let m ← get
  when (m.phase ≠ .empty ∧ m.message.handle = handle) (modify clear)

/-! ### Its snapshot -/

def HEADER : ℕ := 80

def stateBytes (size : ℕ) : ℕ := HEADER + size + 32

def phaseByte : MailPhase → UInt8
  | .empty => 0
  | .submitted => 1
  | .running => 2
  | .completed => 3

/-- The fields of a snapshot before the digest. -/
def fields (domain nextTicket : UInt64) (phase : MailPhase) (message : Mailbox.Message) (result : Int64)
    (bytes : Bytes) : List Bytes :=
  [ascii "BEXMB001", wordBytes domain, wordBytes nextTicket, [phaseByte phase], zeros 7,
    wordBytes message.ticket, wordBytes message.handle, halfBytes message.operation,
    halfBytes (UInt32.ofNat message.length), halfBytes (UInt32.ofNat message.capacity), zeros 4,
    wordBytes result.toUInt64, zeros 8, bytes]

variable (sha256 : Bytes → Buffer 32)

/-- A snapshot into an output of length `len`.  The fields of an empty mailbox's message are left
zero. -/
def snapshot (m : Mailbox size) (domain : UInt64) (len : ℕ) : Except MonitorStatus Bytes :=
  if domain = 0 ∨ len ≠ stateBytes size then .error .invalidArgs
  else
    let body :=
      if m.phase = .empty then fields domain m.nextTicket .empty .none 0 (zeros size)
      else fields domain m.nextTicket m.phase m.message m.result m.bytes.toList
    .ok (body ++ [(sha256 body.flatten).toList]).flatten

def readPhase (b : UInt8) : Option MailPhase :=
  if b = 0 then some .empty
  else if b = 1 then some .submitted
  else if b = 2 then some .running
  else if b = 3 then some .completed
  else none

def readMessage (input : Bytes) : Mailbox.Message :=
  ⟨wordAt 32 input, wordAt 40 input, halfAt 48 input, (halfAt 52 input).toNat,
    (halfAt 56 input).toNat⟩

/-- The checks on a snapshot. -/
def validate (size : ℕ) (domain : UInt64) (input : Bytes) (registered : UInt64 → ℕ → Bool) :
    Except MonitorStatus (MailPhase × Mailbox.Message × Int64 × UInt64) :=
  if input.length ≠ stateBytes size ∨ domain = 0 ∨ slice 0 8 input ≠ ascii "BEXMB001" then
    .error .invalidArgs
  else if wordAt 8 input ≠ domain ∨ wordAt 16 input = 0 ∨ slice 25 7 input ≠ zeros 7 ∨
      slice 60 4 input ≠ zeros 4 ∨ slice 72 8 input ≠ zeros 8 ∨
      slice (HEADER + size) 32 input ≠ (sha256 (slice 0 (HEADER + size) input)).toList then
    .error .accessDenied
  else
    match (slice 24 1 input).head?.bind readPhase with
    | none => .error .invalidArgs
    | some phase =>
      let message := readMessage input
      let result := (wordAt 64 input).toInt64
      if phase = .empty then
        if slice 32 (HEADER + size - 32) input ≠ zeros (HEADER + size - 32) then
          .error .invalidArgs
        else .ok (phase, message, result, wordAt 16 input)
      else if message.ticket = 0 ∨ message.ticket ≥ wordAt 16 input ∨ message.handle = 0 ∨
          message.operation = 0 ∨ message.length = 0 ∨ message.length > message.capacity ∨
          message.capacity > size ∨ (phase ≠ .completed ∧ result ≠ 0) ∨
          slice (HEADER + message.capacity) (size - message.capacity) input ≠
            zeros (size - message.capacity) ∨
          ¬ registered message.handle message.capacity then
        .error .invalidArgs
      else .ok (phase, message, result, wordAt 16 input)

/-- A restored mailbox takes nothing from the one it replaces. -/
def restoreProtected (domain : UInt64) (input : Bytes) (registered : UInt64 → ℕ → Bool) :
    MailM size Unit := do
  let (phase, message, result, nextTicket) ← lift (validate sha256 size domain input registered)
  modify fun _ => ⟨message, phase, nextTicket, result, .ofBytes (slice HEADER size input)⟩

end Mailbox

/-! ### Two lanes and one worker -/

structure Lanes (size : ℕ) where
  normal : Mailbox size
  root : Mailbox size
  /-- The lane and the ticket of the request that the worker has. -/
  active : Option (Bool × UInt64)

abbrev LanesM (size : ℕ) := Prog (Lanes size) MonitorStatus

namespace Lanes

variable {size : ℕ}

def new : Lanes size := ⟨.new, .new, none⟩

/-- The lane of a handle. -/
def isRoot (handle : UInt64) : Bool := handle = BOOT_OWNER_HANDLE

def lane (l : Lanes size) (root : Bool) : Mailbox size := if root then l.root else l.normal

def setLane (root : Bool) (m : Mailbox size) (l : Lanes size) : Lanes size :=
  if root then { l with root := m } else { l with normal := m }

def onLane {α : Type} (root : Bool) (x : MailM size α) : LanesM size α :=
  zoom (fun l => l.lane root) (setLane root) x

def submit (handle : UInt64) (operation : UInt32) (length : ℕ) (bytes : Bytes) :
    LanesM size UInt64 :=
  onLane (isRoot handle) (Mailbox.submit handle operation length bytes)

def poll (handle ticket : UInt64) (len : ℕ) : LanesM size (Int64 × Bytes) :=
  onLane (isRoot handle) (Mailbox.poll handle ticket len)

def revoke (handle : UInt64) : LanesM size Unit := onLane (isRoot handle) (Mailbox.revoke handle)

/-- The worker takes the message of a lane. -/
def take (root : Bool) (message : Mailbox.Message × Bytes) : LanesM size (Mailbox.Message × Bytes) := do
  modify fun l => { l with active := some (root, message.1.ticket) }
  return message

def fetch (len : ℕ) : LanesM size (Mailbox.Message × Bytes) := do
  let l ← get
  check (l.active = none) .busy
  match ← attempt (onLane true (Mailbox.fetch len)) with
  | .ok message => take true message
  | .error .busy => do
    let message ← onLane false (Mailbox.fetch len)
    take false message
  | .error e => fail e

def complete (ticket : UInt64) (result : Int64) (response : Bytes) : LanesM size Unit := do
  let l ← get
  let active ← some? l.active .invalidHandle
  check (ticket = active.2) .invalidHandle
  check (response.length = size) .invalidArgs
  let outcome ← attempt (onLane active.1 (Mailbox.complete ticket result response))
  modify fun l => { l with active := none }
  lift outcome

def HEADER : ℕ := 32

def END (size : ℕ) : ℕ := HEADER + Mailbox.stateBytes size + Mailbox.stateBytes size

def stateBytes (size : ℕ) : ℕ := END size + 32

/-- Which lane the worker's request is from. -/
def activeByte : Option (Bool × UInt64) → UInt8
  | some (root, _) => if root then 2 else 1
  | none => 0

def activeTicket : Option (Bool × UInt64) → UInt64
  | some (_, ticket) => ticket
  | none => 0

variable (sha256 : Bytes → Buffer 32)

def snapshot (l : Lanes size) (domain : UInt64) (len : ℕ) : Except MonitorStatus Bytes :=
  if len ≠ stateBytes size then .error .invalidArgs
  else do
    let normal ← l.normal.snapshot sha256 domain (Mailbox.stateBytes size)
    let root ← l.root.snapshot sha256 BOOT_OWNER_HANDLE (Mailbox.stateBytes size)
    let body := [ascii "BEXLM001", [activeByte l.active], zeros 7, wordBytes (activeTicket l.active),
      zeros 8, normal, root]
    return (body ++ [(sha256 body.flatten).toList]).flatten

def readActive (kind : UInt8) (ticket : UInt64) : Except MonitorStatus (Option (Bool × UInt64)) :=
  if kind = 0 ∧ ticket = 0 then .ok none
  else if kind = 1 ∧ ticket ≠ 0 then .ok (some (false, ticket))
  else if kind = 2 ∧ ticket ≠ 0 then .ok (some (true, ticket))
  else .error .invalidArgs

/-- The lanes of a snapshot. -/
def restored (domain : UInt64) (input : Bytes) (registered : UInt64 → ℕ → Bool) :
    LanesM size Unit := do
  let active ← lift (readActive ((slice 8 1 input).headD 0) (wordAt 16 input))
  onLane false (Mailbox.restoreProtected sha256 domain
    (slice HEADER (Mailbox.stateBytes size) input)
    fun handle n => handle ≠ BOOT_OWNER_HANDLE && registered handle n)
  onLane true (Mailbox.restoreProtected sha256 BOOT_OWNER_HANDLE
    (slice (HEADER + Mailbox.stateBytes size) (Mailbox.stateBytes size) input)
    fun handle n => handle = BOOT_OWNER_HANDLE && registered handle n)
  forEach [false, true] fun root => do
    let l ← get
    check ((l.lane root).runningTicket.all fun running => active = some (root, running))
      .invalidArgs
  let l ← get
  check (active.all fun (root, ticket) => (l.lane root).retainsWorker ticket) .invalidArgs
  modify fun l => { l with active }

/-- Everything is checked on new lanes, which then replace the present ones. -/
def restoreProtected (domain : UInt64) (input : Bytes) (registered : UInt64 → ℕ → Bool) :
    LanesM size Unit := do
  check (input.length = stateBytes size) .invalidArgs
  check (slice 0 8 input = ascii "BEXLM001" ∧ slice 9 7 input = zeros 7 ∧
    slice 24 8 input = zeros 8 ∧
    slice (END size) 32 input = (sha256 (slice 0 (END size) input)).toList) .accessDenied
  adopt new (restored sha256 domain input registered)

end Lanes

/-- The operations on the lanes. -/
inductive LaneOp where
  | submit (handle : UInt64) (operation : UInt32) (length : ℕ) (bytes : Bytes)
  | fetch (len : ℕ)
  | complete (ticket : UInt64) (result : Int64) (response : Bytes)
  | poll (handle ticket : UInt64) (len : ℕ)
  | revoke (handle : UInt64)
  /-- The monitor is replaced: a snapshot is restored into new lanes, which take over if the
  restore succeeds. -/
  | handOver (domain : UInt64) (registered : UInt64 → ℕ → Bool)

namespace Lanes

variable {size : ℕ} (sha256 : Bytes → Buffer 32)

/-- The lanes that take over from a snapshot. -/
def handOver (domain : UInt64) (registered : UInt64 → ℕ → Bool) : LanesM size Unit := do
  let l ← get
  let input ← lift (l.snapshot sha256 domain (stateBytes size))
  adopt new (restoreProtected sha256 domain input registered)

def exec : LaneOp → LanesM size Unit
  | .submit handle operation length bytes => do let _ ← submit handle operation length bytes
  | .fetch len => do let _ ← fetch len
  | .complete ticket result response => complete ticket result response
  | .poll handle ticket len => do let _ ← poll handle ticket len
  | .revoke handle => revoke handle
  | .handOver domain registered => handOver sha256 domain registered

/-- The lanes after an operation, whether it succeeded or returned an error. -/
def step (op : LaneOp) (l : Lanes size) : Option (Lanes size) := (exec sha256 op l).state?

end Lanes

end Bexos
