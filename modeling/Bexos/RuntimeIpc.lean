/-
Waiting, channels, calls, sockets and interrupts (`runtime/mod.rs`).

* `Runtime.signalsOf` — the signals of an object, computed from queues, pending calls,
  reference counts and exit flags; `Runtime.objectSignals` is the checked form;
* `Runtime.waitMany`, `Runtime.wakeWaitersForObject` — waiting on several handles, and the
  wakeups operations issue by hand;
* `Runtime.writeMessage`, `Runtime.readMessage` — queued messages that carry capabilities;
* `Runtime.call`, `Runtime.readCall`, `Runtime.replyCall` — synchronous calls;
* sockets and interrupts.
-/
import Bexos.RuntimeObjects

namespace Bexos

open Prog

namespace RuntimeCall

/-- A call nobody has read. -/
def unread (c : RuntimeCall) : Bool := !c.serving && c.reply.isNone

/-- Does a call belong to a thread that called from an end? -/
def isFrom (callerEnd : End) (callerThread : ℕ) (c : RuntimeCall) : Bool :=
  c.callerEnd == callerEnd && c.callerThread == callerThread

end RuntimeCall

inductive InterruptDelivery where
  | signaled | floodLimited | masked | notBound
  deriving DecidableEq

namespace Interrupt

/-- Would a delivery reach this interrupt? -/
def accepts (irqNumber : UInt32) (i : Interrupt) : Bool :=
  i.irqNumber == irqNumber && !(i.masked || i.awaitingAck)

/-- One delivery: counted in a window of a second, held until acknowledged, and masked for
good beyond the flood limit. -/
def deliver (nowNs : UInt64) (i : Interrupt) : Interrupt :=
  let newWindow := nowNs.satSub i.windowStartedNs ≥ 1000000000
  let before := if newWindow then 0 else i.eventsInWindow
  let events := if before = 0xffffffff then before else before + 1
  { i with
    windowStartedNs := if newWindow then nowNs else i.windowStartedNs
    eventsInWindow := events
    masked := true
    awaitingAck := !(events > i.floodLimitPerSecond) }

end Interrupt

namespace Runtime

variable {B : Type}

/-! ### Signals -/

section Signals

variable (s : Runtime B)

/-- The calls made from an end wait at the other one. -/
def callsFrom (id : ℕ) (callerEnd : End) : List RuntimeCall :=
  ((s.channels[id]?).map (·.calls.get callerEnd.peer)).getD []

def hasPendingCall (thread id : ℕ) (callerEnd : End) : Bool :=
  (s.callsFrom id callerEnd).any fun c =>
    c.isFrom callerEnd thread && c.reply.isNone

def hasCompletedCallReply (thread id : ℕ) (callerEnd : End) : Bool :=
  (s.callsFrom id callerEnd).any fun c =>
    c.isFrom callerEnd thread && c.reply.isSome

def channelSignals (thread id : ℕ) (e : End) (c : Channel) : UInt32 :=
  (if c.queues.get e ≠ [] ∨ (c.calls.get e).any RuntimeCall.unread ∨
      s.hasCompletedCallReply thread id e then SIGNAL_READABLE else 0) |||
  (if c.refs.get e.peer > 0 then SIGNAL_WRITABLE else SIGNAL_PEER_CLOSED)

def socketSignals (e : End) (c : Socket) : UInt32 :=
  (if c.queues.get e ≠ [] then SIGNAL_READABLE else 0) |||
  (if ¬ c.writeClosed.get e ∧ ¬ c.readClosed.get e.peer ∧ c.refs.get e.peer > 0 then
    SIGNAL_WRITABLE else 0) |||
  (if c.refs.get e.peer = 0 ∨ c.writeClosed.get e.peer then SIGNAL_PEER_CLOSED else 0)

/-- The signals of an object, as a thread sees them. -/
def signalsOf (thread : ℕ) : Object → UInt32
  | .channel id e => (s.channels[id]?).elim 0 (s.channelSignals thread id e)
  | .socket id e => (s.sockets[id]?).elim 0 (socketSignals e)
  | .thread id => if (s.threads[id]?).any (·.exited) then SIGNAL_TERMINATED else 0
  | .process id => if (s.processes[id]?).any (·.exited) then SIGNAL_TERMINATED else 0
  | .job id =>
    if (s.processes.filter (·.job == some id)).all (·.exited) then SIGNAL_TERMINATED else 0
  | .interrupt id =>
    if ((s.interrupts[id]?).join).any fun i => i.awaitingAck || i.masked then SIGNAL_READABLE
    else 0
  | _ => SIGNAL_WRITABLE

def objectSignals (h : ℕ) : Except Status UInt32 := do
  let cap ← s.capability h 0
  return s.signalsOf s.currentThread cap.object

/-- The first item whose signals are up, with its index and signals. -/
def firstReady : ℕ → List (ℕ × UInt32) → Except Status (Option (ℕ × UInt32))
  | _, [] => .ok none
  | index, (h, requested) :: items => do
    let observed ← s.objectSignals h
    if observed &&& requested ≠ 0 then return some (index, observed)
    else firstReady (index + 1) items

end Signals

/-! ### Waking -/

/-- The handles that name an object, whoever owns them. -/
def handlesNaming (s : Runtime B) (object : Object) : List ℕ :=
  (List.range s.handles.length).filterMap fun i =>
    if ((s.handles[i]?).join).any (·.object == object) then some (i + 1) else none

/-- A thread still marked as waiting although its task no longer is. -/
def staleWait (s : Runtime B) (i : ℕ) : Bool :=
  (s.threads[i]?).any (fun t => !t.exited && (t.blockedWaitMany || t.blockedFutex.isSome)) &&
    s.scheduler.blockStates.any fun (id, blocked) => !blocked && id == i + 1

def clearUnblockedWaitManyThreads : RtM B Unit := do
  let s ← get
  let stale := (List.range s.threads.length).filter s.staleWait
  forEach stale fun i =>
    modify (modifyThread i fun t =>
      { t with blockedWaitMany := false, blockedFutex := none, running := true })
  forEach stale (changed .thread)

def wakeWaitersForObject (object : Object) (signals : UInt32) : RtM B Unit := do
  let s ← get
  forEach (s.handlesNaming object) fun h => do
    let _ ← sched (Scheduler.wakeHandleWaiters h signals)
    return ()
  clearUnblockedWaitManyThreads

/-- The wait items kept with a blocked task: the first eight, padded. -/
def storedItems (items : List (ℕ × UInt32)) : List.Vector (ℕ × UInt32) MAX_WAIT_MANY_ITEMS :=
  ⟨(items ++ List.replicate MAX_WAIT_MANY_ITEMS (0, 0)).take MAX_WAIT_MANY_ITEMS, by simp⟩

/-- Block the running task until one of the items is signalled or the deadline passes. -/
def blockOnItems (items : List (ℕ × UInt32)) (deadlineNanos : Int64) : RtM B Unit := do
  let s ← get
  modify (modifyThread s.currentThread fun t =>
    { t with blockedWaitMany := true, running := false })
  let _ ← sched (Scheduler.blockCurrent (.waitMany (storedItems items)
    (min items.length MAX_WAIT_MANY_ITEMS)
    (if deadlineNanos < 0 then UInt64.maxValue else deadlineNanos.toUInt64)))
  changed .thread s.currentThread

def waitMany (items : List (ℕ × UInt32)) (deadlineNanos : Int64) : RtM B (ℕ × UInt32) := do
  let s ← get
  match ← lift (s.firstReady 0 items) with
  | some found => return found
  | none => do
    when (deadlineNanos ≠ 0 ∧ items ≠ []) (blockOnItems items deadlineNanos)
    fail .errTimedOut

/-! ### Scheduling profiles and resource groups -/

abbrev checkRealtime : RtM B Unit := do
  let p ← currentProcess
  check p.realtimeScheduling .errAccessDenied

def validateProfileRequest : SchedulingProfile → RtM B Unit
  | .fair f => do
    check (¬ (f.priority = 0 ∨ f.weight = 0)) .errInvalidArgs
    when (f.priority > 127) checkRealtime
  | .deadline d => do
    check d.valid .errInvalidArgs
    checkRealtime

abbrev createSchedulingProfile (profile : SchedulingProfile) : RtM B ℕ := do
  validateProfileRequest profile
  let s ← get
  let id := s.profiles.length
  modify fun s => { s with profiles := s.profiles ++ [profile] }
  changed .profile id
  grantCurrent (.profile id) (ADMIN ||| TRANSFER ||| DUPLICATE)

abbrev openResourceGroup (id : UInt32) : RtM B ℕ := do
  check (1 ≤ id ∧ id ≤ 4) .errInvalidArgs
  schedOrStatus (Scheduler.ensureResourceGroup id)
  grantCurrent (.resourceGroup id) (ADMIN ||| READ ||| TRANSFER ||| DUPLICATE)

/-- The least number above the built-in groups that names no group. Among one more number
than there are groups, one is free. -/
def freeGroupId (s : Runtime B) : Option UInt32 :=
  ((List.range (s.scheduler.groups.length + 1)).find? fun i =>
    5 + i < 2 ^ 32 && (s.scheduler.resourceGroup (UInt32.ofNat (5 + i))).isNone).map fun i =>
      UInt32.ofNat (5 + i)

def resourceGroupParent : Option ℕ → RtM B (Option UInt32)
  | none => return none
  | some h => do
    let c ← cap h READ
    let id ← some? c.object.resourceGroup? .errInvalidHandle
    return some id

abbrev createResourceGroupV2 (parentHandle : Option ℕ) (cpuShares : UInt32)
    (maxUtilizationPermille : UInt16) (allowRealtime : Bool) : RtM B (UInt32 × ℕ) := do
  let parentId ← resourceGroupParent parentHandle
  let s ← get
  let id ← some? s.freeGroupId .errResourceExhausted
  schedOrStatus (Scheduler.ensureResourceGroupWithLimits id parentId cpuShares
    maxUtilizationPermille allowRealtime)
  let h ← grantCurrent (.resourceGroup id) (ADMIN ||| READ ||| TRANSFER ||| DUPLICATE)
  return (id, h)

/-! ### Channels -/

abbrev createChannel : RtM B (ℕ × ℕ) := do
  let id ← insertChannel
  let a ← grantCurrent (.channel id .zero) CHANNEL_RIGHTS
  let b ← grantCurrent (.channel id .one) CHANNEL_RIGHTS
  return (a, b)

/-- The channel end behind a handle, and the state of the channel. -/
def channelEnd (h : ℕ) (rights : UInt32) : RtM B (ℕ × End × Channel) := do
  let c ← cap h rights
  let (id, e) ← some? c.object.channel? .errInvalidHandle
  let s ← get
  let channel ← unwrap s.channels[id]?
  return (id, e, channel)

/-- Every handle to be sent is held with the transfer right, listed once, and not the handle
it is sent through. -/
abbrev checkTransfer (own : ℕ) (handles : List ℕ) : RtM B Unit :=
  forEach handles.zipIdx fun (h, i) => do
    let _ ← cap h TRANSFER
    check (h ∉ handles.take i ∧ h ≠ own) .errInvalidArgs

/-- Give the capabilities behind handles, all of them present, to an owner. -/
def assignAll (handles : List ℕ) (owner : ℕ) : RtM B Unit :=
  forEach handles fun h => do
    let s ← get
    let _ ← unwrap (s.slot h)
    modify (setOwner (h - 1) owner)
    changed .handle (h - 1)

def writeMessage (h : ℕ) (bytes : Bytes) (handles : List ℕ) : RtM B Unit := do
  let (id, e, channel) ← channelEnd h WRITE
  check (bytes.length ≤ 65536 ∧ handles.length ≤ 64) .errBufferTooSmall
  check (channel.refs.get e.peer ≠ 0) .errPeerClosed
  check ((channel.queues.get e.peer).length < 64) .errNoMemory
  checkTransfer h handles
  assignAll handles IN_TRANSIT
  modify (modifyChannel id fun c =>
    { c with queues := c.queues.modify e.peer (· ++ [⟨bytes, handles⟩]) })
  changed .channel id
  wakeWaitersForObject (.channel id e.peer) SIGNAL_READABLE

def prepareTransferMessage (own : ℕ) (bytes : Bytes) (handles : List ℕ) : RtM B Message := do
  check (bytes.length ≤ 65536 ∧ handles.length ≤ 64) .errBufferTooSmall
  checkTransfer own handles
  assignAll handles IN_TRANSIT
  return ⟨bytes, handles⟩

/-- Give the capabilities of a message that are still there to an owner. -/
def restoreMessageHandles (message : Message) (owner : ℕ) : RtM B Unit :=
  forEach message.handles fun h => do
    let s ← get
    if h = 0 then halt
    else do
      let c ← unwrap s.handles[h - 1]?
      when (c.isSome) do
        modify (setOwner (h - 1) owner)
        changed .handle (h - 1)

def deliverRuntimeMessage (message : Message) (maxBytes maxHandles : ℕ) : RtM B Message := do
  check (message.bytes.length ≤ maxBytes ∧ message.handles.length ≤ maxHandles)
    .errBufferTooSmall
  let s ← get
  assignAll message.handles s.current
  return message

def readMessage (h : ℕ) (maxBytes maxHandles : ℕ) : RtM B Message := do
  let (id, e, channel) ← channelEnd h READ
  match channel.queues.get e with
  | [] =>
    if channel.refs.get e.peer = 0 then fail .errPeerClosed else fail .errTimedOut
  | front :: rest => do
    check (front.bytes.length ≤ maxBytes ∧ front.handles.length ≤ maxHandles)
      .errBufferTooSmall
    modify (modifyChannel id fun c => { c with queues := c.queues.modify e fun _ => rest })
    changed .channel id
    wakeWaitersForObject (.channel id e.peer) SIGNAL_WRITABLE
    let s ← get
    assignAll front.handles s.current
    return front

def setChannelPolicy (h : ℕ) (enablePriorityInheritance enableTimesliceDonation : Bool) :
    RtM B Unit := do
  let (id, _, _) ← channelEnd h 0
  modify (modifyChannel id fun c =>
    { c with policy := ⟨enablePriorityInheritance, enableTimesliceDonation⟩ })
  changed .channel id

/-! ### Calls -/

section Calls

variable [Backend B]

/-- Zero never waits, a negative deadline never expires. -/
def runtimeDeadlineExpired (nowNanos : UInt64) (deadlineNanos : Int64) : Bool :=
  deadlineNanos = 0 || (deadlineNanos > 0 && nowNanos ≥ deadlineNanos.toUInt64)

def nowNs (s : Runtime B) : UInt64 := (Backend.monotonicNs s.backend).getD 0

/-- Take the reply to a call of the current thread, if one has come. -/
def takeCompletedCallReply (id : ℕ) (callerEnd : End) : RtM B (Option Message) := do
  let s ← get
  let done (c : RuntimeCall) : Bool := c.isFrom callerEnd s.currentThread && c.reply.isSome
  match (s.callsFrom id callerEnd).find? done with
  | none => return none
  | some c => do
    modify (modifyChannel id fun channel =>
      { channel with calls := channel.calls.modify callerEnd.peer (·.eraseP done) })
    return c.reply

/-- Queue a request and block the caller until the channel is readable. -/
def sendCall (h id : ℕ) (e : End) (request : Message) : RtM B Unit := do
  let s ← get
  modify (modifyChannel id fun c =>
    { c with
      nextCallId := c.nextCallId.satAdd 1
      calls := c.calls.modify e.peer (· ++
        [{ id := c.nextCallId
           callerEnd := e
           callerThread := s.currentThread
           request
           reply := none
           serving := false
           serverThread := none }]) })
  changed .channel id
  let _ ← sched (Scheduler.blockCurrent (.handleSignals h SIGNAL_READABLE))
  return ()

def call (h : ℕ) (bytes : Bytes) (handles : List ℕ) (deadlineNanos : Int64)
    (maxReplyBytes maxReplyHandles : ℕ) : RtM B Message := do
  let (id, e, channel) ← channelEnd h (READ ||| WRITE)
  match ← takeCompletedCallReply id e with
  | some reply => deliverRuntimeMessage reply maxReplyBytes maxReplyHandles
  | none => do
    let s ← get
    check (¬ s.hasPendingCall s.currentThread id e) .errTimedOut
    check (¬ runtimeDeadlineExpired s.nowNs deadlineNanos) .errTimedOut
    let request ← prepareTransferMessage h bytes handles
    if channel.refs.get e.peer = 0 then do
      restoreMessageHandles request s.current
      fail .errPeerClosed
    else do
      sendCall h id e request
      fail .errTimedOut

/-- Mark a call as being served, and mint the token to answer it. -/
def serveCall (id : ℕ) (e : End) (c : RuntimeCall) (index : ℕ) : RtM B ℕ := do
  let s ← get
  modify (modifyChannel id fun channel =>
    { channel with
      calls := channel.calls.modify e (·.modify index fun c =>
        { c with serving := true, serverThread := some s.currentThread }) })
  grantCurrent (.replyToken id e c.id) WRITE

/-- Lend the server the priority of the caller. -/
def donateForCall (policy : ChannelPolicy) (callerThread : ℕ) : RtM B Unit := do
  let s ← get
  match s.scheduler.task (callerThread + 1) with
  | none => return ()
  | some caller =>
    when (policy.enablePriorityInheritance ∨ policy.enableTimesliceDonation) do
      let _ ← sched (Scheduler.donatePriority (s.currentThread + 1) caller.effectivePriority)
      return ()

def readCall (h : ℕ) (deadlineNanos : Int64) (maxBytes maxHandles : ℕ) : RtM B (Message × ℕ) := do
  let (id, e, channel) ← channelEnd h READ
  let s ← get
  check (¬ (runtimeDeadlineExpired s.nowNs deadlineNanos ∧
    (channel.calls.get e).all fun c => c.serving || c.reply.isSome)) .errTimedOut
  let index ← some? ((channel.calls.get e).findIdx? RuntimeCall.unread) .errTimedOut
  let c ← unwrap (channel.calls.get e)[index]?
  let delivered ← deliverRuntimeMessage c.request maxBytes maxHandles
  let token ← serveCall id e c index
  donateForCall channel.policy c.callerThread
  changed .channel id
  return (delivered, token)

/-- Does a call answer to a token? -/
def answers (callId : UInt64) (c : RuntimeCall) : Bool := c.id == callId && c.serving

/-- Store a reply, give the server its own priority back and wake the caller. -/
def completeCall (id : ℕ) (e : End) (callId : UInt64) (c : RuntimeCall) (reply : Message) :
    RtM B Unit := do
  modify (modifyChannel id fun channel =>
    { channel with
      calls := channel.calls.modify e
        (updateFirst (answers callId) fun c => { c with reply := some reply }) })
  match c.serverThread with
  | none => return ()
  | some serverThread => do
    let _ ← sched (Scheduler.restoreBasePriority (serverThread + 1))
    return ()

def replyCall (token : ℕ) (bytes : Bytes) (handles : List ℕ) : RtM B Unit := do
  let tokenCap ← cap token WRITE
  let (id, e, callId) ← some? tokenCap.object.replyToken? .errInvalidHandle
  let reply ← prepareTransferMessage token bytes handles
  modify (clearSlot (token - 1))
  changed .handle (token - 1)
  let s ← get
  let channel ← unwrap s.channels[id]?
  match (channel.calls.get e).find? (answers callId) with
  | none => do
    restoreMessageHandles reply s.current
    fail .errInvalidHandle
  | some c => do
    completeCall id e callId c reply
    let _ ← sched (Scheduler.wakeTask (c.callerThread + 1))
    changed .channel id

end Calls

/-! ### Sockets -/

def createSocketPair : RtM B (ℕ × ℕ) := do
  let s ← get
  let id := s.sockets.length
  modify fun s =>
    { s with sockets := s.sockets ++ [⟨⟨[], []⟩, ⟨0, 0⟩, ⟨false, false⟩, ⟨false, false⟩⟩] }
  let a ← grantCurrent (.socket id .zero) CHANNEL_RIGHTS
  let b ← grantCurrent (.socket id .one) CHANNEL_RIGHTS
  return (a, b)

def socketEnd (h : ℕ) (rights : UInt32) : RtM B (ℕ × End × Socket) := do
  let c ← cap h rights
  let (id, e) ← some? c.object.socket? .errInvalidHandle
  let s ← get
  let socket ← unwrap s.sockets[id]?
  return (id, e, socket)

def writeSocket (h : ℕ) (bytes : Bytes) : RtM B ℕ := do
  let (id, e, socket) ← socketEnd h WRITE
  check (bytes.length ≤ 65536) .errBufferTooSmall
  check (¬ (socket.writeClosed.get e ∨ socket.readClosed.get e.peer ∨
    socket.refs.get e.peer = 0)) .errPeerClosed
  check ((socket.queues.get e.peer).length < 64) .errNoMemory
  modify (modifySocket id fun c => { c with queues := c.queues.modify e.peer (· ++ [bytes]) })
  changed .socket id
  return bytes.length

def readSocket (h : ℕ) (maxBytes : ℕ) : RtM B Bytes := do
  let (id, e, socket) ← socketEnd h READ
  check (maxBytes ≤ 65536) .errBufferTooSmall
  check (¬ socket.readClosed.get e) .errPeerClosed
  match socket.queues.get e with
  | [] =>
    if socket.writeClosed.get e.peer ∨ socket.refs.get e.peer = 0 then fail .errPeerClosed
    else fail .errTimedOut
  | bytes :: rest => do
    let rest := if bytes.length > maxBytes then bytes.drop maxBytes :: rest else rest
    modify (modifySocket id fun c => { c with queues := c.queues.modify e fun _ => rest })
    changed .socket id
    return bytes.take maxBytes

def shutdownSocket (h : ℕ) (read write : Bool) : RtM B Unit := do
  let (id, e, _) ← socketEnd h 0
  let s ← get
  check (¬ (read ∧ (s.capability h READ).toOption.isNone)) .errAccessDenied
  check (¬ (write ∧ (s.capability h WRITE).toOption.isNone)) .errAccessDenied
  when read (modify (modifySocket id fun c =>
    { c with
      readClosed := c.readClosed.modify e fun _ => true
      queues := c.queues.modify e fun _ => [] }))
  when write (modify (modifySocket id fun c =>
    { c with writeClosed := c.writeClosed.modify e fun _ => true }))
  changed .socket id

/-! ### Interrupts -/

abbrev bindInterrupt (irqNumber flags : UInt32) : RtM B ℕ := do
  let p ← currentProcess
  check (p.hardware = 2 ∧ ¬ p.quarantined) .errAccessDenied
  let s ← get
  check (¬ s.interrupts.any fun slot => slot.any fun i =>
    i.irqNumber == irqNumber && (i.flags &&& 1 == 0 || flags &&& 1 == 0)) .errAlreadyExists
  let id := firstFree s.interrupts
  modify fun s =>
    { s with
      interrupts := putSlot s.interrupts id
        { irqNumber, flags
          masked := false
          awaitingAck := false
          windowStartedNs := 0
          eventsInWindow := 0
          floodLimitPerSecond := DEFAULT_INTERRUPT_FLOOD_LIMIT_PER_SECOND } }
  changed .interrupt id
  grantCurrent (.interrupt id) (READ ||| WRITE ||| ADMIN ||| TRANSFER ||| DUPLICATE)

/-- The interrupt behind a handle with the write right. -/
abbrev boundInterrupt (h : ℕ) : RtM B (ℕ × Interrupt) := do
  let c ← cap h WRITE
  let id ← some? c.object.interrupt? .errInvalidHandle
  let s ← get
  let i ← some? (s.interrupts[id]?).join .errInvalidHandle
  return (id, i)

/-- Is a line held back by one of its handlers? -/
def hardwareMasked (s : Runtime B) (irqNumber : UInt32) : Bool :=
  s.interrupts.any fun slot => slot.any fun i =>
    i.irqNumber == irqNumber && (i.masked || i.awaitingAck)

def acknowledgeInterrupt (h : ℕ) : RtM B (UInt32 × Bool) := do
  let (id, i) ← boundInterrupt h
  check i.awaitingAck .errInvalidArgs
  modify (modifyInterrupt id fun i => { i with awaitingAck := false, masked := false })
  changed .interrupt id
  let s ← get
  return (i.irqNumber, s.hardwareMasked i.irqNumber)

def maskInterrupt (h : ℕ) (masked : Bool) : RtM B (UInt32 × Bool) := do
  let (id, i) ← boundInterrupt h
  check (¬ (¬ masked ∧ i.awaitingAck)) .errInvalidArgs
  modify (modifyInterrupt id fun i => { i with masked := masked })
  changed .interrupt id
  let s ← get
  return (i.irqNumber, s.hardwareMasked i.irqNumber)

def deliverInterrupt (irqNumber : UInt32) (nowNs : UInt64) : RtM B InterruptDelivery := do
  let s ← get
  let reached := (List.range s.interrupts.length).filter fun id =>
    ((s.interrupts[id]?).join).any (Interrupt.accepts irqNumber)
  let delivered := (reached.filterMap fun id => (s.interrupts[id]?).join).map
    (Interrupt.deliver nowNs)
  modify fun s =>
    { s with
      interrupts := s.interrupts.map (Option.map fun i =>
        if Interrupt.accepts irqNumber i then Interrupt.deliver nowNs i else i) }
  forEach reached fun id => do
    changed .interrupt id
    wakeWaitersForObject (.interrupt id) SIGNAL_READABLE
  if delivered.any (!·.awaitingAck) then return .floodLimited
  else if delivered.any (·.awaitingAck) then return .signaled
  else if s.interrupts.any fun slot => slot.any (·.irqNumber == irqNumber) then return .masked
  else return .notBound

end Runtime

end Bexos
