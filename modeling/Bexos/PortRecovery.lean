/-
Recovery of a switch port against exactly-once delivery.

A network stack receives and sends frames in transactions that its journal commits: what it does
while generation `g` is committed belongs to transaction `g + 1`.  `PortLedger` says where each
frame has to be: an accepted frame is queued, received in a transaction that is still open, or
retired with the transaction that received it; a staged frame is released by a commit of a later
generation.

* `PortChange` — what a call does to a port, by what the call tells the stack;
* `Timely` — a receive takes a frame stamped with the open transaction;
* **`exact_of_timely`** — in runs of timely calls the port agrees with the ledger;
* `lost_after_commit` — a frame that arrived before a commit is lost when it is received after it.

Design notes: the port stamps a frame when it arrives and not when it is received, so its stamp
can be older than the transaction that receives it.
-/
import Bexos.VirtualSwitch
import Mathlib.Data.List.TakeWhile

namespace Bexos

open Prog
open List (append_assoc append_nil map_append map_cons map_nil not_mem_nil)
open Option (elim_some some_inj)

variable {α : Type} {P : α → Prop} {as : List α} {c : Prop}

/-- A program that drops its result leaves the same state. -/
theorem state?_forget {σ ε : Type} (x : Prog σ ε α) (s : σ) :
    ((do let _ ← x : Prog σ ε Unit) s).state? = (x s).state? := by
  cases hrun : x s with
  | ok a t => rw [bind_of_ok hrun]; rfl
  | err e t => rw [bind_of_err hrun]; rfl
  | halt => simp only [bind, Prog.bind, hrun, Outcome.state?]

/-! ### Calls of one port -/

/-- A call of the switch, as one port sees it. -/
inductive PortOp where
  | offer (bytes : Bytes)
  | receive
  | stage (header : FrameHeader) (bytes : Bytes)
  | commit (generation : UInt64)
  | recover (committed : UInt64)

/-- What a call tells about a port. -/
inductive PortEvent where
  | quiet
  | accepted (bytes : Bytes)
  | received (bytes : Bytes)
  | staged (bytes : Bytes)
  | committed (generation : UInt64) (released : List Bytes)
  | recovered (committed : UInt64)

namespace Port

def exec : PortOp → PortM Unit
  | .offer bytes => ingressToPort bytes
  | .receive => do let _ ← receive
  | .stage header bytes => stageEgress header bytes
  | .commit generation => do let _ ← commitGeneration generation
  | .recover committed => recoverPort committed

/-- What a call tells: nothing, unless it returns. -/
def tell {α : Type} (tells : α → PortEvent) : Outcome Port SwitchError α → PortEvent
  | .ok a _ => tells a
  | _ => .quiet

/-- What a call tells the stack. -/
def event (p : Port) : PortOp → PortEvent
  | .offer bytes => tell (fun _ => .accepted bytes) (ingressToPort bytes p)
  | .receive => tell (Option.elim · .quiet fun frame => .received frame.bytes) (receive p)
  | .stage header bytes =>
    tell (fun _ => ((p.wire bytes).toOption.map .staged).getD .quiet) (stageEgress header bytes p)
  | .commit generation =>
    tell (fun frames => .committed generation (frames.map QueuedFrame.bytes))
      (commitGeneration generation p)
  | .recover committed => tell (fun _ => .recovered committed) (recoverPort committed p)

/-- The queues and the committed generation are the same. -/
def Same (p q : Port) : Prop :=
  q.rx = p.rx ∧ q.deliveredRx = p.deliveredRx ∧ q.stagedTx = p.stagedTx ∧
    q.committedGeneration = p.committedGeneration

end Port

/-- What a call does to the queues of a port. -/
inductive PortChange (p : Port) : PortEvent → Port → Prop
  | quiet {q : Port} : p.Same q → PortChange p .quiet q
  | accepted (bytes : Bytes) :
      PortChange p (.accepted bytes) { p with rx := p.rx ++ [⟨p.nextGeneration, bytes⟩] }
  | received {frame : QueuedFrame} {rest : List QueuedFrame} : p.rx = frame :: rest →
      PortChange p (.received frame.bytes)
        { p with rx := rest, deliveredRx := p.deliveredRx ++ [frame] }
  | staged (bytes : Bytes) :
      PortChange p (.staged bytes) { p with stagedTx := p.stagedTx ++ [⟨p.nextGeneration, bytes⟩] }
  | committed {generation : UInt64} : p.committedGeneration ≤ generation →
      PortChange p
        (.committed generation
          ((p.stagedTx.takeWhile (·.generation ≤ generation)).map QueuedFrame.bytes))
        { p with
          committedGeneration := generation
          deliveredRx := p.deliveredRx.filter (·.generation > generation)
          stagedTx := p.stagedTx.dropWhile (·.generation ≤ generation) }
  | recovered {committed : UInt64} : committed ≤ p.committedGeneration →
      PortChange p (.recovered committed)
        { p with
          committedGeneration := committed
          rx := p.deliveredRx.filter (·.generation > committed) ++ p.rx
          deliveredRx := []
          stagedTx := p.stagedTx.filter (·.generation ≤ committed) }

namespace Port

theorem state?_ingressToPort (p bytes) :
    (ingressToPort bytes p).state? = some (p.enqueue bytes) := by
  by_cases hroom : p.HasRoom
  · have hrun : ingressToPort bytes p = .ok () (p.enqueue bytes) :=
      check_of_true (s := p.enqueue bytes) hroom
    rw [hrun, Outcome.state?]
  · have hrun : ingressToPort bytes p = .err .queueFull (p.enqueue bytes) :=
      check_of_false (s := p.enqueue bytes) hroom
    rw [hrun, Outcome.state?]

theorem same_refl (p : Port) : p.Same p := ⟨rfl, rfl, rfl, rfl⟩

variable (p : Port)

theorem wp_ingressToPort (bytes) :
    wp (ingressToPort bytes) (fun _ q => PortChange p (.accepted bytes) q)
      (fun _ q => p.Same q) p := by
  simp only [ingressToPort, wp_bind, wp_get, wp_modify, wp_check, enqueue]
  constructor
  · intro hroom
    rw [if_pos hroom]
    exact .accepted bytes
  · intro hfull
    rw [if_neg hfull]
    exact ⟨rfl, rfl, rfl, rfl⟩

theorem wp_receive : wp receive
      (fun r q => PortChange p (r.elim .quiet fun frame => .received frame.bytes) q)
      (fun _ q => p.Same q) p := by
  simp only [receive, wp_bind, wp_get, wp_check]
  refine ⟨fun _ => ?_, fun _ => p.same_refl⟩
  cases hrx : p.rx with
  | nil => exact (wp_pure _).mpr (.quiet p.same_refl)
  | cons frame rest =>
    simp only [wp_bind, wp_modify, wp_pure, elim_some]
    exact .received hrx

theorem wp_stageEgress (header : FrameHeader) (bytes) : wp (stageEgress header bytes)
      (fun _ q => PortChange p (((p.wire bytes).toOption.map .staged).getD .quiet) q)
      (fun _ q => p.Same q) p := by
  simp only [stageEgress, wp_bind, wp_get, wp_when, wp_modify, wp_fail]
  refine ⟨fun _ => ⟨rfl, rfl, rfl, rfl⟩, fun _ => ⟨fun _ => ⟨rfl, rfl, rfl, rfl⟩, fun _ => ?_⟩⟩
  cases hwire : p.wire bytes with
  | error e => exact (wp_lift_error e).mpr p.same_refl
  | ok sent => exact (wp_lift_ok sent).mpr ((wp_modify _).mpr (.staged sent))

theorem wp_commitGeneration (generation) : wp (commitGeneration generation)
      (fun frames q => PortChange p (.committed generation (frames.map QueuedFrame.bytes)) q)
      (fun _ q => p.Same q) p := by
  simp only [commitGeneration, wp_bind, wp_get, wp_check, wp_modify, wp_pure]
  exact ⟨fun hle => .committed hle, fun _ => p.same_refl⟩

theorem wp_recoverPort (committed) :
    wp (recoverPort committed) (fun _ q => PortChange p (.recovered committed) q)
      (fun _ q => p.Same q) p := by
  simp only [recoverPort, wp_bind, wp_get, wp_check, wp_modify]
  exact ⟨fun hle => .recovered hle, fun _ => p.same_refl⟩

variable {p}

theorem change_of_wp {x} {tells : α → PortEvent} {q}
    (hx : wp x (fun a q => PortChange p (tells a) q) (fun _ q => p.Same q) p)
    (h : (x p).state? = some q) : PortChange p (tell tells (x p)) q := by
  cases hrun : x p with
  | ok a t =>
    rw [hrun, Outcome.state?, some_inj] at h
    have hchange := of_ok hx hrun
    exact h ▸ hchange
  | err e t =>
    rw [hrun, Outcome.state?, some_inj] at h
    have hsame := of_err hx hrun
    exact .quiet (h ▸ hsame)
  | halt =>
    rw [hrun, Outcome.state?] at h
    cases h

/-- A call changes a port as its event says. -/
theorem change_of_exec {op q} (h : (exec op p).state? = some q) : PortChange p (p.event op) q := by
  cases op with
  | offer bytes => exact change_of_wp (wp_ingressToPort p bytes) h
  | receive => exact change_of_wp (wp_receive p) ((state?_forget _ p).symm.trans h)
  | stage header bytes => exact change_of_wp (wp_stageEgress p header bytes) h
  | commit generation =>
    exact change_of_wp (wp_commitGeneration p generation) ((state?_forget _ p).symm.trans h)
  | recover committed => exact change_of_wp (wp_recoverPort p committed) h

end Port

/-! ### A port of the switch -/

namespace VirtualSwitch

/-- The call that a port sees of a call of the switch. -/
def portOp? (id : UInt64) (p : Port) : SwitchOp → Option PortOp
  | .ingress physicalInterface bytes =>
    (FrameHeader.parse bytes).toOption.bind fun header =>
      if p.Takes physicalInterface header then some (.offer (p.view bytes)) else none
  | .ingressToPort portId bytes =>
    if portId = id then (FrameHeader.parse bytes).toOption.map fun _ => .offer bytes else none
  | .receive portId => if portId = id then some .receive else none
  | .stageEgress portId bytes =>
    if portId = id then (FrameHeader.parse bytes).toOption.map (.stage · bytes) else none
  | .commitGeneration portId generation => if portId = id then some (.commit generation) else none
  | .recoverPort portId committed => if portId = id then some (.recover committed) else none

variable {s t : VirtualSwitch} {id : UInt64} {p : Port} {portId : UInt64}

/-- The switch after a call on a port. -/
theorem state?_onPort (portId : UInt64) (x : PortM α) (s : VirtualSwitch) :
    (onPort portId x s).state? = s.ports[portId]?.elim (some s) fun other =>
      (x other).state?.map fun q => { s with ports := s.ports.insert portId q } := by
  rw [onPort]
  cases s.ports[portId]? with
  | none => rfl
  | some other =>
    simp only [elim_some]
    cases x other <;> rfl

/-- A call on a port runs there and leaves the others alone. -/
theorem get_onPort {x : PortM α} (hp : s.ports[id]? = some p)
    (h : (onPort portId x s).state? = some t) :
    ∃ q, t.ports[id]? = some q ∧ if portId = id then (x p).state? = some q else p = q := by
  rw [state?_onPort] at h
  by_cases hid : portId = id
  · subst hid
    rw [hp, elim_some] at h
    obtain ⟨q, hq, rfl⟩ := Option.map_eq_some_iff.mp h
    exact ⟨q, by rw [OrdMap.get_insert, if_pos rfl], by rw [if_pos rfl, hq]⟩
  · simp only [if_neg hid]
    refine ⟨p, ?_, rfl⟩
    cases hother : s.ports[portId]? with
    | none =>
      rw [hother, Option.elim_none, some_inj] at h
      exact h ▸ hp
    | some other =>
      rw [hother, elim_some] at h
      obtain ⟨q, -, rfl⟩ := Option.map_eq_some_iff.mp h
      rw [OrdMap.get_insert, if_neg fun heq => hid heq.symm, hp]

theorem state?_lift {β : Type} (r) (f : α → SwitchM β) :
    ((lift r >>= f) s).state? = r.toOption.elim (some s) fun a => (f a s).state? := by
  cases r <;> rfl

/-- A port sees a call of its own. -/
theorem get_call {x : PortM α} {call : PortOp} (hp : s.ports[id]? = some p)
    (h : (onPort portId x s).state? = some t) (hcall : (Port.exec call p).state? = (x p).state?) :
    ∃ q, t.ports[id]? = some q ∧
      (if portId = id then some call else none).elim (p = q)
        fun call => (Port.exec call p).state? = some q := by
  obtain ⟨q, hq, hruns⟩ := get_onPort hp h
  refine ⟨q, hq, ?_⟩
  by_cases hid : portId = id
  · rw [if_pos hid] at hruns ⊢
    exact hcall.trans hruns
  · rw [if_neg hid] at hruns ⊢
    exact hruns

/-- A port sees a call of its own whose frame has a header. -/
theorem get_parsed {bytes : Bytes} {x : FrameHeader → PortM Unit} {call : FrameHeader → PortOp}
    (hp : s.ports[id]? = some p)
    (h : ((FrameHeader.parse bytes).toOption.elim (some s) fun header =>
      (onPort portId (x header) s).state?) = some t)
    (hcall : ∀ header, (Port.exec (call header) p).state? = (x header p).state?) :
    ∃ q, t.ports[id]? = some q ∧
      (if portId = id then (FrameHeader.parse bytes).toOption.map call else none).elim (p = q)
        fun call => (Port.exec call p).state? = some q := by
  cases hparse : (FrameHeader.parse bytes).toOption with
  | none =>
    rw [hparse, Option.elim_none, some_inj] at h
    exact ⟨p, h ▸ hp, by rw [Option.map_none, ite_self]; rfl⟩
  | some header =>
    rw [hparse, elim_some] at h
    exact get_call hp h (hcall header)

/-- A physical frame is offered to the ports that it is for. -/
theorem get_ingress {physicalInterface bytes} (hp : s.ports[id]? = some p)
    (h : (ingress physicalInterface bytes s).state? = some t) :
    ∃ q, t.ports[id]? = some q ∧
      (portOp? id p (.ingress physicalInterface bytes)).elim (p = q)
        fun call => (Port.exec call p).state? = some q := by
  simp only [portOp?]
  cases hparse : FrameHeader.parse bytes with
  | error e =>
    have hrun : (ingress physicalInterface bytes s).state? = some s := by
      simp only [ingress, bind_of_ok (show get s = .ok s s from rfl), hparse]
      rfl
    rw [hrun, some_inj] at h
    exact ⟨p, h ▸ hp, rfl⟩
  | ok header =>
    have hrun : (ingress physicalInterface bytes s).state? =
        some { s with
          ports := s.ports.map fun _ p =>
            if p.Takes physicalInterface header then p.enqueue (p.view bytes) else p } := by
      simp only [ingress, bind_of_ok (show get s = .ok s s from rfl), hparse]
      rfl
    rw [hrun, some_inj] at h
    subst h
    simp only [Except.toOption, Option.bind_some]
    rw [OrdMap.get_map, hp, Option.map_some]
    refine ⟨_, rfl, ?_⟩
    by_cases htakes : p.Takes physicalInterface header
    · simp only [if_pos htakes, elim_some]
      exact Port.state?_ingressToPort p _
    · simp only [if_neg htakes, Option.elim_none]

/-- A port runs the calls that it sees of a step of the switch. -/
theorem port_step {op : SwitchOp} (hp : s.ports[id]? = some p) (h : step op s = some t) :
    ∃ q, t.ports[id]? = some q ∧
      (portOp? id p op).elim (p = q) fun call => (Port.exec call p).state? = some q := by
  cases op with
  | ingress physicalInterface bytes => exact get_ingress hp ((state?_forget _ s).symm.trans h)
  | ingressToPort portId bytes | stageEgress portId bytes =>
    have hrun := (state?_lift _ _).symm.trans h
    exact get_parsed hp hrun fun _ => rfl
  | receive portId | commitGeneration portId generation =>
    exact get_call hp ((state?_forget _ s).symm.trans h) (state?_forget _ p)
  | recoverPort portId committed => exact get_call hp h rfl

end VirtualSwitch

/-! ### Exactly-once delivery -/

/-- A condition that is the same for all keeps all or nothing. -/
theorem filter_of_iff [DecidablePred P] [Decidable c] (h : ∀ a ∈ as, P a ↔ c) :
    as.filter P = if c then as else [] := by
  split
  · rename_i hc
    exact List.filter_eq_self.mpr fun a ha => decide_eq_true ((h a ha).mpr hc)
  · rename_i hc
    exact List.filter_eq_nil_iff.mpr fun a ha hp => hc ((h a ha).mp (of_decide_eq_true hp))

theorem takeWhile_of_iff [DecidablePred P] [Decidable c] (h : ∀ a ∈ as, P a ↔ c) :
    as.takeWhile P = if c then as else [] := by
  split
  · rename_i hc
    exact List.takeWhile_eq_self_iff.mpr fun a ha => decide_eq_true ((h a ha).mpr hc)
  · rename_i hc
    cases as with
    | nil => rfl
    | cons a as =>
      exact List.takeWhile_cons_of_neg fun hp =>
        hc ((h a List.mem_cons_self).mp (of_decide_eq_true hp))

theorem dropWhile_of_iff [DecidablePred P] [Decidable c] (h : ∀ a ∈ as, P a ↔ c) :
    as.dropWhile P = if c then [] else as := by
  have happend := List.takeWhile_append_dropWhile (p := fun a => decide (P a)) (l := as)
  rw [takeWhile_of_iff h] at happend
  split at happend
  · rename_i hc
    rw [if_pos hc]
    exact List.append_right_eq_self.mp happend
  · rename_i hc
    rw [if_neg hc]
    exact happend

/-- A frame that was staged: its number, and the generation that was committed then. -/
structure Outbound where
  serial : ℕ
  generation : UInt64
  bytes : Bytes
  deriving DecidableEq

/-- Where the frames of a port have to be. -/
structure PortLedger where
  current : UInt64
  accepted : List Bytes
  /-- received in a transaction that was committed since -/
  retired : List Bytes
  /-- received in a transaction, by its number, that was not -/
  received : List (ℕ × Bytes)
  queued : List Bytes
  sent : ℕ
  staged : List Outbound
  /-- with the generation whose commit released it -/
  released : List (Outbound × UInt64)
  /-- what the commits returned -/
  returned : List Bytes

namespace PortLedger

def new : PortLedger := ⟨0, [], [], [], [], 0, [], [], []⟩

def note (w : PortLedger) : PortEvent → PortLedger
  | .quiet => w
  | .accepted bytes => { w with accepted := w.accepted ++ [bytes], queued := w.queued ++ [bytes] }
  | .received bytes =>
    { w with
      received := w.received ++ [(w.current.toNat + 1, bytes)]
      queued := w.queued.tail }
  | .staged bytes =>
    { w with sent := w.sent + 1, staged := w.staged ++ [⟨w.sent, w.current, bytes⟩] }
  | .committed generation released =>
    { w with
      current := generation
      retired := w.retired ++ (w.received.filter (·.1 ≤ generation.toNat)).map Prod.snd
      received := w.received.filter (¬ ·.1 ≤ generation.toNat)
      staged := w.staged.filter (¬ ·.generation < generation)
      released := w.released ++ (w.staged.filter (·.generation < generation)).map (·, generation)
      returned := w.returned ++ released }
  | .recovered committed =>
    { w with
      current := committed
      received := []
      queued := w.received.map Prod.snd ++ w.queued
      staged := w.staged.filter (·.generation < committed) }

/-- A frame the port accepted is in one place, in its order; a staged frame is released at most
once, by a generation after the one current when it was staged. -/
structure Once (w : PortLedger) : Prop where
  accepted : w.accepted = w.retired ++ w.received.map Prod.snd ++ w.queued
  received : ∀ r ∈ w.received, r.1 = w.current.toNat + 1
  staged : ∀ f ∈ w.staged, f.generation = w.current
  serial : ((w.released.map Prod.fst ++ w.staged).map Outbound.serial).Pairwise (· < ·)
  fresh : ∀ f ∈ w.released.map Prod.fst ++ w.staged, f.serial < w.sent
  after : ∀ r ∈ w.released, r.1.generation < r.2
  returned : w.returned = w.released.map fun r => r.1.bytes

end PortLedger

/-- The port has the frames where they have to be, with the stamps of their transactions. -/
structure Port.Agrees (p : Port) (w : PortLedger) : Prop where
  current : p.committedGeneration = w.current
  queued : p.rx.map QueuedFrame.bytes = w.queued
  received : p.deliveredRx.map (fun f => (f.generation.toNat, f.bytes)) = w.received
  staged : p.stagedTx.map (fun f => (f.generation.toNat, f.bytes)) =
    w.staged.map fun f => (f.generation.toNat + 1, f.bytes)

/-- A receive takes a frame stamped with the open transaction, and there is a generation after
the one in which a frame is staged. -/
def Port.Timely (p : Port) : PortOp → Prop
  | .receive => ∀ frame ∈ p.rx.head?, frame.generation.toNat = p.committedGeneration.toNat + 1
  | .stage _ _ => p.committedGeneration.toNat + 1 < 2 ^ 64
  | _ => True

instance (p : Port) : (op : PortOp) → Decidable (p.Timely op)
  | .receive => inferInstanceAs (Decidable (∀ frame ∈ p.rx.head?, _ = _))
  | .stage _ _ => inferInstanceAs (Decidable (_ < _))
  | .offer _ | .commit _ | .recover _ => .isTrue trivial

namespace PortLedger

variable {w : PortLedger}

theorem once_new : new.Once where
  accepted := rfl
  received _ h := absurd h not_mem_nil
  staged _ h := absurd h not_mem_nil
  serial := .nil
  fresh _ h := absurd h not_mem_nil
  after _ h := absurd h not_mem_nil
  returned := rfl

/-- A commit retires and releases all of the open transaction, or nothing. -/
theorem Once.note_committed (h : w.Once) (generation : UInt64) (bs : List Bytes) :
    w.note (.committed generation bs) =
      if w.current < generation then
        { w with
          current := generation, retired := w.retired ++ w.received.map Prod.snd, received := []
          staged := [], released := w.released ++ w.staged.map (·, generation)
          returned := w.returned ++ bs }
      else { w with current := generation, returned := w.returned ++ bs } := by
  have hreceived : ∀ r ∈ w.received, r.1 ≤ generation.toNat ↔ w.current < generation := by
    intro r hr
    rw [h.received r hr, UInt64.lt_iff_toNat_lt, Nat.succ_le_iff]
  have hstaged : ∀ f ∈ w.staged, f.generation < generation ↔ w.current < generation := by
    intro f hf
    rw [h.staged f hf]
  rw [note, filter_of_iff hreceived, filter_of_iff hstaged,
    filter_of_iff fun r hr => not_congr (hreceived r hr),
    filter_of_iff fun f hf => not_congr (hstaged f hf)]
  by_cases hlt : w.current < generation
  · simp only [if_pos hlt, if_neg (not_not_intro hlt)]
  · simp only [if_neg hlt, if_pos hlt, map_nil, append_nil]

/-- A recovery drops the staged frames: none was committed. -/
theorem Once.note_recovered (h : w.Once) {committed} (hle : committed ≤ w.current) :
    w.note (.recovered committed) =
      { w with
        current := committed, received := [], queued := w.received.map Prod.snd ++ w.queued
        staged := [] } := by
  have hstaged : ∀ f ∈ w.staged, f.generation < committed ↔ False := by
    intro f hf
    rw [h.staged f hf, iff_false]
    exact UInt64.not_lt.mpr hle
  rw [note, filter_of_iff hstaged, if_false]

/-- The events that an exactly-once port can tell. -/
def Fits (w : PortLedger) : PortEvent → Prop
  | .received bytes => w.queued.head? = some bytes
  | .committed generation released => w.current ≤ generation ∧
      released = if w.current < generation then w.staged.map Outbound.bytes else []
  | .recovered committed => committed ≤ w.current
  | _ => True

/-- Such events keep every frame in one place. -/
theorem Once.of_fits (h : w.Once) : ∀ {e : PortEvent}, w.Fits e → (w.note e).Once := by
  intro e hfits
  cases e with
  | quiet => exact h
  | accepted bytes =>
    exact { h with accepted := by simp only [note, h.accepted, append_assoc] }
  -- the frame moves from the queue to the received ones
  | received bytes =>
    obtain ⟨rest, hqueued⟩ := List.head?_eq_some_iff.mp hfits
    refine { h with accepted := ?_, received := ?_ }
    · simp only [note, h.accepted, hqueued, map_append, map_cons, map_nil,
        List.tail_cons, append_assoc, List.cons_append, List.nil_append]
    · intro r hr
      rcases List.mem_append.mp hr with hr | hr
      · exact h.received r hr
      · rw [List.mem_singleton.mp hr]
        rfl
  -- a new serial number, above all those staged or released before
  | staged bytes =>
    refine { h with staged := ?_, serial := ?_, fresh := ?_ }
    · intro f hf
      rcases List.mem_append.mp hf with hf | hf
      · exact h.staged f hf
      · rw [List.mem_singleton.mp hf]
        rfl
    · simp only [note]
      rw [← append_assoc, map_append]
      refine List.pairwise_append.mpr ⟨h.serial, List.pairwise_singleton _ _, ?_⟩
      intro k hk j hj
      obtain ⟨f, hf, rfl⟩ := List.mem_map.mp hk
      rw [List.map_singleton, List.mem_singleton] at hj
      rw [hj]
      exact h.fresh f hf
    · simp only [note]
      intro f hf
      rw [← append_assoc] at hf
      rcases List.mem_append.mp hf with hf | hf
      · exact Nat.lt_succ_of_lt (h.fresh f hf)
      · rw [List.mem_singleton.mp hf]
        exact Nat.lt_succ_self _
  -- a new generation releases what is staged; the same one again releases nothing
  | committed generation bs =>
    obtain ⟨hle, hbs⟩ := hfits
    rw [h.note_committed]
    by_cases hlt : w.current < generation
    · rw [if_pos hlt] at hbs ⊢
      have hframes : (w.released ++ w.staged.map (·, generation)).map Prod.fst =
          w.released.map Prod.fst ++ w.staged := by
        simp only [map_append, List.map_map, Function.comp_def, List.map_id']
      refine ⟨?_, fun _ hr => absurd hr not_mem_nil, fun _ hf => absurd hf not_mem_nil,
        ?_, ?_, ?_, ?_⟩
      · simp only [h.accepted, map_nil, append_nil]
      · simpa only [hframes, append_nil] using h.serial
      · simpa only [hframes, append_nil] using h.fresh
      · intro r hr
        rcases List.mem_append.mp hr with hr | hr
        · exact h.after r hr
        · obtain ⟨f, hf, rfl⟩ := List.mem_map.mp hr
          rw [h.staged f hf]
          exact hlt
      · simp only [h.returned, hbs, map_append, List.map_map, Function.comp_def]
    · have hsame : generation = w.current := UInt64.le_antisymm (UInt64.not_lt.mp hlt) hle
      rw [if_neg hlt] at hbs ⊢
      rw [hsame, hbs, append_nil]
      exact h
  -- what was received and not committed is queued again, what was staged is dropped
  | recovered committed =>
    rw [h.note_recovered hfits]
    refine ⟨?_, fun _ hr => absurd hr not_mem_nil, fun _ hf => absurd hf not_mem_nil,
      ?_, ?_, h.after, h.returned⟩
    · simp only [h.accepted, map_nil, append_nil, append_assoc]
    · have hserial := h.serial
      rw [map_append] at hserial
      simpa only [append_nil] using (List.pairwise_append.mp hserial).1
    · intro f hf
      rw [append_nil] at hf
      exact h.fresh f (List.mem_append_left _ hf)

end PortLedger

namespace Port

variable {p q : Port} {w : PortLedger}

theorem Agrees.stamps_received (h : p.Agrees w) (honce : w.Once) :
    ∀ f ∈ p.deliveredRx, f.generation.toNat = w.current.toNat + 1 := by
  intro f hf
  exact honce.received _ (h.received ▸ List.mem_map_of_mem hf)

theorem Agrees.stamps_staged (h : p.Agrees w) (honce : w.Once) :
    ∀ f ∈ p.stagedTx, f.generation.toNat = w.current.toNat + 1 := by
  intro f hf
  have hmem : (f.generation.toNat, f.bytes) ∈
      w.staged.map fun f => (f.generation.toNat + 1, f.bytes) :=
    h.staged ▸ List.mem_map_of_mem hf
  obtain ⟨o, ho, heq⟩ := List.mem_map.mp hmem
  rw [← (Prod.mk.inj heq).1, honce.staged o ho]

/-- The stamps of the staged frames tell which a commit is to release. -/
theorem Agrees.le_iff_staged (h : p.Agrees w) (honce : w.Once) (generation : UInt64) :
    ∀ f ∈ p.stagedTx, f.generation ≤ generation ↔ w.current < generation := by
  intro f hf
  rw [UInt64.le_iff_toNat_le, UInt64.lt_iff_toNat_lt, h.stamps_staged honce f hf,
    Nat.succ_le_iff]

/-- A timely call tells what an exactly-once port tells, and the port agrees with it. -/
theorem Agrees.change {e : PortEvent} (h : p.Agrees w) (honce : w.Once) (hchange : PortChange p e q)
    (hreceive : ∀ bytes, e = .received bytes →
      ∀ frame ∈ p.rx.head?, frame.generation.toNat = p.committedGeneration.toNat + 1)
    (hstage : ∀ bytes, e = .staged bytes → p.committedGeneration.toNat + 1 < 2 ^ 64) :
    w.Fits e ∧ q.Agrees (w.note e) := by
  cases hchange with
  | quiet hsame =>
    obtain ⟨hrx, hdelivered, hstaged, hcommitted⟩ := hsame
    exact ⟨trivial, hcommitted ▸ h.current, hrx ▸ h.queued, hdelivered ▸ h.received,
      hstaged ▸ h.staged⟩
  | accepted bytes =>
    refine ⟨trivial, { h with queued := ?_ }⟩
    simp only [PortLedger.note, map_append, h.queued, map_cons, map_nil]
  -- the head of the queue is stamped with the generation that is open
  | received hrx =>
    rename_i frame rest
    have hstamp := hreceive _ rfl frame (by rw [hrx, List.head?_cons]; rfl)
    have hqueued : w.queued = frame.bytes :: rest.map QueuedFrame.bytes := by
      rw [← h.queued, hrx, map_cons]
    refine ⟨by rw [PortLedger.Fits, hqueued, List.head?_cons],
      { h with queued := ?_, received := ?_ }⟩
    · simp only [PortLedger.note, hqueued, List.tail_cons]
    · simp only [PortLedger.note, map_append, h.received, map_cons, map_nil, hstamp,
        h.current]
  | staged bytes =>
    have hnext : p.nextGeneration.toNat = w.current.toNat + 1 := by
      rw [nextGeneration, UInt64.toNat_satAdd_of_lt (hstage bytes rfl), h.current]
      rfl
    refine ⟨trivial, { h with staged := ?_ }⟩
    simp only [PortLedger.note, map_append, h.staged, map_cons, map_nil, hnext]
  -- all frames have the stamp of the open generation, so filters take all or nothing
  | committed hle =>
    rename_i generation
    have hdelivered : ∀ f ∈ p.deliveredRx,
        f.generation > generation ↔ ¬ w.current < generation := by
      intro f hf
      have hstamp := h.stamps_received honce f hf
      rw [gt_iff_lt, UInt64.lt_iff_toNat_lt, UInt64.lt_iff_toNat_lt]
      omega
    have hstaged := h.le_iff_staged honce generation
    have hmap := congrArg (List.map Prod.snd) h.staged
    simp only [List.map_map, Function.comp_def] at hmap
    rw [honce.note_committed, takeWhile_of_iff hstaged, dropWhile_of_iff hstaged,
      filter_of_iff hdelivered]
    by_cases hlt : w.current < generation
    · simp only [if_pos hlt, if_neg (not_not_intro hlt)]
      exact ⟨⟨h.current ▸ hle, by rw [if_pos hlt, ← hmap]⟩, rfl, h.queued, rfl, rfl⟩
    · simp only [if_neg hlt, if_pos hlt]
      exact ⟨⟨h.current ▸ hle, by rw [if_neg hlt]; rfl⟩, rfl, h.queued, h.received, h.staged⟩
  -- every delivered frame is newer than the committed generation
  | recovered hle =>
    rename_i committed
    have hle' : committed ≤ w.current := h.current ▸ hle
    have hdelivered : ∀ f ∈ p.deliveredRx, f.generation > committed ↔ True := by
      intro f hf
      have hstamp := h.stamps_received honce f hf
      rw [iff_true, gt_iff_lt, UInt64.lt_iff_toNat_lt, hstamp]
      exact Nat.lt_succ_of_le (UInt64.le_iff_toNat_le.mp hle')
    have hstaged : ∀ f ∈ p.stagedTx, f.generation ≤ committed ↔ False := by
      intro f hf
      rw [h.le_iff_staged honce committed f hf, iff_false]
      exact UInt64.not_lt.mpr hle'
    rw [honce.note_recovered hle', filter_of_iff hdelivered, filter_of_iff hstaged, if_true,
      if_false]
    refine ⟨hle', rfl, ?_, rfl, rfl⟩
    have hmap := congrArg (List.map Prod.snd) h.received
    simp only [List.map_map, Function.comp_def] at hmap
    rw [map_append, h.queued, ← hmap]

/-- What a call tells meets the condition of the call. -/
theorem Timely.event {op} (h : p.Timely op) : (∀ bytes, p.event op = .received bytes →
      ∀ frame ∈ p.rx.head?, frame.generation.toNat = p.committedGeneration.toNat + 1) ∧
    (∀ bytes, p.event op = .staged bytes → p.committedGeneration.toNat + 1 < 2 ^ 64) := by
  cases op with
  | offer bytes =>
    cases hrun : ingressToPort bytes p <;> simp [Port.event, hrun, tell]
  | receive =>
    refine ⟨fun _ _ => h, ?_⟩
    cases hrun : receive p with
    | ok r t => cases r <;> simp [Port.event, hrun, tell]
    | err e t | halt => simp [Port.event, hrun, tell]
  | stage header bytes =>
    refine ⟨?_, fun _ _ => h⟩
    cases hrun : stageEgress header bytes p with
    | ok r t => cases hwire : (p.wire bytes).toOption <;> simp [Port.event, hrun, tell, hwire]
    | err e t | halt => simp [Port.event, hrun, tell]
  | commit generation =>
    cases hrun : commitGeneration generation p <;> simp [Port.event, hrun, tell]
  | recover committed =>
    cases hrun : recoverPort committed p <;> simp [Port.event, hrun, tell]

end Port

/-! ### Runs of the switch -/

namespace VirtualSwitch

/-- What a call of the switch tells about a port. -/
def event (id : UInt64) (s : VirtualSwitch) (op : SwitchOp) : PortEvent :=
  s.ports[id]?.elim .quiet fun p => (portOp? id p op).elim .quiet p.event

/-- A call of the switch is timely for a port. -/
def Timely (id : UInt64) (s : VirtualSwitch) (op : SwitchOp) : Prop :=
  ∀ p ∈ s.ports[id]?, ∀ call ∈ portOp? id p op, p.Timely call
  deriving Decidable

/-- A run of calls, from a switch that has just created the port, with the ledger of the port. -/
def Watches (C : VirtualSwitch → SwitchOp → Prop) (id : UInt64) (s t : VirtualSwitch)
    (w : PortLedger) : Prop :=
  Steps (watch step fun w op s _ => w.note (s.event id op)) (fun x op => C x.1 op)
    (s, .new) (t, w)

/-- The port agrees with its ledger, which keeps every frame in one place. -/
def Exact (id : UInt64) (x : VirtualSwitch × PortLedger) : Prop :=
  ∃ p : Port, x.1.ports[id]? = some p ∧ p.Agrees x.2 ∧ x.2.Once

theorem exact_step {id op x y} (h : Exact id x) (htimely : x.1.Timely id op)
    (hstep : watch step (fun w op s _ => w.note (s.event id op)) op x = some y) : Exact id y := by
  obtain ⟨p, hp, hagrees, honce⟩ := h
  obtain ⟨t, ht, rfl⟩ := Option.map_eq_some_iff.mp hstep
  obtain ⟨q, hq, hruns⟩ := port_step hp ht
  simp only [event, hp, elim_some]
  cases hcall : portOp? id p op with
  | none =>
    rw [hcall, Option.elim_none] at hruns
    exact ⟨p, hruns ▸ hq, hagrees, honce⟩
  | some call =>
    rw [hcall, elim_some] at hruns
    obtain ⟨hreceive, hstage⟩ := (htimely p hp call hcall).event
    obtain ⟨hfits, hagrees'⟩ := hagrees.change honce (Port.change_of_exec hruns) hreceive hstage
    exact ⟨q, hq, hagrees', honce.of_fits hfits⟩

theorem exact_new {policy s₀ s} (h : createPort policy s₀ = .ok () s) :
    Exact policy.portId (s, .new) := by
  simp only [createPort, bind_eq_ok, check_eq_ok] at h
  obtain ⟨_, _, ⟨_, rfl⟩, _, _, hget, _, _, ⟨_, rfl⟩, hmodify⟩ := h
  cases hget
  cases hmodify
  refine ⟨_, by rw [OrdMap.get_insert, if_pos rfl], ⟨rfl, rfl, rfl, rfl⟩, PortLedger.once_new⟩

/-- **Recovery is exactly-once in timely runs.**  The queue of the port, the frames it keeps for
recovery and those it has staged are what the ledger says. -/
theorem exact_of_timely {policy : PortPolicy} {s₀ s t : VirtualSwitch} {w : PortLedger}
    (hcreate : createPort policy s₀ = .ok () s)
    (hrun : Watches (Timely policy.portId) policy.portId s t w) :
    ∃ p : Port, t.ports[policy.portId]? = some p ∧ p.Agrees w ∧ w.Once :=
  Steps.invariant (I := Exact policy.portId) (fun _ _ _ h hc hstep => exact_step h hc hstep) hrun
    (exact_new hcreate)

/-! ### A frame that waits for a commit -/

/-- An untagged port. -/
def plainPolicy : PortPolicy :=
  ⟨1, 9, .ofBytes [2, 0, 0, 0, 0, 1], none, false, 2, 2⟩

/-- A frame for the port, from the port itself. -/
def plainFrame : Bytes := [2, 0, 0, 0, 0, 1, 2, 0, 0, 0, 0, 1, 8, 0]

/-- The switch with the port only. -/
def plainSwitch : VirtualSwitch :=
  ⟨(∅ : OrdMap UInt64 Port).insert 1 ⟨plainPolicy, [], [], [], 0, 0, 0, 0⟩⟩

theorem createPort_plain : createPort plainPolicy ⟨∅⟩ = .ok () plainSwitch := by
  rw [createPort, bind_of_ok (check_of_true (by decide))]
  rfl

/-- A frame that is received twice because of a recovery, and one that is sent. -/
def replayRun : List SwitchOp :=
  [.ingress 9 plainFrame, .receive 1, .recoverPort 1 0, .receive 1, .stageEgress 1 plainFrame,
    .commitGeneration 1 1, .ingressToPort 1 plainFrame]

theorem exact_of_timely_replay :
    ∃ (t : VirtualSwitch) (w : PortLedger), Watches (Timely 1) 1 plainSwitch t w ∧
      w.retired = [plainFrame] ∧ w.queued = [plainFrame] ∧ w.returned = [plainFrame] ∧
      ∃ p : Port, t.ports[(1 : UInt64)]? = some p ∧ p.Agrees w ∧ w.Once := by
  have hrun : (runAll (watch step fun w op s _ => w.note (s.event 1 op))
      (fun x op => x.1.Timely 1 op) replayRun (plainSwitch, PortLedger.new)).any
      (fun x => x.2.retired = [plainFrame] ∧ x.2.queued = [plainFrame] ∧
        x.2.returned = [plainFrame]) = true := by
    decide +kernel
  obtain ⟨⟨t, w⟩, hwatch, hretired, hqueued, hreturned⟩ :=
    exists_steps _ replayRun hrun
  exact ⟨t, w, hwatch, hretired, hqueued, hreturned, exact_of_timely createPort_plain hwatch⟩

/-- A frame arrives before a commit and is received after it. -/
def lateRun : List SwitchOp :=
  [.ingress 9 plainFrame, .commitGeneration 1 1, .receive 1, .recoverPort 1 1]

/-- **The frame is lost**: the transaction that received it was not committed, and the port has
it no more. -/
theorem lost_after_commit : ∃ (t : VirtualSwitch) (w : PortLedger) (p : Port),
      createPort plainPolicy ⟨∅⟩ = .ok () plainSwitch ∧
      Watches (fun _ _ => True) 1 plainSwitch t w ∧ t.ports[(1 : UInt64)]? = some p ∧
      w.accepted = [plainFrame] ∧ w.retired = [] ∧ w.queued = [plainFrame] ∧
      p.rx = [] ∧ p.deliveredRx = [] := by
  have hrun : (runAll (watch step fun w op s _ => w.note (s.event 1 op))
      (fun _ _ => true) lateRun (plainSwitch, PortLedger.new)).any
      (fun x => x.2.accepted = [plainFrame] ∧ x.2.retired = [] ∧ x.2.queued = [plainFrame] ∧
        x.1.ports[(1 : UInt64)]?.any (fun p => p.rx = [] ∧ p.deliveredRx = []) = true) = true := by
    decide +kernel
  obtain ⟨⟨t, w⟩, hwatch, haccepted, hretired, hqueued, hport⟩ :=
    exists_steps (fun _ _ => True) lateRun hrun
  obtain ⟨p, hp, hempty⟩ := (Option.any_eq_true _ _).mp hport
  obtain ⟨hrx, hdelivered⟩ := of_decide_eq_true hempty
  exact ⟨t, w, p, createPort_plain, hwatch, hp, haccepted, hretired, hqueued, hrx, hdelivered⟩

end VirtualSwitch

end Bexos
