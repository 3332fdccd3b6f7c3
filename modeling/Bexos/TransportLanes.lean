/-
A completion reaches its requester, once.

Requests of the two lanes are served by one worker, and tickets of the lanes may be equal.

* `LaneChange`, `wp_exec` — everything that an operation can do, and what its result tells;
* `Records` — the lanes against the ledger of an observer of the results;
* `delivered_once` — every completion is delivered at most once, and only to its requester.

Design notes: the ledger attributes a reply to the request that the worker fetched last.  A
hand-over is a snapshot of the present lanes that is restored into new ones.
-/
import Bexos.LaneSnapshots

namespace Bexos

open Prog
open List (mem_append mem_append_left mem_singleton nil_subset)

/-! ### What an operation does -/

/-- A request as its lane knows it. -/
structure Request where
  root : Bool
  ticket : UInt64
  handle : UInt64
  deriving DecidableEq

/-- What the worker has of a request. -/
def Request.key (r : Request) : Bool × UInt64 := (r.root, r.ticket)

/-- The request in the mailbox of a lane. -/
def Mailbox.request {size : ℕ} (b : Bool) (m : Mailbox size) : Request :=
  ⟨b, m.message.ticket, m.message.handle⟩

/-- What the result of an operation tells. -/
inductive LaneEvent where
  | quiet
  | submitted (r : Request)
  | fetched (r : Request)
  /-- The worker's reply was accepted or not. -/
  | answered (ticket : UInt64) (result : Int64) (response : Bytes) (accepted : Bool)
  | delivered (r : Request) (result : Int64) (bytes : Bytes)
  | revoked (handle : UInt64)

namespace Lanes

variable {size : ℕ} {l t : Lanes size}

/-- The event of an operation that returns a value or fails. -/
def resultEvent {α : Type} (f : α → LaneEvent) (e : LaneEvent) :
    Outcome (Lanes size) MonitorStatus α → LaneEvent
  | .ok a _ => f a
  | _ => e

/-- The event of an operation, as its result tells it. -/
def event (l : Lanes size) : LaneOp → LaneEvent
  | .submit handle operation length bytes =>
    resultEvent (fun ticket => .submitted ⟨isRoot handle, ticket, handle⟩) .quiet
      (submit handle operation length bytes l)
  | .fetch len =>
    resultEvent (fun p => .fetched ⟨isRoot p.1.handle, p.1.ticket, p.1.handle⟩) .quiet (fetch len l)
  | .complete ticket result response =>
    resultEvent (fun _ => .answered ticket result response true)
      (.answered ticket result response false) (complete ticket result response l)
  | .poll handle ticket len =>
    resultEvent (fun p => .delivered ⟨isRoot handle, ticket, handle⟩ p.1 p.2) .quiet
      (poll handle ticket len l)
  | .revoke handle => .revoked handle
  | .handOver _ _ => .quiet

/-- The request in a lane. -/
def request (l : Lanes size) (b : Bool) : Request := (l.lane b).request b

/-- The worker has the message of a lane. -/
def Serves (l : Lanes size) (b : Bool) (ticket : UInt64) : Prop :=
  (l.lane b).phase = .running ∧ ticket = (l.lane b).message.ticket

/-- A lane holds a message of this handle. -/
def Holds (l : Lanes size) (handle : UInt64) : Prop :=
  (l.lane (isRoot handle)).phase ≠ .empty ∧
    (l.lane (isRoot handle)).message.handle = handle

/-- Everything that an operation can do. -/
inductive LaneChange (l : Lanes size) : LaneEvent → Lanes size → Prop
  | same : LaneChange l .quiet l
  | submitted {handle next : UInt64} {operation : UInt32} {length : ℕ} {bytes : Bytes}
      (hempty : (l.lane (isRoot handle)).phase = .empty)
      (hargs : ¬ (handle = 0 ∨ operation = 0 ∨ length = 0 ∨ length > bytes.length ∨
        bytes.length > size))
      (hnext : (l.lane (isRoot handle)).nextTicket.checkedAdd 1 = some next) :
      LaneChange l (.submitted ⟨isRoot handle, (l.lane (isRoot handle)).nextTicket, handle⟩)
        (setLane (isRoot handle)
          { l.lane (isRoot handle) with
            nextTicket := next
            bytes := .ofBytes bytes
            message :=
              ⟨(l.lane (isRoot handle)).nextTicket, handle, operation, length, bytes.length⟩
            phase := .submitted } l)
  | fetched {b : Bool} (hidle : l.active = none) (hphase : (l.lane b).phase = .submitted) :
      LaneChange l (.fetched (l.request b))
        { setLane b { l.lane b with phase := .running } l with
          active := some (b, (l.lane b).message.ticket) }
  | completed {b : Bool} {ticket : UInt64} {result : Int64} {response : Bytes}
      (hactive : l.active = some (b, ticket)) (hserves : l.Serves b ticket)
      (hlength : response.length = size) :
      LaneChange l (.answered ticket result response true)
        { setLane b
            { l.lane b with
              bytes := (l.lane b).bytes.put (response.take (l.lane b).message.capacity)
              result
              phase := .completed } l with
          active := none }
  | dropped {b : Bool} {ticket : UInt64} {result : Int64} {response : Bytes}
      (hactive : l.active = some (b, ticket)) (hserves : ¬ l.Serves b ticket)
      (hlength : response.length = size) :
      LaneChange l (.answered ticket result response false) { l with active := none }
  | refused {ticket : UInt64} {result : Int64} {response : Bytes}
      (h : ¬ (response.length = size ∧ l.active.map Prod.snd = some ticket)) :
      LaneChange l (.answered ticket result response false) l
  | delivered {handle ticket : UInt64}
      (hphase : (l.lane (isRoot handle)).phase = .completed)
      (hrequest : l.request (isRoot handle) = ⟨isRoot handle, ticket, handle⟩) :
      LaneChange l
        (.delivered ⟨isRoot handle, ticket, handle⟩ (l.lane (isRoot handle)).result
          ((l.lane (isRoot handle)).bytes.toList.take (l.lane (isRoot handle)).message.capacity))
        (setLane (isRoot handle) (l.lane (isRoot handle)).clear l)
  | revoked {handle : UInt64} (hholds : l.Holds handle) :
      LaneChange l (.revoked handle)
        (setLane (isRoot handle) (l.lane (isRoot handle)).clear l)
  | unheld {handle : UInt64} (hholds : ¬ l.Holds handle) : LaneChange l (.revoked handle) l

variable {b : Bool} {m : Mailbox size}

theorem wp_onLane {α : Type} {x} {Q : α → Lanes size → Prop}
    {E : MonitorStatus → Lanes size → Prop} :
    wp (onLane b x) Q E l ↔
      wp x (fun a m => Q a (setLane b m l)) (fun e m => E e (setLane b m l)) (l.lane b) :=
  wp_zoom _ _ _

@[simp] theorem setLane_lane (b : Bool) (l : Lanes size) : setLane b (l.lane b) l = l := by
  cases b <;> rfl

theorem wp_submit (handle operation length bytes) :
    wp (submit handle operation length bytes)
      (fun ticket => LaneChange l (.submitted ⟨isRoot handle, ticket, handle⟩))
      (fun _ => LaneChange l .quiet) l := by
  simp only [submit, wp_onLane, Mailbox.submit, wp_bind, wp_get, wp_check, wp_some?, wp_modify,
    wp_pure, setLane_lane]
  refine ⟨fun hempty => ⟨fun hargs => ⟨fun next hnext => ?_, fun _ => .same⟩, fun _ => .same⟩,
    fun _ => .same⟩
  exact .submitted hempty hargs hnext

theorem wp_poll (handle ticket len) : wp (poll handle ticket len)
      (fun p => LaneChange l (.delivered ⟨isRoot handle, ticket, handle⟩ p.1 p.2))
      (fun _ => LaneChange l .quiet) l := by
  simp only [poll, wp_onLane, Mailbox.poll, wp_bind, wp_get, wp_check, wp_lift, wp_modify,
    wp_pure, setLane_lane]
  refine ⟨fun capacity hcapacity => ⟨fun _ => ⟨fun hphase => ?_, fun _ => .same⟩, fun _ => .same⟩,
    fun _ _ => .same⟩
  unfold Mailbox.capacity at hcapacity
  split at hcapacity
  case isTrue => cases hcapacity
  case isFalse hnames =>
    cases hcapacity
    simp only [not_or, not_not] at hnames
    refine .delivered hphase ?_
    rw [request, Mailbox.request, hnames.2.1, hnames.2.2]

theorem wp_revoke (handle) : ends (revoke handle) (LaneChange l (.revoked handle)) l := by
  simp only [revoke, wp_onLane, Mailbox.revoke, wp_bind, wp_get, wp_when, wp_modify, setLane_lane]
  exact ⟨.revoked, .unheld⟩

/-- The worker fetches from a lane. -/
theorem wp_fetchLane (h : l.Sound) (hidle : l.active = none) (b len) :
    wp (onLane b (Mailbox.fetch len))
      (fun message s => wp (take b message)
        (fun p => LaneChange l (.fetched ⟨isRoot p.1.handle, p.1.ticket, p.1.handle⟩))
        (fun _ => LaneChange l .quiet) s)
      (fun _ s => s = l) l := by
  simp only [wp_onLane, Mailbox.fetch, take, wp_bind, wp_get, wp_check, wp_modify, wp_pure,
    setLane_lane]
  refine ⟨fun hphase => ⟨fun _ => ?_, fun _ => trivial⟩, fun _ => trivial⟩
  have hroot := h.handle b (by rw [hphase]; decide)
  rw [hroot]
  exact .fetched hidle hphase

theorem wp_fetch (h : l.Sound) (len) : wp (fetch len)
      (fun p => LaneChange l (.fetched ⟨isRoot p.1.handle, p.1.ticket, p.1.handle⟩))
      (fun _ => LaneChange l .quiet) l := by
  simp only [fetch, wp_bind, wp_get, wp_check, wp_attempt]
  refine ⟨fun hidle => ?_, fun _ => .same⟩
  refine wp_mono (wp_fetchLane h hidle true len) (fun _ _ ht => ht) fun e s hs => ?_
  subst hs
  cases e with
  | busy =>
    rw [wp_bind]
    exact wp_mono (wp_fetchLane h hidle false len) (fun _ _ ht => ht) fun _ _ ht => ht ▸ .same
  | _ => exact (wp_fail _).mpr .same

theorem wp_complete (ticket result response) :
    wp (complete ticket result response)
      (fun _ => LaneChange l (.answered ticket result response true))
      (fun _ => LaneChange l (.answered ticket result response false)) l := by
  simp only [complete, wp_bind, wp_get, wp_check, wp_some?, wp_attempt, wp_onLane,
    Mailbox.complete, wp_modify, wp_lift, setLane_lane]
  refine ⟨fun active hactive => ⟨fun hticket => ⟨fun hlength => ?_, fun hlength => ?_⟩,
    fun hticket => ?_⟩, fun hnone => ?_⟩
  · subst hticket
    refine ⟨fun hserves => ⟨fun _ => ⟨fun _ _ => ?_, fun _ heq => by cases heq⟩,
      fun hne => absurd hlength hne⟩,
      fun hserves => ⟨(fun _ heq => by cases heq), fun _ _ => ?_⟩⟩
    · exact .completed hactive hserves hlength
    · exact .dropped hactive hserves hlength
  · exact .refused fun hfits => hlength hfits.1
  · refine .refused fun hfits => hticket ?_
    have hsecond := hfits.2
    rw [hactive] at hsecond
    exact (Option.some.inj hsecond).symm
  · exact .refused fun hfits => by rw [hnone] at hfits; cases hfits.2

/-- **What an operation does.** -/
theorem wp_exec (sha256 : Bytes → Buffer 32) (h : l.Sound) (hsize : size < 2 ^ 32) (op) :
    ends (exec sha256 op) (LaneChange l (l.event op))
      l := by
  cases op with
  | submit handle operation length bytes =>
    unfold ends exec
    rw [wp_bind_pure]
    exact wp_told (P := LaneChange l) (resultEvent _ _) (wp_submit handle operation length bytes)
  | fetch len =>
    unfold ends exec
    rw [wp_bind_pure]
    exact wp_told (P := LaneChange l) (resultEvent _ _) (wp_fetch h len)
  | complete ticket result response =>
    exact wp_told (P := LaneChange l) (resultEvent _ _) (wp_complete ticket result response)
  | poll handle ticket len =>
    unfold ends exec
    rw [wp_bind_pure]
    exact wp_told (P := LaneChange l) (resultEvent _ _) (wp_poll handle ticket len)
  | revoke handle => exact wp_revoke handle
  | handOver domain registered =>
    refine wp_of_state (P := LaneChange l .quiet) fun t ht => ?_
    rw [exec, h.handOver_state sha256 hsize domain registered] at ht
    exact Option.some.inj ht ▸ .same

/-! ### Sound lanes stay sound -/

/-- Lanes of which one, and perhaps the worker's request, is changed. -/
theorem Sound.update (h : l.Sound) {active} (hm : m.Sound)
    (hhandle : m.phase ≠ .empty → isRoot m.message.handle = b)
    (hrunning : m.phase = .running → active = some (b, m.message.ticket))
    (hretained : ∀ ticket, active = some (b, ticket) → m.retainsWorker ticket = true)
    (hother : ∀ ticket, active = some (!b, ticket) ↔ l.active = some (!b, ticket)) :
    Sound { setLane b m l with active } := by
  -- the changed lane is as `m` says, the other one as before
  have hcases : ∀ c, c = b ∨ c = !b := fun c => by cases b <;> cases c <;> simp
  refine ⟨fun c => ?_, fun c => ?_, fun c => ?_, fun c => ?_⟩
  all_goals
    simp only [lane_withActive]
    rcases hcases c with rfl | rfl
    all_goals simp only [lane_setLane_self, lane_setLane_not]
  · exact hm
  · exact h.mail _
  · exact hhandle
  · exact h.handle _
  · exact hrunning
  · exact fun hphase => (hother _).mpr (h.running _ hphase)
  · exact hretained
  · exact fun ticket hactive => h.retained _ ticket ((hother ticket).mp hactive)

theorem Sound.updateLane (h : l.Sound) (hm : m.Sound)
    (hhandle : m.phase ≠ .empty → isRoot m.message.handle = b) (hrunning : m.phase ≠ .running)
    (hretained : ∀ ticket, l.active = some (b, ticket) → m.retainsWorker ticket = true) :
    Sound (setLane b m l) := by
  have hactive : { setLane b m l with active := l.active } = setLane b m l := by cases b <;> rfl
  exact hactive ▸ h.update hm hhandle (fun hphase => absurd hphase hrunning) hretained
    fun _ => Iff.rfl

/-- A cleared lane keeps the worker on its request. -/
theorem Sound.clear (h : l.Sound) (b : Bool) : Sound (setLane b (l.lane b).clear l) := by
  refine h.updateLane (h.mail b).clear (fun hne => absurd rfl hne) nofun fun ticket hactive => ?_
  have hretained := h.retained b ticket hactive
  simp only [Mailbox.retainsWorker, Mailbox.clear, Bool.and_eq_true] at hretained ⊢
  exact ⟨hretained.1, trivial⟩

theorem sound_new : (new : Lanes size).Sound := by
  have hlane : ∀ b, (new : Lanes size).lane b = .new := fun b => by cases b <;> rfl
  refine ⟨fun b => ?_, fun b hne => ?_, fun b hphase => ?_, nofun⟩
  · exact hlane b ▸ Mailbox.sound_new
  · exact absurd (hlane b ▸ rfl) hne
  · rw [hlane b] at hphase
    cases hphase

theorem LaneChange.sound {e} (hchange : LaneChange l e t) (h : l.Sound) : t.Sound := by
  cases hchange with
  | same | refused | unheld => exact h
  | submitted hempty hargs hnext =>
    refine h.updateLane ((h.mail _).submitted hempty hargs hnext) (fun _ => rfl)
      (fun hphase => by cases hphase) ?_
    intro ticket hactive
    have hretained := h.retained _ ticket hactive
    have hnext := UInt64.checkedAdd_eq_some.mp hnext
    simp only [Mailbox.retainsWorker, hempty, Bool.and_eq_true, decide_eq_true_eq] at hretained ⊢
    obtain ⟨⟨hzero, hlt⟩, -⟩ := hretained
    refine ⟨⟨hzero, ?_⟩, hlt⟩
    rw [UInt64.lt_iff_toNat_lt] at hlt ⊢
    omega
  | @fetched b hidle hphase =>
    have hne : (l.lane b).phase ≠ .empty := by rw [hphase]; decide
    refine h.update ((h.mail b).fetched hphase) (fun _ => h.handle b hne) (fun _ => rfl) ?_ ?_
    · rintro _ ⟨⟩
      obtain ⟨hzero, hlt⟩ := (h.mail b).ticket hne
      simp [Mailbox.retainsWorker, hzero, hlt]
    · intro ticket
      simp [hidle]
  | @completed b ticket result response hactive hserves hlength =>
    have hne : (l.lane b).phase ≠ .empty := by rw [hserves.1]; decide
    refine h.update ((h.mail b).completed hserves.1 result hlength) (fun _ => h.handle b hne)
      (fun hphase => by cases hphase) (fun _ heq => by cases heq) fun other => ?_
    simp [hactive]
  | @dropped b ticket _ _ hactive hserves =>
    have hrunning : ∀ c, (l.lane c).phase ≠ .running := fun c hphase => by
      have heq := h.running c hphase
      rw [hactive, Option.some.injEq, Prod.mk.injEq] at heq
      obtain ⟨rfl, hticket⟩ := heq
      exact hserves ⟨hphase, hticket⟩
    exact ⟨h.mail, h.handle, fun c hphase => absurd hphase (hrunning c),
      fun _ _ heq => by cases heq⟩
  | delivered | revoked => exact h.clear _

end Lanes

/-! ### The observer -/

/-- A reply that a lane accepted. -/
structure Completion where
  request : Request
  result : Int64
  response : Bytes
  deriving DecidableEq

/-- What an observer of the results knows. -/
structure LaneLedger where
  issued : List Request
  /-- The request that the worker fetched and has not answered. -/
  serving : Option Request
  completions : List Completion
  delivered : List Request
  revoked : List Request

namespace LaneLedger

def new : LaneLedger := ⟨[], none, [], [], []⟩

/-- The worker answers the request that it fetched last. -/
def answer (size : ℕ) (w : LaneLedger) (ticket : UInt64) (result : Int64) (response : Bytes)
    (accepted : Bool) : LaneLedger :=
  match w.serving with
  | some r =>
    if r.ticket = ticket ∧ response.length = size then
      { w with
        serving := none
        completions :=
          if accepted then w.completions ++ [⟨r, result, response⟩] else w.completions }
    else w
  | none => w

def note (size : ℕ) (w : LaneLedger) : LaneEvent → LaneLedger
  | .quiet => w
  | .submitted r => { w with issued := w.issued ++ [r] }
  | .fetched r => { w with serving := some r }
  | .answered ticket result response accepted => w.answer size ticket result response accepted
  | .delivered r _ _ => { w with delivered := w.delivered ++ [r] }
  | .revoked handle =>
    { w with revoked := w.revoked ++ w.issued.filter fun r => r.handle = handle }

/-- The lane that an event is about. -/
def lane? (w : LaneLedger) : LaneEvent → Option Bool
  | .quiet => none
  | .submitted r | .fetched r | .delivered r _ _ => some r.root
  | .answered _ _ _ _ => w.serving.map Request.root
  | .revoked handle => some (Lanes.isRoot handle)

end LaneLedger

namespace Lanes

variable {size : ℕ} {l t : Lanes size} {w : LaneLedger} {b : Bool} {m : Mailbox size}

/-- Lanes and ledger after a run from new lanes. -/
def Watches (sha256 : Bytes → Buffer 32) (l : Lanes size) (w : LaneLedger) : Prop :=
  Steps (watch (step sha256) fun w op l _ => w.note size (l.event op)) (fun _ _ => True)
    (new, LaneLedger.new) (l, w)

/-- A lane agrees with the ledger. -/
structure LaneRecords (w : LaneLedger) (b : Bool) (m : Mailbox size) : Prop where
  issued : ∀ r ∈ w.issued, r.root = b → r.ticket < m.nextTicket
  current : m.phase ≠ .empty →
    m.request b ∈ w.issued ∧ m.request b ∉ w.delivered ∧ m.request b ∉ w.revoked
  unanswered : m.phase = .submitted ∨ m.phase = .running →
    m.request b ∉ w.completions.map Completion.request
  answered : m.phase = .completed → ∃ response, ⟨m.request b, m.result, response⟩ ∈ w.completions ∧
    m.bytes.toList.take m.message.capacity = response.take m.message.capacity

/-- The lanes agree with the ledger. -/
structure Records (l : Lanes size) (w : LaneLedger) : Prop where
  sound : l.Sound
  lanes : ∀ b, LaneRecords w b (l.lane b)
  roots : ∀ r ∈ w.issued, r.root = isRoot r.handle
  nodup : (w.issued.map Request.key).Nodup
  active : l.active = w.serving.map Request.key
  serving : ∀ r, w.serving = some r → r ∈ w.issued
  past : w.delivered ⊆ w.issued ∧ w.revoked ⊆ w.issued ∧
    w.completions.map Completion.request ⊆ w.issued
  once : w.delivered.Nodup ∧ (w.completions.map Completion.request).Nodup

section LaneRecords

variable {r : Request}

theorem LaneRecords.of_empty (hphase : m.phase = .empty)
    (hissued : ∀ r ∈ w.issued, r.root = b → r.ticket < m.nextTicket) : LaneRecords w b m := by
  refine ⟨hissued, fun hne => absurd hphase hne, fun hbusy => ?_, fun hdone => ?_⟩
  · rw [hphase] at hbusy
    rcases hbusy with hbusy | hbusy <;> cases hbusy
  · rw [hphase] at hdone
    cases hdone

/-- The other lane submits. -/
theorem LaneRecords.submit (h : LaneRecords w b m) (hr : r.root ≠ b) :
    LaneRecords { w with issued := w.issued ++ [r] } b m where
  __ := h
  issued s hs hb := by
    rcases mem_append.mp hs with hs | hs
    · exact h.issued s hs hb
    · exact absurd (mem_singleton.mp hs ▸ hb) hr
  current hne := ⟨mem_append_left _ (h.current hne).1, (h.current hne).2⟩

/-- The other lane completes. -/
theorem LaneRecords.complete (h : LaneRecords w b m) {c} (hc : c.request.root ≠ b) :
    LaneRecords { w with completions := w.completions ++ [c] } b m  where
  __ := h
  unanswered hbusy hmem := by
    rw [List.map_append, mem_append] at hmem
    rcases hmem with hmem | hmem
    · exact h.unanswered hbusy hmem
    · exact hc (congrArg Request.root (mem_singleton.mp hmem)).symm
  answered hdone := by
    obtain ⟨response, hmem, hbytes⟩ := h.answered hdone
    exact ⟨response, mem_append_left _ hmem, hbytes⟩

/-- The other lane delivers. -/
theorem LaneRecords.deliver (h : LaneRecords w b m) (hr : r.root ≠ b) :
    LaneRecords { w with delivered := w.delivered ++ [r] } b m where
  __ := h
  current hne := by
    obtain ⟨hissued, hdelivered, hrevoked⟩ := h.current hne
    refine ⟨hissued, fun hmem => ?_, hrevoked⟩
    rcases mem_append.mp hmem with hmem | hmem
    · exact hdelivered hmem
    · exact hr (congrArg Request.root (mem_singleton.mp hmem)).symm

/-- A handle is revoked whose message the lane does not hold. -/
theorem LaneRecords.revoke (h : LaneRecords w b m) {handle}
    (hhandle : m.phase ≠ .empty → m.message.handle ≠ handle) :
    LaneRecords (w.note size (.revoked handle)) b m  where
  __ := h
  current hne := by
    obtain ⟨hissued, hdelivered, hrevoked⟩ := h.current hne
    refine ⟨hissued, hdelivered, fun hmem => ?_⟩
    rcases mem_append.mp hmem with hmem | hmem
    · exact hrevoked hmem
    · exact hhandle hne (of_decide_eq_true (List.mem_filter.mp hmem).2)

end LaneRecords

/-- The facts of both lanes after a change of one. -/
theorem forall_lane {P : Bool → Mailbox size → Prop} (hb : P b m) (hother : P (!b) (l.lane (!b)))
    (c : Bool) : P c ((setLane b m l).lane c) := by
  cases b <;> cases c <;> assumption

theorem LaneRecords.serve (h : LaneRecords w b m) (serving) :
    LaneRecords { w with serving } b m :=
  { h with }

/-- The worker serves the message of a running lane. -/
theorem Records.serving_eq (h : Records l w) (hphase : (l.lane b).phase = .running) :
    w.serving = some (l.request b) := by
  have hactive := h.active
  rw [h.sound.running b hphase] at hactive
  obtain ⟨r, hr, hkey⟩ := Option.map_eq_some_iff.mp hactive.symm
  have hissued := ((h.lanes b).current (by rw [hphase]; nofun)).1
  rw [hr, List.inj_on_of_nodup_map h.nodup (h.serving r hr) hissued hkey, request]

/-- A new request of a lane. -/
theorem Records.fresh (h : Records l w) (b : Bool) (handle : UInt64) :
    ⟨b, (l.lane b).nextTicket, handle⟩ ∉ w.issued := fun hmem =>
  absurd ((h.lanes b).issued _ hmem rfl) (UInt64.lt_irrefl _)

variable {handle : UInt64} {e : LaneEvent}

theorem Records.submitted (h : Records l w) {next : UInt64}
    (hnext : (l.lane (isRoot handle)).nextTicket.checkedAdd 1 = some next)
    (hm : m.nextTicket = next) (hphase : m.phase = .submitted)
    (hrequest : m.request (isRoot handle) =
      ⟨isRoot handle, (l.lane (isRoot handle)).nextTicket, handle⟩)
    (hsound : Sound (setLane (isRoot handle) m l)) :
    Records (setLane (isRoot handle) m l)
      (w.note size
        (.submitted ⟨isRoot handle, (l.lane (isRoot handle)).nextTicket, handle⟩)) := by
  have hvalue := UInt64.checkedAdd_eq_some.mp hnext
  have hfresh := h.fresh (isRoot handle) handle
  have hlane : LaneRecords (w.note size (.submitted (m.request (isRoot handle)))) (isRoot handle)
      m := by
    refine ⟨fun r hr hroot => ?_, fun _ => ⟨List.mem_append_right _ (mem_singleton.mpr rfl),
      fun hmem => ?_, fun hmem => ?_⟩, fun _ hmem => ?_, fun hdone => ?_⟩
    · rw [hm, UInt64.lt_iff_toNat_lt, hvalue]
      rcases mem_append.mp hr with hr | hr
      · have hlt := UInt64.lt_iff_toNat_lt.mp ((h.lanes _).issued r hr hroot)
        exact Nat.lt_succ_of_lt hlt
      · rw [mem_singleton.mp hr, hrequest]
        exact Nat.lt_succ_self _
    · exact hfresh (h.past.1 (hrequest ▸ hmem))
    · exact hfresh (h.past.2.1 (hrequest ▸ hmem))
    · exact hfresh (h.past.2.2 (hrequest ▸ hmem))
    · rw [hphase] at hdone
      cases hdone
  rw [hrequest] at hlane
  exact
    { h with
      sound := hsound
      lanes := forall_lane hlane ((h.lanes _).submit (by simp))
      roots := fun r hr => by
        rcases mem_append.mp hr with hr | hr
        · exact h.roots r hr
        · rw [mem_singleton.mp hr]
      nodup := by
        simp only [LaneLedger.note, List.map_append, List.map_cons, List.map_nil]
        refine List.nodup_append'.mpr ⟨h.nodup, List.nodup_singleton _, fun key hkey hnew => ?_⟩
        obtain ⟨r, hr, rfl⟩ := List.mem_map.mp hkey
        obtain ⟨hroot, hticket⟩ := Prod.mk.inj (mem_singleton.mp hnew)
        have hlt := (h.lanes _).issued r hr hroot
        exact UInt64.lt_irrefl _ (hticket ▸ hlt)
      active := (active_setLane _ _ _).trans h.active
      serving := fun r hr => mem_append_left _ (h.serving r hr)
      past := ⟨fun _ hr => mem_append_left _ (h.past.1 hr),
        fun _ hr => mem_append_left _ (h.past.2.1 hr),
        fun _ hr => mem_append_left _ (h.past.2.2 hr)⟩ }

/-- The lane of the worker's request accepts the reply. -/
theorem Records.completed (h : Records l w) {ticket : UInt64} (result : Int64) {response : Bytes}
    (hserves : l.Serves b ticket) (hlength : response.length = size) (hm : m = { l.lane b with
      bytes := (l.lane b).bytes.put (response.take (l.lane b).message.capacity)
      result
      phase := .completed }) (hsound : Sound { setLane b m l with active := none }) :
    Records { setLane b m l with active := none }
      (w.note size (.answered ticket result response true)) := by
  obtain ⟨hphase, rfl⟩ := hserves
  have hne : (l.lane b).phase ≠ .empty := by rw [hphase]; nofun
  have hserving := h.serving_eq hphase
  have hnote : w.note size (.answered (l.lane b).message.ticket result response true) =
      { w with
        serving := none
        completions := w.completions ++ [⟨l.request b, result, response⟩] } := by
    simp only [LaneLedger.note, LaneLedger.answer, hserving, request, Mailbox.request, hlength,
      and_self, if_true]
  have hcurrent := (h.lanes b).current hne
  have hnew : l.request b ∉ w.completions.map Completion.request :=
    (h.lanes b).unanswered (.inr hphase)
  have hreply : (response.take (l.lane b).message.capacity).length =
      (l.lane b).message.capacity := by
    rw [List.length_take, hlength, Nat.min_eq_left ((h.sound.mail b).message hne).2.2.2.2]
  have htake := Buffer.take_put (hreply.trans_le ((h.sound.mail b).message hne).2.2.2.2)
    (l.lane b).bytes
  rw [hreply] at htake
  have hlane : LaneRecords
      { w with completions := w.completions ++ [⟨l.request b, result, response⟩] } b m := by
    subst hm
    refine ⟨(h.lanes b).issued, fun _ => hcurrent, fun hbusy => ?_, fun _ => ?_⟩
    · rcases hbusy with hbusy | hbusy <;> cases hbusy
    · exact ⟨response, List.mem_append_right _ (mem_singleton.mpr rfl), htake⟩
  rw [hnote]
  exact
    { h with
      sound := hsound
      lanes := fun c =>
        (forall_lane hlane ((h.lanes _).complete (by cases b <;> nofun)) c).serve none
      active := rfl
      serving := nofun
      past := ⟨h.past.1, h.past.2.1, by
        rw [List.map_append]
        exact List.append_subset.mpr ⟨h.past.2.2, List.cons_subset.mpr ⟨hcurrent.1,
          nil_subset _⟩⟩⟩
      once := ⟨h.once.1, by
        rw [List.map_append]
        exact h.once.2.append (List.nodup_singleton _)
          (List.disjoint_singleton.mpr hnew)⟩ }

/-- The completion of a lane is polled. -/
theorem Records.delivered (h : Records l w) (hphase : (l.lane b).phase = .completed)
    (result : Int64) (bytes : Bytes) :
    Records (setLane b (l.lane b).clear l)
      (w.note size (.delivered (l.request b) result bytes)) := by
  obtain ⟨hissued, hdelivered, -⟩ := (h.lanes b).current (by rw [hphase]; nofun)
  exact
    { h with
      sound := h.sound.clear b
      lanes := forall_lane (.of_empty rfl (h.lanes b).issued)
        ((h.lanes _).deliver (by cases b <;> nofun))
      active := (active_setLane _ _ _).trans h.active
      past := ⟨List.append_subset.mpr ⟨h.past.1, List.cons_subset.mpr ⟨hissued,
        nil_subset _⟩⟩, h.past.2⟩
      once := ⟨h.once.1.append (List.nodup_singleton _) (List.disjoint_singleton.mpr hdelivered),
        h.once.2⟩ }

/-- A handle is revoked: its lane is empty or does not hold its message. -/
theorem Records.revoked (h : Records l w) (hsound : t.Sound) (hactive : t.active = l.active)
    (hlanes : ∀ b, LaneRecords (w.note size (.revoked handle)) b (t.lane b)) :
    Records t (w.note size (.revoked handle)) where
  __ := h
  sound := hsound
  lanes := hlanes
  active := hactive.trans h.active
  past := ⟨h.past.1, List.append_subset.mpr ⟨h.past.2.1, List.filter_subset_self _⟩, h.past.2.2⟩

/-- The messages of the other lane are not of this handle. -/
theorem Sound.handle_ne (h : l.Sound) (b : Bool) (hb : b ≠ isRoot handle)
    (hne : (l.lane b).phase ≠ .empty) : (l.lane b).message.handle ≠ handle := fun heq =>
  hb (heq ▸ (h.handle b hne).symm)

theorem Records.change (h : Records l w) (hchange : LaneChange l e t) :
    Records t (w.note size e) := by
  have hsound := hchange.sound h.sound
  cases hchange with
  | same => exact h
  | submitted hempty hargs hnext => exact h.submitted hnext rfl rfl rfl hsound
  | @fetched b hidle hphase =>
    have hlane : LaneRecords w b { l.lane b with phase := .running } :=
      ⟨(h.lanes b).issued, fun _ => (h.lanes b).current (by rw [hphase]; nofun),
        fun _ => (h.lanes b).unanswered (.inl hphase), nofun⟩
    exact
      { h with
        sound := hsound
        lanes := fun c => (forall_lane hlane (h.lanes _) c).serve _
        active := rfl
        serving := fun r hr =>
          Option.some.inj hr ▸ ((h.lanes b).current (by rw [hphase]; nofun)).1 }
  | completed hactive hserves hlength => exact h.completed _ hserves hlength rfl hsound
  -- the answer of a lane that was revoked meanwhile goes nowhere
  | @dropped b ticket result response hactive hserves hlength =>
    obtain ⟨r, hr, hkey⟩ := Option.map_eq_some_iff.mp (h.active ▸ hactive)
    have hnote : w.note size (.answered ticket result response false) =
        { w with serving := none } := by
      simp [LaneLedger.note, LaneLedger.answer, hr, (Prod.mk.inj hkey).2, hlength]
    rw [hnote]
    exact
      { h with
        sound := hsound
        lanes := fun c => (h.lanes c).serve none
        active := rfl
        serving := nofun }
  -- an answer that is too long, or to another request, changes nothing
  | @refused ticket result response hrefused =>
    have hnote : w.note size (.answered ticket result response false) = w := by
      simp only [LaneLedger.note, LaneLedger.answer]
      cases hserving : w.serving with
      | none => rfl
      | some r =>
        refine if_neg fun hfits => hrefused ⟨hfits.2, ?_⟩
        rw [h.active, hserving, ← hfits.1]
        rfl
    rw [hnote]
    exact h
  | delivered hphase hrequest =>
    rw [← hrequest]
    exact h.delivered hphase _ _
  | @revoked handle hholds =>
    refine h.revoked hsound (active_setLane _ _ _) (forall_lane
      (.of_empty rfl (h.lanes _).issued) ((h.lanes _).revoke ?_))
    exact h.sound.handle_ne _ (by simp)
  -- no lane belongs to the handle
  | @unheld handle hholds =>
    refine h.revoked hsound rfl fun b => (h.lanes b).revoke fun hne heq => ?_
    by_cases hb : b = isRoot handle
    · subst hb
      exact hholds ⟨hne, heq⟩
    · exact h.sound.handle_ne b hb hne heq

theorem records_new : Records (new : Lanes size) .new where
  sound := sound_new
  lanes := fun b => .of_empty (by cases b <;> rfl) nofun
  roots := nofun
  nodup := List.nodup_nil
  active := rfl
  serving := nofun
  past := ⟨nil_subset _, nil_subset _, nil_subset _⟩
  once := ⟨List.nodup_nil, List.nodup_nil⟩

theorem Watches.records {sha256 : Bytes → Buffer 32} (hsize : size < 2 ^ 32)
    (h : Watches sha256 l w) : Records l w := by
  refine Steps.invariant (I := fun p : Lanes size × LaneLedger => Records p.1 p.2) ?_ h
    records_new
  rintro ⟨l, w⟩ op ⟨t, v⟩ hrecords - hstep
  obtain ⟨u, hu, heq⟩ := Option.map_eq_some_iff.mp hstep
  cases heq
  exact hrecords.change (of_state (wp_exec sha256 hrecords.sound hsize op) hu)

/-- Only the lane that an event is about changes. -/
theorem LaneChange.lane_eq (hchange : LaneChange l e t) (h : Records l w)
    (hb : w.lane? e ≠ some b) : t.lane b = l.lane b := by
  have hset : ∀ {c : Bool} (m : Mailbox size), c ≠ b → (setLane c m l).lane b = l.lane b := by
    intro c m hne
    cases b <;> cases c <;> first | rfl | exact absurd rfl hne
  have hne : ∀ {c : Bool}, w.lane? e = some c → c ≠ b := fun hc heq => hb (heq ▸ hc)
  cases hchange with
  | same | dropped | refused | unheld => rfl
  | submitted | delivered | revoked | fetched => exact hset _ (hne rfl)
  | @completed c _ _ _ _ hserves =>
    refine hset _ (hne ?_)
    rw [LaneLedger.lane?, h.serving_eq hserves.1]
    rfl

/-- What is delivered is the reply to a request that was not delivered or revoked before. -/
theorem LaneChange.delivers {r result bytes}
    (hchange : LaneChange l (.delivered r result bytes) t) (h : Records l w) :
    r ∈ w.issued ∧ r ∉ w.delivered ∧ r ∉ w.revoked ∧
      ∃ response, ⟨r, result, response⟩ ∈ w.completions ∧ bytes <+: response := by
  generalize he : LaneEvent.delivered r result bytes = e at hchange
  cases hchange with
  | @delivered handle ticket hphase hrequest =>
    cases he
    obtain ⟨hissued, hdelivered, hrevoked⟩ := (h.lanes _).current (by rw [hphase]; nofun)
    obtain ⟨response, hmem, hbytes⟩ := (h.lanes _).answered hphase
    have hr : Mailbox.request (isRoot handle) (l.lane (isRoot handle)) = _ := hrequest
    rw [hr] at hissued hdelivered hrevoked hmem
    exact ⟨hissued, hdelivered, hrevoked, response, hmem, hbytes ▸ List.take_prefix _ _⟩
  | _ => cases he

/-- **A completion reaches its requester, once.**  In every run, requests of a lane have different
tickets, and none is completed or delivered twice.  A poll returns only the reply to the request
of its own lane, handle and ticket, which was neither delivered nor revoked before.  An operation
leaves the lane alone that it is not about, and a snapshot is restored to the same lanes. -/
theorem delivered_once {sha256 : Bytes → Buffer 32} (hsize : size < 2 ^ 32)
    (h : Watches sha256 l w) :
    (w.issued.map Request.key).Nodup ∧ w.delivered.Nodup ∧
    (w.completions.map Completion.request).Nodup ∧
    (∀ handle ticket len result bytes t, poll handle ticket len l = .ok (result, bytes) t →
      let r : Request := ⟨isRoot handle, ticket, handle⟩
      r ∈ w.issued ∧ r ∉ w.delivered ∧ r ∉ w.revoked ∧
        ∃ response, ⟨r, result, response⟩ ∈ w.completions ∧ bytes <+: response) ∧
    (∀ op t b, step sha256 op l = some t → w.lane? (l.event op) ≠ some b →
      t.lane b = l.lane b) ∧
    (∀ domain registered target, domain ≠ 0 → l.Registered registered →
      ∃ input, l.snapshot sha256 domain (stateBytes size) = .ok input ∧
        restoreProtected sha256 domain input registered target = .ok () l) := by
  have hrecords := h.records hsize
  refine ⟨hrecords.nodup, hrecords.once.1, hrecords.once.2, ?_, ?_, ?_⟩
  · intro handle ticket len result bytes t hpoll
    exact (of_ok (wp_poll handle ticket len) hpoll).delivers hrecords
  · intro op t b hstep hb
    exact (of_state (wp_exec sha256 hrecords.sound hsize op) hstep).lane_eq hrecords hb
  · intro domain registered target hdomain hregistered
    refine ⟨_, hrecords.sound.snapshot_eq sha256 hdomain, ?_⟩
    rw [hrecords.sound.restore_image sha256 hsize hdomain registered target, if_pos hregistered]

/-- The boot owner's request, with the ticket of one in the other lane, is revoked while the worker
has it and before the monitor is replaced. -/
def revokedRun : List LaneOp :=
  [.submit 7 9 1 [11], .submit BOOT_OWNER_HANDLE 9 1 [22], .fetch 2, .revoke BOOT_OWNER_HANDLE,
    .handOver 2 fun _ _ => true, .complete 1 4 [44, 0], .fetch 2, .complete 1 5 [33, 0]]

/-- The late reply is dropped and the other one is delivered. -/
theorem delivered_once_revoked : ∃ (l : Lanes 2) (w : LaneLedger), Watches (fun _ => .zero) l w ∧
      w.revoked = [⟨true, 1, BOOT_OWNER_HANDLE⟩] ∧
      w.completions = [⟨⟨false, 1, 7⟩, 5, [33, 0]⟩] ∧
      (∃ t, poll 7 1 1 l = .ok (5, [33]) t) ∧ (w.issued.map Request.key).Nodup := by
  have hrun : (runAll (watch (step fun _ => (.zero : Buffer 32)) fun w op (l : Lanes 2) _ =>
      w.note 2 (l.event op)) (fun _ _ => true) revokedRun (new, LaneLedger.new)).any
      (fun p => p.2.revoked = [⟨true, 1, BOOT_OWNER_HANDLE⟩] ∧
        p.2.completions = [⟨⟨false, 1, 7⟩, 5, [33, 0]⟩] ∧
        ((poll 7 1 1 p.1).returned?.map Prod.fst) = some (5, [33])) = true := by
    decide +kernel
  obtain ⟨⟨l, w⟩, hwatch, hrevoked, hcompletions, hpoll⟩ :=
    exists_steps (fun _ _ => True) revokedRun hrun
  obtain ⟨⟨_, t⟩, hreturned, rfl⟩ := Option.map_eq_some_iff.mp hpoll
  exact ⟨l, w, hwatch, hrevoked, hcompletions, ⟨t, Outcome.eq_ok_of_returned? hreturned⟩,
    (delivered_once (by decide) hwatch).1⟩

end Lanes

end Bexos
