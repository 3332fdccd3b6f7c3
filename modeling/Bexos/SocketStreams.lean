/-
Sockets are byte streams.

One direction of a socket, into one of its ends, is watched over a whole run of the runtime.
`Traffic` holds the bytes that writes on the other end were told are accepted, and the bytes
that reads on the end returned.

* `Steady` — every operation but a write and a read leaves what waits for the end as it is, or
  shuts the end for reading;
* `Carries` — what was returned leads what was accepted, and as long as the end is open for
  reading the rest is what waits;
* `sockets_are_streams` — the stream over every run.

Design notes: the chunks of a queue are never joined, so the stream is their concatenation.
A shut end keeps no chunks and takes none, which is why nothing is said of what waits there.
-/
import Bexos.RuntimeOps

namespace Bexos

open Prog

namespace Runtime

variable {B : Type}

/-! ### What waits for an end -/

/-- The chunks that wait for an end of a socket, while it is open for reading. None wait for a
socket that has yet to be made. -/
def waiting (s : Runtime B) (id : ℕ) (e : End) : Option (List Bytes) :=
  match s.sockets[id]? with
  | none => some []
  | some c => if c.readClosed.get e then none else some (c.queues.get e)

/-- The end of a socket that a handle names. -/
def socketOf (s : Runtime B) (h : ℕ) : Option (ℕ × End) :=
  (s.slot h).bind (·.object.socket?)

variable {s t : Runtime B} {h : ℕ}

theorem waiting_of_sockets (h : t.sockets = s.sockets) (id e) :
    t.waiting id e = s.waiting id e := by
  unfold waiting
  rw [h]

theorem waiting_modifySocket {i c} (hc : s.sockets[i]? = some c) (f : Socket → Socket) (id e) :
    (modifySocket i f s).waiting id e =
      if id = i then if (f c).readClosed.get e then none else some ((f c).queues.get e)
      else s.waiting id e := by
  unfold waiting modifySocket
  by_cases hi : id = i
  · subst hi
    simp [hc]
  · simp [hi, List.getElem?_modify_ne _ _ (Ne.symm hi)]

/-- What waits for an end is what waited before, unless the end was shut for reading. -/
def Steady (id : ℕ) (e : End) (s t : Runtime B) : Prop :=
  ∀ q, t.waiting id e = some q → s.waiting id e = some q

variable {id : ℕ} {e : End}

instance : Std.Refl (Steady (B := B) id e) := ⟨fun _ _ h => h⟩

instance : IsTrans (Runtime B) (Steady id e) := ⟨fun _ _ _ h₁ h₂ q hq => h₁ q (h₂ q hq)⟩

/-- The parts of the state other than the sockets. -/
abbrev offSockets : List Part :=
  [.handover, .dirty, .reclaim, .backend, .layout, .life, .space, .population, .jobs, .current,
    .threadLife, .threadRun, .threadContext, .vmos, .regions, .vmarRefs, .handles, .channels,
    .profiles, .scheduler, .pins, .iommuDomains, .dmaMappings, .interrupts, .counters]

instance : Covers (B := B) (Steady id e) offSockets where
  le _ _ h q hq := (waiting_of_sockets (h .sockets (by decide)) id e).symm.trans hq

/-- A change of a socket that leaves the chunks of every end it leaves open. -/
theorem steady_modifySocket (i : ℕ) {f : Socket → Socket}
    (hf : ∀ c, (f c).readClosed.get e = false →
      c.readClosed.get e = false ∧ (f c).queues.get e = c.queues.get e) :
    Moves (Steady id e) (modify (modifySocket i f) : RtM B Unit) := by
  refine .modify fun s q hq => ?_
  cases hc : s.sockets[i]? with
  | none =>
    have hnone : s.sockets.length ≤ i := List.getElem?_eq_none_iff.mp hc
    rw [← hq]
    exact (waiting_of_sockets (List.modify_eq_self hnone) id e).symm
  | some c =>
    rw [waiting_modifySocket hc] at hq
    split at hq
    · rename_i hi
      subst hi
      cases hopen : (f c).readClosed.get e with
      | true => rw [if_pos hopen] at hq; cases hq
      | false =>
        rw [if_neg (by rw [hopen]; decide), (hf c hopen).2] at hq
        unfold waiting
        rw [hc]
        exact (if_neg (by rw [(hf c hopen).1]; decide)).trans hq
    · exact hq

theorem get_modify_true {p : Ends Bool} {e' : End} (h : (p.modify e' fun _ => true).get e = false) :
    e ≠ e' ∧ p.get e = false := by
  cases e <;> cases e' <;> first | exact ⟨by decide, h⟩ | cases h

theorem get_modify_ne {α : Type} {p : Ends α} {e' : End} (f : α → α) (h : e ≠ e') :
    (p.modify e' f).get e = p.get e := by
  cases e <;> cases e' <;> first | rfl | exact absurd rfl h

theorem get_modify_self {α : Type} (p : Ends α) (e : End) (f : α → α) :
    (p.modify e f).get e = f (p.get e) := by
  cases e <;> rfl

instance (i) (refs : Socket → Ends ℕ) : Moves (Steady id e)
    (modify (modifySocket i fun c => { c with refs := refs c }) : RtM B Unit) :=
  steady_modifySocket i fun _ h => ⟨h, rfl⟩

instance (object) : Moves (Steady id e) (acquireRef object : RtM B Unit) := by
  cases object <;> (unfold acquireRef; infer_instance)

set_option synthInstance.maxSize 100000 in
instance [Backend B] (object) : Moves (Steady id e) (releaseRef object : RtM B (List ℕ)) := by
  have hclose : ∀ i e', Moves (Steady id e) (modify (modifySocket i fun c =>
      { c with
        readClosed := c.readClosed.modify e' fun _ => true
        writeClosed := c.writeClosed.modify e' fun _ => true }) : RtM B Unit) :=
    fun i e' => steady_modifySocket i fun c h => ⟨(get_modify_true h).2, rfl⟩
  cases object <;> (unfold releaseRef; infer_instance)

set_option synthInstance.maxSize 100000 in
instance : Moves (Steady id e) (createSocketPair : RtM B (ℕ × ℕ)) := by
  have hnew : Moves (Steady id e) (modify fun s => { s with
      sockets := s.sockets ++ [⟨⟨[], []⟩, ⟨0, 0⟩, ⟨false, false⟩, ⟨false, false⟩⟩] } :
      RtM B Unit) := by
    refine .modify fun s q hq => ?_
    unfold waiting at hq ⊢
    by_cases hid : id < s.sockets.length
    · simpa [List.getElem?_append_left hid] using hq
    · rw [List.getElem?_eq_none (Nat.not_lt.mp hid)]
      rw [List.getElem?_append_right (Nat.not_lt.mp hid), List.getElem?_singleton] at hq
      by_cases hnew : id - s.sockets.length = 0
      · cases e <;> simpa [hnew, Ends.get] using hq
      · simpa [hnew] using hq
  unfold createSocketPair
  infer_instance

set_option synthInstance.maxSize 100000 in
instance (h read write) : Moves (Steady id e) (shutdownSocket h read write : RtM B Unit) := by
  have hread : ∀ i e', Moves (Steady id e) (modify (modifySocket i fun c =>
      { c with
        readClosed := c.readClosed.modify e' fun _ => true
        queues := c.queues.modify e' fun _ => [] }) : RtM B Unit) := fun i e' =>
    steady_modifySocket i fun c h =>
      ⟨(get_modify_true h).2, get_modify_ne _ (get_modify_true h).1⟩
  have hwrite : ∀ i (closed : Socket → Ends Bool), Moves (Steady id e)
      (modify (modifySocket i fun c => { c with writeClosed := closed c }) : RtM B Unit) :=
    fun i closed => steady_modifySocket i fun c h => ⟨h, rfl⟩
  unfold shutdownSocket
  refine .next fun ⟨i, e', _⟩ => ?_
  dsimp only
  infer_instance

/-! ### Reading and writing -/

theorem error_ne_of_capability {rights x} (hc : s.capability h rights = .error x) :
    x ≠ .errPeerClosed := by
  unfold capability at hc
  rintro rfl
  split at hc
  · cases hc
  · split at hc
    · cases hc
    · split at hc <;> cases hc

/-- A call on a socket finds the end its handle names; if it is refused before, the state is as
it was and the peer is not reported closed. -/
theorem wp_socketEnd {rights} {Q : ℕ × End × Socket → Runtime B → Prop}
    {E : Status → Runtime B → Prop}
    (hQ : ∀ i e c, s.socketOf h = some (i, e) → s.sockets[i]? = some c → Q (i, e, c) s)
    (hE : ∀ x, x ≠ .errPeerClosed → E x s) : wp (socketEnd h rights) Q E s := by
  simp only [socketEnd, cap, wp_bind, wp_get, wp_lift, wp_unwrap, wp_pure, wp_some?]
  refine ⟨fun c hc _ _ => ⟨fun p hp c' hc' => hQ p.1 p.2 c' ?_ hc',
    fun _ => hE _ fun heq => by cases heq⟩, fun x hx => hE x (error_ne_of_capability hx)⟩
  unfold socketOf
  rw [slot_of_capability hc]
  exact hp

/-- A change of what waits for an end that is open. -/
theorem waiting_modifyQueue {i : ℕ} {c : Socket} (hc : s.sockets[i]? = some c)
    (hopen : ¬ c.readClosed.get e = true) (g : List Bytes → List Bytes) :
    let t := modifySocket i (fun c => { c with queues := c.queues.modify e g }) s
    s.waiting i e = some (c.queues.get e) ∧ t.waiting i e = some (g (c.queues.get e)) ∧
      ∀ id' e', ¬ (id' = i ∧ e' = e) → t.waiting id' e' = s.waiting id' e' := by
  have hwait : ∀ e', s.waiting i e' =
      if c.readClosed.get e' then none else some (c.queues.get e') := by
    intro e'
    unfold waiting
    rw [hc]
  have hafter := waiting_modifySocket hc fun c => { c with queues := c.queues.modify e g }
  refine ⟨(hwait e).trans (if_neg hopen), (hafter i e).trans ?_, fun id' e' hne =>
    (hafter id' e').trans ?_⟩
  · rw [if_pos rfl, if_neg hopen, get_modify_self]
  · split
    · rename_i hid
      rw [get_modify_ne _ fun he => hne ⟨hid, he⟩, hid, hwait]
    · rfl

/-- A write that is accepted puts its bytes behind what waits for the other end. -/
theorem wp_writeSocket (h : ℕ) (bytes : Bytes) (s : Runtime B) :
    wp (writeSocket h bytes) (fun _ t => ∃ i e, s.socketOf h = some (i, e) ∧
        (∃ q, s.waiting i e.peer = some q ∧ t.waiting i e.peer = some (q ++ [bytes])) ∧
        ∀ id' e', ¬ (id' = i ∧ e' = e.peer) → t.waiting id' e' = s.waiting id' e')
      (fun _ t => t = s) s := by
  unfold writeSocket
  rw [wp_bind]
  refine wp_socketEnd (fun i e c hi hc => ?_) fun _ _ => rfl
  simp only [wp_bind, wp_check, changed, wp_modify, wp_pure, not_or]
  refine ⟨fun _ => ⟨fun hopen => ⟨fun _ => ⟨i, e, hi, ?_⟩, fun _ => trivial⟩, fun _ => trivial⟩,
    fun _ => trivial⟩
  obtain ⟨hwait, hafter, hothers⟩ := waiting_modifyQueue hc hopen.2.1 (· ++ [bytes])
  exact ⟨⟨_, hwait, hafter⟩, hothers⟩

/-- A read takes from the first chunk that waits; one that reports the peer closed finds that
nothing waits, or that the end is shut. -/
theorem wp_readSocket (h maxBytes : ℕ) (s : Runtime B) :
    wp (readSocket h maxBytes) (fun bytes t => ∃ i e, s.socketOf h = some (i, e) ∧
        (∃ q q', s.waiting i e = some q ∧ t.waiting i e = some q' ∧
          q.flatten = bytes ++ q'.flatten) ∧
        ∀ id' e', ¬ (id' = i ∧ e' = e) → t.waiting id' e' = s.waiting id' e')
      (fun x t => t = s ∧ (x = .errPeerClosed → ∀ i e q, s.socketOf h = some (i, e) →
        s.waiting i e = some q → q = [])) s := by
  unfold readSocket
  rw [wp_bind]
  refine wp_socketEnd (fun i e c hi hc => ?_) fun x hx => ⟨rfl, fun h => absurd h hx⟩
  have hnames : ∀ i' e', s.socketOf h = some (i', e') → i' = i ∧ e' = e := by
    intro i' e' hi'
    rw [hi, Option.some_inj, Prod.mk.injEq] at hi'
    exact ⟨hi'.1.symm, hi'.2.symm⟩
  simp only [wp_bind, wp_check]
  refine ⟨fun _ => ⟨fun hopen => ?_, fun hshut => ⟨trivial, fun _ i' e' q hi' hq => ?_⟩⟩,
    fun _ => ⟨trivial, fun heq => by cases heq⟩⟩
  · cases hqueue : c.queues.get e with
    | nil =>
      obtain ⟨hwait, -⟩ := waiting_modifyQueue hc hopen id
      have hnone : ∀ i' e' q, s.socketOf h = some (i', e') → s.waiting i' e' = some q →
          q = [] := by
        intro i' e' q hi' hq
        obtain ⟨rfl, rfl⟩ := hnames i' e' hi'
        rw [hwait, hqueue] at hq
        exact (Option.some.inj hq).symm
      dsimp only
      split <;> exact (wp_fail _).mpr ⟨rfl, fun _ => hnone⟩
    -- a chunk that is too long is cut, and the rest stays at the head of the queue
    | cons chunk rest =>
      simp only [wp_bind, changed, wp_modify, wp_pure]
      generalize hleft : (if chunk.length > maxBytes then chunk.drop maxBytes :: rest else rest)
        = left
      obtain ⟨hwait, hafter, hothers⟩ := waiting_modifyQueue hc hopen fun _ => left
      refine ⟨i, e, hi, ⟨chunk :: rest, left, hqueue ▸ hwait, hafter, ?_⟩, hothers⟩
      rw [← hleft, List.flatten_cons]
      split
      · rw [List.flatten_cons, ← List.append_assoc, List.take_append_drop]
      · rename_i hlen
        rw [List.take_of_length_le (Nat.not_lt.mp hlen)]
  · obtain ⟨rfl, rfl⟩ := hnames i' e' hi'
    unfold waiting at hq
    rw [hc] at hq
    exact absurd hq (by simp [not_not.mp hshut])

theorem shutdownSocket_err {read write x} (hx : shutdownSocket h read write s = .err x t) :
    t = s := by
  refine of_err (Q := fun _ _ => True) (E := fun _ t => t = s) ?_ hx
  unfold shutdownSocket
  rw [wp_bind]
  refine wp_socketEnd (fun i e c _ _ => ?_) fun _ _ => rfl
  simp only [wp_bind, wp_get, wp_check, wp_when, changed, wp_modify]
  simp

/-! ### The stream -/

/-- The bytes accepted for an end of a socket, and those its reads returned. -/
structure Traffic where
  accepted : Bytes
  returned : Bytes
  deriving DecidableEq

/-- What an observer of the direction into an end writes down. -/
def Traffic.note (id : ℕ) (e : End) (w : Traffic) (op : Op B) (s _ : Runtime B) : Traffic :=
  match op with
  | .writeSocket h bytes =>
    if s.socketOf h = some (id, e.peer) ∧ (writeSocket h bytes s).returned?.isSome then
      { w with accepted := w.accepted ++ bytes }
    else w
  | .readSocket h maxBytes =>
    match (readSocket h maxBytes s).returned? with
    | some r => if s.socketOf h = some (id, e) then { w with returned := w.returned ++ r.1 } else w
    | none => w
  | _ => w

structure Carries (id : ℕ) (e : End) (s : Runtime B) (w : Traffic) : Prop where
  lead : w.returned <+: w.accepted
  rest : ∀ q, s.waiting id e = some q → w.accepted = w.returned ++ q.flatten

variable {w : Traffic}

theorem Carries.steady (h : Carries id e s w) (ht : Steady id e s t) :
    Carries id e t w := ⟨h.lead, fun q hq => h.rest q (ht q hq)⟩

theorem peer_peer (e : End) : e.peer.peer = e := by cases e <;> rfl

theorem Carries.write {bytes n} (hw : Carries id e s w) (hx : writeSocket h bytes s = .ok n t) :
    Carries id e t (w.note id e (.writeSocket h bytes) s t) := by
  obtain ⟨i, e', hi, ⟨q, hq, hq'⟩, hothers⟩ := of_ok (wp_writeSocket h bytes s) hx
  simp only [Traffic.note, hx, Outcome.returned?, Option.isSome_some, and_true, hi,
    Option.some_inj, Prod.mk.injEq]
  by_cases hend : i = id ∧ e' = e.peer
  · obtain ⟨rfl, rfl⟩ := hend
    rw [peer_peer] at hq hq'
    rw [if_pos ⟨rfl, rfl⟩]
    refine ⟨hw.lead.trans (List.prefix_append _ _), fun q₁ hq₁ => ?_⟩
    rw [← Option.some.inj (hq'.symm.trans hq₁), hw.rest q hq]
    simp
  · rw [if_neg hend]
    refine hw.steady fun q₁ hq₁ => (hothers id e fun h => hend ⟨h.1.symm, ?_⟩).symm.trans hq₁
    rw [h.2, peer_peer]

theorem Carries.read {maxBytes bytes} (hw : Carries id e s w)
    (hx : readSocket h maxBytes s = .ok bytes t) :
    Carries id e t (w.note id e (.readSocket h maxBytes) s t) := by
  obtain ⟨i, e', hi, ⟨q, q', hq, hq', hsplit⟩, hothers⟩ :=
    of_ok (wp_readSocket h maxBytes s) hx
  simp only [Traffic.note, hx, Outcome.returned?, hi, Option.some_inj, Prod.mk.injEq]
  by_cases hend : i = id ∧ e' = e
  · obtain ⟨rfl, rfl⟩ := hend
    rw [if_pos ⟨rfl, rfl⟩]
    have hrest : w.accepted = (w.returned ++ bytes) ++ q'.flatten := by
      rw [hw.rest q hq, hsplit, List.append_assoc]
    refine ⟨⟨_, hrest.symm⟩, fun q₁ hq₁ => ?_⟩
    rw [← Option.some.inj (hq'.symm.trans hq₁)]
    exact hrest
  · rw [if_neg hend]
    exact hw.steady fun q₁ hq₁ =>
      (hothers id e fun h => hend ⟨h.1.symm, h.2.symm⟩).symm.trans hq₁

section Runs

variable [Backend B]

set_option synthInstance.maxSize 100000 in
theorem carries_step (hw : Carries id e s w) (op) :
    ends (exec op) (fun t => Carries id e t (w.note id e op s t)) s := by
  cases op with
  | writeSocket h bytes =>
    unfold ends exec discard
    rw [wp_bind]
    refine wp_of_run (fun n t hx => (wp_pure ()).mpr (hw.write hx)) fun x t hx => ?_
    obtain rfl := of_err (wp_writeSocket h bytes s) hx
    simpa [Traffic.note, hx, Outcome.returned?] using hw
  | readSocket h maxBytes =>
    unfold ends exec discard
    rw [wp_bind]
    refine wp_of_run (fun bytes t hx => (wp_pure ()).mpr (hw.read hx)) fun x t hx => ?_
    obtain rfl := (of_err (wp_readSocket h maxBytes s) hx).1
    simpa [Traffic.note, hx, Outcome.returned?] using hw
  | _ =>
    unfold exec
    exact wp_of_moves (R := Steady id e) (fun _ _ ht => hw.steady ht) fun _ _ ht => hw.steady ht

/-- **Sockets are byte streams.** Over every run of the runtime, and for each end of each
socket: the bytes that reads on the end returned lead the bytes accepted from the other end;
they are all of them when a read reports that the peer closed and the end was not itself shut
for reading; and a call on a socket that fails changes nothing. -/
theorem sockets_are_streams (id : ℕ) (e : End) {s : Runtime B} {w : Traffic}
    (hrun : Watches (Traffic.note id e) ⟨[], []⟩ (fun _ _ => True) s w) :
    w.returned <+: w.accepted ∧
    (∀ h maxBytes t, s.socketOf h = some (id, e) → s.waiting id e ≠ none →
      readSocket h maxBytes s = .err .errPeerClosed t → w.returned = w.accepted) ∧
    (∀ h bytes x t, writeSocket h bytes s = .err x t → t = s) ∧
    (∀ h maxBytes x t, readSocket h maxBytes s = .err x t → t = s) ∧
    ∀ h read write x t, shutdownSocket h read write s = .err x t → t = s := by
  have hcarries : Carries id e s w := by
    refine hrun.invariant (I := Carries id e) (fun backend cpuCount support => ?_)
      fun s w op hw _ => carries_step hw op
    refine ⟨List.prefix_refl _, fun q hq => ?_⟩
    have hnone : (withCpuCount backend cpuCount support).waiting id e = some [] := by
      unfold waiting withCpuCount
      cases Scheduler.withCpuCount cpuCount <;> simp [new]
    rw [← Option.some.inj (hnone.symm.trans hq)]
    rfl
  refine ⟨hcarries.lead, fun h maxBytes t hh hopen hx => ?_,
    fun h bytes x t hx => of_err (E := fun _ t => t = s) (wp_writeSocket h bytes s) hx,
    fun h maxBytes x t hx => (of_err (wp_readSocket h maxBytes s) hx).1,
    fun h read write x t hx => shutdownSocket_err hx⟩
  obtain ⟨q, hq⟩ := Option.ne_none_iff_exists'.mp hopen
  have hempty := (of_err (wp_readSocket h maxBytes s) hx).2 rfl id e q hh hq
  rw [hcarries.rest q hq, hempty, List.flatten_nil, List.append_nil]

end Runs

open TestBackend in
/-- Five bytes are written in two chunks and read in two other pieces, after the writer has
shut its side. -/
theorem chunks_are_streamed : ∃ (s : Runtime TestBackend) (w : Traffic),
      Watches (Traffic.note 0 .one) ⟨[], []⟩ (fun _ _ => True) s w ∧
      w.accepted = [1, 2, 3, 4, 5] ∧ w.returned <+: w.accepted := by
  obtain ⟨s, w, hs, haccepted⟩ := exists_watches_of_run (Traffic.note 0 .one) ⟨[], []⟩
    (fun _ _ => True) (fun _ w => w.accepted = [1, 2, 3, 4, 5])
    [.createProcessWithPolicy service service 0 1 false, .createSocketPair,
      .writeSocket 4 [1, 2, 3], .writeSocket 4 [4, 5], .shutdownSocket 4 false true,
      .readSocket 5 2, .readSocket 5 8] (by decide +kernel)
  exact ⟨s, w, hs, haccepted, (sockets_are_streams 0 .one hs).1⟩

end Runtime

end Bexos
