/-
Interrupt capabilities and the bindings they stand for.

A handle made by `bind_interrupt` names an entry of the interrupt table.  The entry counts no
references: releasing any handle to it unbinds the line, and the next `bind_interrupt` takes
the entry.  An observer (`Ledger`) writes down which call of `bind_interrupt` each handle
descends from, through `duplicate`, and which call bound each entry.

* `interrupt_identity` — as long as no operation releases one of several handles to an entry,
  every handle to an interrupt denotes the binding it descends from;
* `interrupt_identity_lost` — closing a duplicate unbinds the line under the other handle,
  which then names the line bound next.

Design notes: handles are watched by their place in the handle table.  A handle is new when
its place was vacant before the step.
-/
import Bexos.Releases
import Bexos.RuntimeOps

namespace Bexos

open Prog

/-- Does an operation make handles to interrupts? -/
def Op.wiring {B : Type} : Op B → Bool
  | .bindInterrupt _ _ | .duplicate _ _ => true
  | _ => false

/-- A call of `bind_interrupt`: when it was made, and what it asked for. -/
structure Binding where
  time : ℕ
  irqNumber : UInt32
  flags : UInt32
  deriving DecidableEq

/-- What the observer has written down: the binding each handle descends from, and the binding
behind each entry of the interrupt table. -/
structure Ledger where
  time : ℕ
  handle : ℕ → Option Binding
  entry : ℕ → Option Binding

namespace Ledger

variable {B : Type}

def empty : Ledger := ⟨0, fun _ => none, fun _ => none⟩

/-- Where a handle made by an operation comes from. -/
def origin (l : Ledger) : Op B → Option Binding
  | .bindInterrupt irqNumber flags => some ⟨l.time, irqNumber, flags⟩
  | .duplicate h _ => l.handle (h - 1)
  | _ => none

/-- What the observer writes down after a step from `s` to `t`. -/
def note (l : Ledger) (op : Op B) (s t : Runtime B) : Ledger where
  time := l.time + 1
  handle k := if (s.held k).isNone ∧ (t.held k).isSome then l.origin op else l.handle k
  entry i := if (s.line i).isNone ∧ (t.line i).isSome then l.origin op else l.entry i

end Ledger

namespace Runtime

variable {B : Type}

/-- The interrupt entry that the capability in a place names. -/
def wire (s : Runtime B) (k : ℕ) : Option ℕ := (s.held k).bind (·.object.interrupt?)

variable {i k : ℕ} {s t : Runtime B} {c : Capability} {op : Op B}

theorem wire_eq_some : s.wire k = some i ↔ ∃ c, s.held k = some c ∧ c.object = .interrupt i := by
  unfold wire
  rw [Option.bind_eq_some_iff]
  refine exists_congr fun c => and_congr_right fun _ => ?_
  cases c.object <;> simp [Object.interrupt?]

/-- Every handle to an interrupt denotes the binding it descends from: the entry it names is
bound, with the line and the flags asked for, by that very call. -/
def Identified (s : Runtime B) (l : Ledger) : Prop :=
  ∀ k i, s.wire k = some i → ∃ b x, l.handle k = some b ∧ l.entry i = some b ∧
    s.line i = some x ∧ x.irqNumber = b.irqNumber ∧ x.flags = b.flags

/-- A handle to an interrupt that an operation may release is the only one to its entry. -/
def Unshared (s : Runtime B) (op : Op B) : Prop :=
  ∀ k < s.handles.length, ∀ c ∈ s.held k, ∀ i ∈ c.object.interrupt?, s.releases op k c →
    ∀ j < s.handles.length, s.wire j = some i → j = k

variable (id : ℕ) (e : End)

instance (s : Runtime B) (op : Op B) : Decidable (s.Unshared op) :=
  inferInstanceAs (Decidable (∀ k < s.handles.length, ∀ c ∈ s.held k,
    ∀ i ∈ c.object.interrupt?, s.releases op k c →
      ∀ j < s.handles.length, s.wire j = some i → j = k))

theorem lt_of_held (hc : s.held k = some c) : k < s.handles.length := by
  unfold held at hc
  by_contra hk
  rw [List.getElem?_eq_none (Nat.not_lt.mp hk)] at hc
  cases hc

theorem Unshared.eq (h : s.Unshared op) {j} (hc : s.held k = some c)
    (hobject : c.object = .interrupt i) (hreleases : s.releases op k c) (hj : s.wire j = some i) :
    j = k := by
  obtain ⟨d, hd, _⟩ := wire_eq_some.mp hj
  exact h k (lt_of_held hc) c hc i (by rw [hobject]; rfl) hreleases j (lt_of_held hd) hj

/-! ### Operations that release -/

theorem isSome_held_of_wire (h : s.wire k = some i) : (s.held k).isNone = false := by
  obtain ⟨c, hc, _⟩ := wire_eq_some.mp h
  rw [hc]
  rfl

/-- A handle and a line that were there before are written down as before. -/
theorem Identified.of_kept {l : Ledger} (hs : s.Identified l)
    (h : ∀ k i, t.wire k = some i → s.wire k = some i ∧
      (t.line i).map (fun x => (x.irqNumber, x.flags)) =
        (s.line i).map fun x => (x.irqNumber, x.flags)) : t.Identified (l.note op s t) := by
  intro k i hk
  obtain ⟨hk', hline⟩ := h k i hk
  obtain ⟨b, x, hb, hentry, hx, hirq, hflags⟩ := hs k i hk'
  obtain ⟨y, hy, heq⟩ := exists_of_map_eq hline.symm hx
  obtain ⟨hyirq, hyflags⟩ := Prod.mk.inj heq
  refine ⟨b, y, ?_, ?_, hy, hyirq.trans hirq, hyflags.trans hflags⟩
  · show (if (s.held k).isNone ∧ (t.held k).isSome then _ else _) = _
    rw [if_neg (by simp [isSome_held_of_wire hk']), hb]
  · show (if (s.line i).isNone ∧ (t.line i).isSome then _ else _) = _
    rw [if_neg (by simp [hx]), hentry]

theorem Identified.of_drops {l} (hs : s.Identified l) (hop : s.Unshared op)
    (ht : Drops (s.releases op) (fun _ => False) s t) : t.Identified (l.note op s t) := by
  refine hs.of_kept fun k i hk => ?_
  obtain ⟨c', hc', hobject⟩ := wire_eq_some.mp hk
  obtain ⟨c, hc, hgrip, _⟩ := ht.kept k c' hc' (by rw [hobject]; rfl)
  have hk' : s.wire k = some i :=
    wire_eq_some.mpr ⟨c, hc, (congrArg Prod.fst hgrip).symm.trans hobject⟩
  refine ⟨hk', ?_⟩
  rcases ht.lines i with hsame | hfalse | ⟨j, d, hd, hdobject, hreleases, hgone⟩
  · rw [hsame]
  · exact hfalse.elim
  · -- the released handle would be the only one
    obtain rfl := hop.eq hd hdobject hreleases hk'
    exact absurd hobject (hgone c' hc')

/-! ### Operations that keep every handle to an interrupt -/

/-- A slot goes on naming the interrupt it names, or none. -/
def sameWire : SlotRel := fun _ a b =>
  b.bind (·.object.interrupt?) = a.bind (·.object.interrupt?)

instance (k) : Std.Refl (sameWire k) := ⟨fun _ => rfl⟩

instance (k) : IsTrans _ (sameWire k) := ⟨fun _ _ _ h₁ h₂ => h₂.trans h₁⟩

instance : Reowns sameWire := ⟨fun _ _ _ => rfl⟩

instance : Fills sameWire (.vmo id) := ⟨fun _ _ _ => rfl⟩

instance : Fills sameWire (.vmar id) := ⟨fun _ _ _ => rfl⟩

instance : Fills sameWire (.channel id e) := ⟨fun _ _ _ => rfl⟩

instance : Fills sameWire (.socket id e) := ⟨fun _ _ _ => rfl⟩

instance : Fills sameWire (.process id) := ⟨fun _ _ _ => rfl⟩

instance : Fills sameWire (.job id) := ⟨fun _ _ _ => rfl⟩

instance : Fills sameWire (.space id) := ⟨fun _ _ _ => rfl⟩

instance : Fills sameWire (.thread id) := ⟨fun _ _ _ => rfl⟩

instance : Fills sameWire (.profile id) := ⟨fun _ _ _ => rfl⟩

instance (callId) : Fills sameWire (.replyToken id e callId) := ⟨fun _ _ _ => rfl⟩

instance : Fills sameWire (.iommuDomain id) := ⟨fun _ _ _ => rfl⟩

instance (id) : Fills sameWire (.resourceGroup id) := ⟨fun _ _ _ => rfl⟩

instance : Empties sameWire (.vmar id) := ⟨fun _ _ _ => rfl⟩

instance (callId) : Empties sameWire (.replyToken id e callId) :=
  ⟨fun _ _ _ => rfl⟩

/-- The parts of the state other than the handle table and the interrupt table. -/
abbrev offWires : List Part := .channels :: offSlots

instance : HandleFree offWires := ⟨by decide⟩

/-- The same handles to the same lines. -/
def Wired (s t : Runtime B) : Prop :=
  (∀ k, t.wire k = s.wire k) ∧ ∀ i, (t.line i).map (fun x => (x.irqNumber, x.flags)) =
    (s.line i).map fun x => (x.irqNumber, x.flags)

instance : Std.Refl (Wired (B := B)) := ⟨fun _ => ⟨fun _ => rfl, fun _ => rfl⟩⟩

instance : IsTrans (Runtime B) Wired :=
  ⟨fun _ _ _ h₁ h₂ => ⟨fun k => (h₂.1 k).trans (h₁.1 k), fun i => (h₂.2 i).trans (h₁.2 i)⟩⟩

instance (priority := low) wired_of_shifts {α : Type} (x : RtM B α)
    [h : Moves (Shifts offWires sameWire) x] : Moves Wired x :=
  h.mono fun s t ht => by
    have hlines : t.interrupts = s.interrupts := ht.1 .interrupts (by decide)
    refine ⟨ht.2, fun i => ?_⟩
    unfold line
    rw [hlines]

theorem wired_of_lines (hhandles : t.handles = s.handles)
    (hlines : ∀ i, (t.line i).map (fun x => (x.irqNumber, x.flags)) =
      (s.line i).map fun x => (x.irqNumber, x.flags)) : Wired s t := by
  refine ⟨fun k => ?_, hlines⟩
  unfold wire held
  rw [hhandles]

instance (masked awaiting : Interrupt → Bool) : Moves Wired (modify (modifyInterrupt id fun i =>
      { i with awaitingAck := awaiting i, masked := masked i }) : RtM B Unit) :=
  .modify fun s => wired_of_lines rfl fun i => by
    unfold line modifyInterrupt
    rw [List.getElem?_modify]
    by_cases hi : id = i
    · rcases s.interrupts[i]? with _ | _ | x <;> simp [hi]
    · simp [hi]

section Lines

variable [Backend B]

instance (h : ℕ) : Moves Wired (acknowledgeInterrupt h : RtM B (UInt32 × Bool)) := by
  unfold acknowledgeInterrupt
  refine .next fun ⟨id, i⟩ => ?_
  dsimp only
  infer_instance

instance (h : ℕ) (masked : Bool) :
    Moves Wired (maskInterrupt h masked : RtM B (UInt32 × Bool)) := by
  unfold maskInterrupt
  refine .next fun ⟨id, i⟩ => ?_
  dsimp only
  infer_instance

set_option synthInstance.maxSize 100000 in
instance (irqNumber : UInt32) (nowNs : UInt64) :
    Moves Wired (deliverInterrupt irqNumber nowNs : RtM B InterruptDelivery) := by
  have hlines : Moves Wired (modify fun s =>
      { s with
        interrupts := s.interrupts.map (Option.map fun i =>
          if Interrupt.accepts irqNumber i then Interrupt.deliver nowNs i else i) } :
      RtM B Unit) := by
    refine .modify fun s => wired_of_lines rfl fun i => ?_
    unfold line
    rw [List.getElem?_map]
    rcases s.interrupts[i]? with _ | _ | x
    · rfl
    · rfl
    · simp only [Option.map_some, Option.join_some, Option.some.injEq]
      split <;> rfl
  unfold deliverInterrupt
  infer_instance

set_option synthInstance.maxSize 100000 in
theorem wired_exec (hreleasing : op.releasing = false) (hwiring : op.wiring = false) :
    Moves Wired (exec op) := by
  cases op <;> first
    | exact Bool.noConfusion hreleasing
    | exact Bool.noConfusion hwiring
    | (unfold exec; infer_instance)

/-! ### Operations that make handles to interrupts -/

omit [Backend B] in
/-- One more handle, to an interrupt whose binding the observer knows. -/
theorem Identified.of_grant {s t : Runtime B} {l : Ledger} {op : Op B} {c : Capability}
    (hs : s.Identified l) (ht : t.handles = putSlot s.handles (firstFree s.handles) c)
    (hold : ∀ i x, s.line i = some x → t.line i = some x)
    (hnew : ∀ i, c.object = .interrupt i → ∃ b x, l.origin op = some b ∧
      (l.note op s t).entry i = some b ∧ t.line i = some x ∧ x.irqNumber = b.irqNumber ∧
      x.flags = b.flags) : t.Identified (l.note op s t) := by
  intro k i hk
  obtain ⟨d, hd, hobject⟩ := wire_eq_some.mp hk
  rw [held_of_grant ht] at hd
  split at hd
  · rename_i hplace
    rw [← Option.some.inj hd] at hobject
    obtain ⟨b, x, horigin, hentry, hx, hb⟩ := hnew i hobject
    refine ⟨b, x, ?_, hentry, hx, hb⟩
    show (if (s.held k).isNone ∧ (t.held k).isSome then _ else _) = _
    rw [if_pos (by simp [held_of_grant ht, hplace, held_firstFree]), horigin]
  · have hk' : s.wire k = some i := wire_eq_some.mpr ⟨d, hd, hobject⟩
    obtain ⟨b, x, hb, hentry, hx, hsign⟩ := hs k i hk'
    refine ⟨b, x, ?_, ?_, hold i x hx, hsign⟩
    · show (if (s.held k).isNone ∧ (t.held k).isSome then _ else _) = _
      rw [if_neg (by simp [hd]), hb]
    · show (if (s.line i).isNone ∧ (t.line i).isSome then _ else _) = _
      rw [if_neg (by simp [hx]), hentry]

variable {l : Ledger}

omit [Backend B] in
theorem Identified.stay (hs : s.Identified l) : s.Identified (l.note op s s) :=
  hs.of_kept fun _ _ hk => ⟨hk, rfl⟩

omit [Backend B] in
theorem identified_duplicate {h rights} (hs : s.Identified l) :
    ends (duplicate h rights) (fun t => t.Identified (l.note (.duplicate h rights) s t)) s := by
  unfold ends duplicate
  rw [wp_bind]
  refine wp_cap (fun c hc => ?_) fun _ => hs.stay
  rw [wp_bind, wp_check]
  refine ⟨fun _ => ?_, fun _ => hs.stay⟩
  unfold grantCurrent
  rw [wp_bind, wp_get]
  refine wp_grant fun t ht hhandles => ?_
  have hline : ∀ i, t.line i = s.line i := fun i => by
    have hlines : t.interrupts = s.interrupts := ht .interrupts (by decide)
    unfold line
    rw [hlines]
  refine hs.of_grant hhandles (fun i x hx => (hline i).trans hx) fun i hobject => ?_
  -- the new handle stands for what the old one stands for
  obtain ⟨b, x, hb, hentry, hx, hsign⟩ := hs (h - 1) i
    (wire_eq_some.mpr ⟨c, (slot_eq_some.mp hc).2, hobject⟩)
  refine ⟨b, x, hb, ?_, (hline i).trans hx, hsign⟩
  show (if (s.line i).isNone ∧ (t.line i).isSome then _ else _) = _
  rw [if_neg (by simp [hx]), hentry]

omit [Backend B] in
theorem identified_bindInterrupt {irqNumber flags} (hs : s.Identified l) :
    ends (bindInterrupt irqNumber flags)
      (fun t => t.Identified (l.note (.bindInterrupt irqNumber flags) s t)) s := by
  unfold bindInterrupt currentProcess
  simp only [wp_bind, wp_get, wp_unwrap, wp_check, wp_modify, changed, grantCurrent]
  refine fun p _ => ⟨fun _ => ⟨fun _ => ?_, fun _ => hs.stay⟩, fun _ => hs.stay⟩
  refine wp_grant fun t ht hhandles => ?_
  have hlines := ht .interrupts (by decide)
  dsimp only [Same] at hlines
  have hvacant : s.line (firstFree s.interrupts) = none := firstFree_vacant s.interrupts
  have hline : ∀ i, t.line i = if i = firstFree s.interrupts then _ else s.line i := fun i => by
    unfold line
    rw [hlines, getElem?_putSlot (firstFree_le _), apply_ite Option.join, Option.join_some]
  refine hs.of_grant hhandles (fun i x hx => ?_) fun i hobject => ?_
  · rw [hline, if_neg, hx]
    rintro rfl
    rw [hvacant] at hx
    cases hx
  · obtain rfl := Object.interrupt.inj hobject
    refine ⟨_, _, rfl, ?_, (hline _).trans (if_pos rfl), rfl, rfl⟩
    show (if (s.line _).isNone ∧ (t.line _).isSome then _ else _) = _
    rw [if_pos (by simp [hvacant, hline])]
    rfl

/-! ### Runs -/

omit [Backend B] in
theorem identified_new (backend : B) (cpuCount : ℕ) (support : AsidSupport) :
    (withCpuCount backend cpuCount support).Identified .empty := by
  intro k i hk
  obtain ⟨c, hc, _⟩ := wire_eq_some.mp hk
  have hlt := lt_of_held hc
  unfold withCpuCount at hlt
  split at hlt <;> exact absurd hlt (Nat.not_lt_zero k)

/-- **Interrupt capabilities keep their identity.** In every run in which no operation releases
one of several handles to an interrupt, every handle to an interrupt denotes the binding that
it, or the handle it was duplicated from, was made for. -/
theorem interrupt_identity {s : Runtime B} {l : Ledger}
    (h : Watches Ledger.note .empty Unshared s l) : s.Identified l := by
  refine h.invariant (I := fun s l => s.Identified l) identified_new fun s l op hs hop => ?_
  cases hreleasing : op.releasing with
  | true =>
    exact wp_mono (drops_exec hreleasing s) (fun _ _ ht => hs.of_drops hop ht)
      fun _ _ ht => hs.of_drops hop ht
  | false =>
    cases hwiring : op.wiring with
    | true =>
      cases op <;> first | exact Bool.noConfusion hwiring | unfold exec discard
      · unfold ends
        rw [wp_bind]
        exact wp_mono (identified_duplicate hs) fun _ _ ht => (wp_pure _).mpr ht
      · unfold ends
        rw [wp_bind]
        exact wp_mono (identified_bindInterrupt hs) fun _ _ ht => (wp_pure _).mpr ht
    | false =>
      refine wp_mono ((wired_exec hreleasing hwiring).run s) (fun _ t ht => ?_) fun _ t ht => ?_
      · exact hs.of_kept fun k i hk => ⟨(ht.1 k).symm.trans hk, ht.2 i⟩
      · exact hs.of_kept fun k i hk => ⟨(ht.1 k).symm.trans hk, ht.2 i⟩

end Lines

open TestBackend in
/-- A line with two handles, after it was delivered and acknowledged. -/
theorem interrupt_identity_duplicated :
    ∃ (s : Runtime TestBackend) (l : Ledger), Watches Ledger.note .empty Unshared s l ∧
      s.wire 3 = some 0 ∧ s.wire 4 = some 0 ∧ s.Identified l := by
  obtain ⟨s, l, hs, hfirst, hsecond⟩ := exists_watches_of_run Ledger.note .empty Unshared
    (fun s _ => s.wire 3 = some 0 ∧ s.wire 4 = some 0)
    [.createProcessWithPolicy service service 2 1 false, .bindInterrupt 40 0,
      .duplicate 4 (READ ||| WRITE), .deliverInterrupt 40 1000, .acknowledgeInterrupt 5]
    (by decide +kernel)
  exact ⟨s, l, hs, hfirst, hsecond, interrupt_identity hs⟩

open TestBackend in
/-- A driver closes one of two handles to line 40 and binds line 41: the other handle, made for
line 40, now names line 41. -/
theorem interrupt_identity_lost :
    ∃ (s : Runtime TestBackend) (l : Ledger), Watches Ledger.note .empty (fun _ _ => True) s l ∧
      s.wire 4 = some 0 ∧ (l.handle 4).map (·.irqNumber) = some 40 ∧
      (s.line 0).map (·.irqNumber) = some 41 ∧ ¬ s.Identified l := by
  obtain ⟨s, l, hs, hwire, hhandle, hline⟩ := exists_watches_of_run Ledger.note .empty
    (fun _ _ => True)
    (fun s l => s.wire 4 = some 0 ∧ (l.handle 4).map (·.irqNumber) = some 40 ∧
      (s.line 0).map (·.irqNumber) = some 41)
    [.createProcessWithPolicy service service 2 1 false, .bindInterrupt 40 0,
      .duplicate 4 (READ ||| WRITE), .close 4, .bindInterrupt 41 0]
    (by decide +kernel)
  refine ⟨s, l, hs, hwire, hhandle, hline, fun hidentified => ?_⟩
  obtain ⟨b, x, hb, _, hx, hirq, _⟩ := hidentified 4 0 hwire
  rw [hb, Option.map_some, Option.some_inj] at hhandle
  rw [hx, Option.map_some, Option.some_inj] at hline
  rw [hhandle, hline] at hirq
  exact absurd hirq (by decide)

end Runtime

end Bexos
