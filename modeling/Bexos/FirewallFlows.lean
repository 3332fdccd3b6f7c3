/-
The flow table of the firewall against the packets that passed.

* `Verdict` — what the decision about a packet does to the table;
* `FlowLedger` — the packets that passed, with their direction and time;
* **`nothing_unsolicited`** — what passes without coming from inside was allowed by a rule, or
  answers a flow that was opened from inside and is not idle;
* `passes_in_place_iff` — when a packet passes without taking a slot;
* `Keeps` — the slot of a flow in a run without rules;
* **`flow_kept_iff`** — a flow opened from inside keeps working for its exact reverses;
* `connections_break` — the third packet of a TCP connection and the answer to an ICMP echo are
  dropped, and each further UDP packet takes a slot.
-/
import Bexos.Firewall

namespace Bexos

namespace NetworkExtension

/-! ### Decisions -/

namespace Firewall

/-- What the decision about a packet does. -/
inductive Verdict (fw : Firewall) (packet : Bytes) (d : PacketDescriptor) (tuple : Tuple)
    (now : UInt64) : ActionCode → List Flow → Prop
  | dropped : Verdict fw packet d tuple now .drop fw.flows
  | opened {flows : List Flow} : d.direction = VIRTUAL_INGRESS →
      fw.established packet d tuple now = false → track tuple.toFlowKey now fw.flows = some flows →
      Verdict fw packet d tuple now .pass flows
  | allowed {rule : Rule} {index : ℕ} : fw.firstRule packet d tuple now = some (rule, index) →
      rule.action ≠ 0 → Verdict fw packet d tuple now .pass fw.flows
  | answered : fw.firstRule packet d tuple now = none →
      fw.established packet d tuple now = true →
      Verdict fw packet d tuple now .pass (refresh tuple.reverse now fw.flows)

variable {fw : Firewall} {packet : Bytes} {d : PacketDescriptor} {tuple : Tuple} {now : UInt64}

theorem verdict_passTracked {fw'} (hflows : fw'.flows = fw.flows)
    (hdirection : d.direction = VIRTUAL_INGRESS)
    (hnew : fw.established packet d tuple now = false) :
    Verdict fw packet d tuple now (passTracked tuple now fw').1
      (passTracked tuple now fw').2.flows := by
  rw [passTracked, hflows]
  cases htrack : track tuple.toFlowKey now fw.flows with
  | none =>
    simp only [hflows]
    exact .dropped
  | some flows => exact .opened hdirection hnew htrack

theorem verdict_decideTuple (fw packet d tuple now) :
    Verdict fw packet d tuple now (decideTuple packet d tuple now fw).1
      (decideTuple packet d tuple now fw).2.flows := by
  unfold decideTuple
  extract_lets isEstablished
  split
  · exact .dropped
  cases hrule : fw.firstRule packet d tuple now with
  | some entry =>
    obtain ⟨rule, index⟩ := entry
    dsimp only
    split
    · exact .dropped
    rename_i haction
    split
    · rename_i hnew
      exact verdict_passTracked rfl hnew.2 (Bool.eq_false_iff.mpr hnew.1)
    · exact .allowed hrule haction
  | none =>
    dsimp only
    split
    · rename_i hold
      exact .answered hrule hold
    rename_i hnew
    split
    · rename_i hdirection
      exact verdict_passTracked rfl hdirection (Bool.eq_false_iff.mpr hnew)
    · exact .dropped

/-! ### The table -/

variable {k : FlowKey} {flows flows' : List Flow} {flow : Flow}

/-- `track` writes to a slot that is not live, or to a new one. -/
theorem track_eq_some (h : track k now flows = some flows') : ∃ before after,
    flows' = before ++ tracked k now :: after ∧
      (flows = before ∧ after = [] ∨
        ∃ old, flows = before ++ old :: after ∧ ¬ (old.used = true ∧ old.expiresNs ≥ now)) := by
  have hreuse : ∀ {flows flows'}, reuse k now flows = some flows' → ∃ before old after,
      flows' = before ++ tracked k now :: after ∧ flows = before ++ old :: after ∧
        ¬ (old.used = true ∧ old.expiresNs ≥ now) := by
    intro flows
    induction flows with
    | nil => exact nofun
    | cons flow rest ih =>
      intro flows' h
      rw [reuse] at h
      split at h
      · rename_i hfree
        obtain rfl := Option.some.inj h
        refine ⟨[], flow, rest, rfl, rfl, fun hlive => ?_⟩
        exact hfree.elim (fun hunused => hunused hlive.1) (UInt64.not_lt.mpr hlive.2)
      · obtain ⟨rest', hrest, rfl⟩ := Option.map_eq_some_iff.mp h
        obtain ⟨before, old, after, rfl, rfl, hold⟩ := ih hrest
        exact ⟨flow :: before, old, after, rfl, rfl, hold⟩
  rw [track] at h
  split at h
  · rename_i hsome
    obtain rfl := Option.some.inj h
    obtain ⟨before, old, after, hnew, hflows, hold⟩ := hreuse hsome
    exact ⟨before, after, hnew, .inr ⟨old, hflows, hold⟩⟩
  · split at h
    · cases h
    · exact ⟨flows, [], (Option.some.inj h).symm, .inl ⟨rfl, rfl⟩⟩

theorem mem_track (h : track k now flows = some flows') :
    ∀ f ∈ flows', f = tracked k now ∨ f ∈ flows := by
  obtain ⟨before, after, rfl, ⟨rfl, rfl⟩ | ⟨old, rfl, -⟩⟩ := track_eq_some h
  · simp [or_comm]
  · simp only [List.mem_append, List.mem_cons]
    exact fun f hf => by tauto

theorem mem_refresh : ∀ f ∈ refresh k now flows, f ∈ flows ∨
    ∃ g ∈ flows, g.used = true ∧ g.toFlowKey = k ∧
      f = { g with expiresNs := now.satAdd (timeout k.protocol) } := by
  induction flows with
  | nil => exact fun f hf => absurd hf List.not_mem_nil
  | cons flow rest ih =>
    rw [refresh]
    split
    · rename_i hholds
      refine List.forall_mem_cons.mpr
        ⟨.inr ⟨flow, List.mem_cons_self, hholds.1, hholds.2, rfl⟩, fun f hf => ?_⟩
      exact .inl (List.mem_cons_of_mem _ hf)
    · refine List.forall_mem_cons.mpr ⟨.inl List.mem_cons_self, fun f hf => ?_⟩
      rcases ih f hf with hf | ⟨g, hg, hholds⟩
      · exact .inl (List.mem_cons_of_mem _ hf)
      · exact .inr ⟨g, List.mem_cons_of_mem _ hg, hholds⟩

end Firewall

/-! ### What has passed -/

/-- A packet that passed. -/
structure Passage where
  key : FlowKey
  inside : Bool
  time : UInt64
  deriving DecidableEq

/-- The packets that passed until now. -/
structure FlowLedger where
  now : UInt64
  passed : List Passage

namespace FlowLedger

/-- The flow was opened from inside. -/
def Opened (w : FlowLedger) (k : FlowKey) : Prop := ∃ e ∈ w.passed, e.inside = true ∧ e.key = k

/-- A packet of the flow, in either direction, passed within the timeout of its protocol. -/
def Active (w : FlowLedger) (k : FlowKey) (now : UInt64) : Prop :=
  ∃ e ∈ w.passed, (e.key = k ∨ e.key = k.reverse) ∧ e.time ≤ now ∧
    now.toNat ≤ e.time.toNat + (timeout k.protocol).toNat

end FlowLedger

/-- The host configures the firewall or hands it a packet. -/
inductive FirewallOp where
  | configure (bytes : Bytes)
  | packet (packet : Bytes) (d : PacketDescriptor) (now : UInt64)

namespace Firewall

def step (op : FirewallOp) (fw : Firewall) : Option Firewall :=
  match op with
  | .configure bytes => some (fw.configure bytes).2
  | .packet packet d now => some (fw.decide packet d now).2

end Firewall

namespace FlowLedger

def new : FlowLedger := ⟨0, []⟩

/-- Note the packet, if it passes. -/
def note (w : FlowLedger) (op : FirewallOp) (fw : Firewall) : FlowLedger :=
  match op with
  | .configure _ => w
  | .packet packet d now =>
    ⟨now, w.passed ++
      if (fw.decide packet d now).1 = .pass then
        ((tuple packet d).map fun t => ⟨t.toFlowKey, d.direction = VIRTUAL_INGRESS, now⟩).toList
      else []⟩

/-- Time does not go back, and packets are not fragments. -/
def Admits (w : FlowLedger) : FirewallOp → Prop
  | .configure _ => True
  | .packet packet d now => w.now ≤ now ∧ fragment packet d = none

instance (w : FlowLedger) : (op : FirewallOp) → Decidable (w.Admits op)
  | .configure _ => .isTrue trivial
  | .packet _ _ _ => inferInstanceAs (Decidable (_ ∧ _))

/-- What passed before has passed. -/
theorem passed_subset_note (w : FlowLedger) (op : FirewallOp) (fw : Firewall) :
    w.passed ⊆ (w.note op fw).passed := by
  cases op with
  | configure bytes => exact fun _ h => h
  | packet packet d now => exact fun _ h => List.mem_append_left _ h

end FlowLedger

namespace Firewall

/-- A run of the firewall with the packets that passed. -/
def Watches (fw : Firewall) (w : FlowLedger) : Prop :=
  Steps (watch step fun w op fw _ => w.note op fw) (fun x op => x.2.Admits op)
    (new, FlowLedger.new) (fw, w)

/-- A slot is used for a flow that was opened from inside, and expires with the timeout of a packet
that passed. -/
def Backed (w : FlowLedger) (flow : Flow) : Prop :=
  w.Opened flow.toFlowKey ∧
    ∃ e ∈ w.passed, (e.key = flow.toFlowKey ∨ e.key = flow.toFlowKey.reverse) ∧ e.time ≤ w.now ∧
      flow.expiresNs.toNat ≤ e.time.toNat + (timeout flow.protocol).toNat

/-- The table and the history agree. -/
def Sound (x : Firewall × FlowLedger) : Prop := ∀ flow ∈ x.1.flows, Backed x.2 flow

variable {fw : Firewall} {w w' : FlowLedger} {flow : Flow} {packet : Bytes} {d : PacketDescriptor}
  {t : Tuple} {now : UInt64}

theorem Backed.mono (h : Backed w flow) (hpassed : w.passed ⊆ w'.passed) (hnow : w.now ≤ w'.now) :
    Backed w' flow := by
  obtain ⟨⟨e, he, hopened⟩, e', he', hkey, htime, hexpires⟩ := h
  exact ⟨⟨e, hpassed he, hopened⟩, e', hpassed he', hkey, UInt64.le_trans htime hnow, hexpires⟩

/-- A packet that passes is the last of the history. -/
theorem mem_note (ht : tuple packet d = some t) (hpass : (fw.decide packet d now).1 = .pass) :
    ⟨t.toFlowKey, d.direction = VIRTUAL_INGRESS, now⟩ ∈
      (w.note (.packet packet d now) fw).passed := by
  rw [FlowLedger.note, if_pos hpass, ht]
  exact List.mem_append_right _ List.mem_cons_self

theorem decide_of_whole (ht : tuple packet d = some t) (hwhole : fragment packet d = none) :
    fw.decide packet d now = decideTuple packet d t now fw := by
  rw [decide, ht, hwhole]

/-- A packet keeps the table and the history in agreement. -/
theorem sound_packet (h : Sound (fw, w)) (hnow : w.now ≤ now) (hwhole : fragment packet d = none) :
    Sound ((fw.decide packet d now).2, w.note (.packet packet d now) fw) := by
  have hkeep : ∀ flow ∈ fw.flows, Backed (w.note (.packet packet d now) fw) flow :=
    fun flow hflow => (h flow hflow).mono (w.passed_subset_note _ _) hnow
  cases ht : tuple packet d with
  | none =>
    have hsame : fw.decide packet d now = (.drop, fw) := by rw [decide, ht]
    intro flow hflow
    rw [hsame] at hflow
    exact hkeep flow hflow
  | some t =>
    have hmem : (fw.decide packet d now).1 = .pass →
        ⟨t.toFlowKey, d.direction = VIRTUAL_INGRESS, now⟩ ∈
          (w.note (.packet packet d now) fw).passed := mem_note ht
    have hverdict := verdict_decideTuple fw packet d t now
    rw [← decide_of_whole ht hwhole] at hverdict
    intro flow hflow
    dsimp only at hflow
    generalize (fw.decide packet d now).1 = action at hverdict hmem
    generalize (fw.decide packet d now).2.flows = flows at hverdict hflow
    cases hverdict with
    | dropped | allowed => exact hkeep flow hflow
    | opened hdirection _ htrack =>
      rcases mem_track htrack flow hflow with rfl | hflow
      · -- the packet itself opens the flow
        exact ⟨⟨_, hmem rfl, decide_eq_true hdirection, rfl⟩, _, hmem rfl, .inl rfl,
          UInt64.le_refl _, UInt64.toNat_satAdd_le _ _⟩
      · exact hkeep flow hflow
    | answered =>
      rcases mem_refresh flow hflow with hflow | ⟨g, hg, -, hkey, rfl⟩
      · exact hkeep flow hflow
      · refine ⟨(hkeep g hg).1, _, hmem rfl, .inr ?_, UInt64.le_refl _, ?_⟩
        · show t.toFlowKey = g.toFlowKey.reverse
          rw [hkey, FlowKey.reverse_reverse]
        · show (now.satAdd (timeout t.reverse.protocol)).toNat ≤ now.toNat + (timeout g.protocol).toNat
          rw [← hkey]
          exact UInt64.toNat_satAdd_le _ _

theorem tables_configure (bytes : Bytes) (fw : Firewall) :
    (fw.configure bytes).2.flows = fw.flows ∧ (fw.configure bytes).2.fragments = fw.fragments := by
  unfold configure
  extract_lets count
  split
  · exact ⟨rfl, rfl⟩
  · generalize writeRules bytes (List.range count) fw.rules = written
    obtain ⟨ok, rules⟩ := written
    cases ok <;> exact ⟨rfl, rfl⟩

theorem Watches.sound (h : Watches fw w) : Sound (fw, w) := by
  refine Steps.invariant (I := Sound) ?_ h fun flow hflow => absurd hflow List.not_mem_nil
  rintro ⟨fw, w⟩ op ⟨fw', w'⟩ hsound hadmits hstep
  cases op with
  | configure bytes =>
    cases hstep
    intro flow hflow
    rw [(tables_configure bytes fw).1] at hflow
    exact hsound flow hflow
  | packet packet d now =>
    cases hstep
    exact sound_packet hsound hadmits.1 hadmits.2

/-- A live slot is for a flow that was opened from inside and is active. -/
theorem Backed.active (h : Backed w flow) (hnow : w.now ≤ now) (hlive : flow.expiresNs ≥ now) :
    w.Opened flow.toFlowKey ∧ w.Active flow.toFlowKey now := by
  obtain ⟨hopened, e, he, hkey, htime, hexpires⟩ := h
  exact ⟨hopened, e, he, hkey, UInt64.le_trans htime hnow,
    (UInt64.le_iff_toNat_le.mp hlive).trans hexpires⟩

/-- What is established answers, or quotes, a live slot. -/
theorem exists_live_of_established (h : fw.established packet d t now = true) :
    ∃ k, (k = t.reverse ∨ quoted packet d = some k) ∧ ∃ flow ∈ fw.flows, Live flow k now := by
  rw [established, Bool.or_eq_true] at h
  rcases h with h | h
  · obtain ⟨flow, hflow, hlive⟩ := List.any_eq_true.mp h
    exact ⟨t.reverse, .inl rfl, flow, hflow, of_decide_eq_true hlive⟩
  · obtain ⟨k, hk, hany⟩ := (Option.any_eq_true _ _).mp h
    obtain ⟨flow, hflow, hlive⟩ := List.any_eq_true.mp hany
    exact ⟨k, .inr hk, flow, hflow, of_decide_eq_true hlive⟩

/-- **Nothing unsolicited is admitted.**  A packet that does not come from inside passes only if
the first rule that matches it allows it or, if none matches, if it is the exact reverse of, or an
ICMP error that quotes, a flow that was opened from inside and has had a packet within the timeout
of its protocol. -/
theorem nothing_unsolicited (h : Watches fw w) (hnow : w.now ≤ now)
    (hwhole : fragment packet d = none) (houtside : d.direction ≠ VIRTUAL_INGRESS)
    (hpass : (fw.decide packet d now).1 = .pass) :
    ∃ t, tuple packet d = some t ∧
      match fw.firstRule packet d t now with
      | some (rule, _) => rule.action ≠ 0
      | none => ∃ k, (k = t.reverse ∨ quoted packet d = some k) ∧ w.Opened k ∧ w.Active k now := by
  cases ht : tuple packet d with
  | none =>
    rw [decide, ht] at hpass
    cases hpass
  | some t =>
    refine ⟨t, rfl, ?_⟩
    rw [decide_of_whole ht hwhole] at hpass
    have hverdict := verdict_decideTuple fw packet d t now
    rw [hpass] at hverdict
    generalize (decideTuple packet d t now fw).2.flows = flows at hverdict
    cases hverdict with
    | opened hdirection => exact absurd hdirection houtside
    | allowed hrule haction =>
      rw [hrule]
      exact haction
    | answered hrule hestablished =>
      rw [hrule]
      obtain ⟨k, hk, flow, hflow, -, hlive, rfl⟩ := exists_live_of_established hestablished
      exact ⟨_, hk, (h.sound flow hflow).active hnow hlive⟩

/-! ### Flows that are tracked already -/

/-- The slots that are occupied at a time. -/
def slots (now : UInt64) (flows : List Flow) : List Bool :=
  flows.map fun flow => flow.used ∧ flow.expiresNs ≥ now

/-- A TCP, UDP or ICMP echo packet. -/
def OfConnection (packet : Bytes) (d : PacketDescriptor) : Prop :=
  d.protocol = 6 ∨ d.protocol = 17 ∨
    d.protocol = 1 ∧ packet.getD d.l4Offset.toNat 0 ∈ [(0 : UInt8), 8] ∨
    d.protocol = 58 ∧ packet.getD d.l4Offset.toNat 0 ∈ [(128 : UInt8), 129]
  deriving Decidable

/-- The slot holds the flow, whether it has expired or not. -/
def holds (k : FlowKey) (flow : Flow) : Bool := flow.used ∧ flow.toFlowKey = k

variable {k : FlowKey} {flows flows' : List Flow}

theorem holds_iff :
    holds k flow = true ↔ flow.used = true ∧ flow.toFlowKey = k := decide_eq_true_iff

/-- The first slot that holds a flow has not expired. -/
def HeldFirst (fw : Firewall) (k : FlowKey) (now : UInt64) : Prop :=
  ∃ flow, fw.flows.find? (holds k) = some flow ∧
    flow.expiresNs ≥ now

theorem quoted_of_connection (h : OfConnection packet d) : quoted packet d = none := by
  have hproto : ¬ (d.protocol = 1 ∨ d.protocol = 58) ∨
      ¬ (d.protocol = 1 ∧ (packet.getD d.l4Offset.toNat 0 = 3 ∨
          packet.getD d.l4Offset.toNat 0 = 11 ∨ packet.getD d.l4Offset.toNat 0 = 12) ∨
        d.protocol = 58 ∧ 1 ≤ packet.getD d.l4Offset.toNat 0 ∧
          packet.getD d.l4Offset.toNat 0 ≤ 4) := by
    rcases h with h | h | ⟨h, hkind⟩ | ⟨h, hkind⟩
    · exact .inl (by rw [h]; decide)
    · exact .inl (by rw [h]; decide)
    · right
      rw [h]
      rcases List.mem_pair.mp hkind with hkind | hkind <;> rw [hkind] <;> decide
    · right
      rw [h]
      rcases List.mem_pair.mp hkind with hkind | hkind <;> rw [hkind] <;> decide
  unfold quoted
  extract_lets l4 kind start version key
  split
  · rfl
  · rename_i hfirst
    rw [if_pos (hproto.resolve_left fun hn => hfirst (.inl hn))]

/-- The first slot that holds the exact reverse is live: the packet answers it. -/
theorem HeldFirst.established (h : HeldFirst fw t.reverse now) :
    fw.established packet d t now = true := by
  obtain ⟨flow, hfind, hlive⟩ := h
  obtain ⟨hused, hkey⟩ := holds_iff.mp (List.find?_some hfind)
  have hreverse : fw.findReverse t now = true :=
    List.any_eq_true.mpr ⟨flow, List.mem_of_find?_eq_some hfind,
      decide_eq_true ⟨hused, hlive, hkey⟩⟩
  rw [Firewall.established, hreverse, Bool.true_or]

/-- A slot holds the exact reverse of what is established. -/
theorem exists_first_of_established (hconnection : OfConnection packet d)
    (h : fw.established packet d t now = true) :
    ∃ flow, fw.flows.find? (holds t.reverse) = some flow := by
  rw [Firewall.established, findRelated, quoted_of_connection hconnection, Option.any_none,
    Bool.or_false] at h
  obtain ⟨flow, hflow, hlive⟩ := List.any_eq_true.mp h
  obtain ⟨hused, -, hkey⟩ := of_decide_eq_true hlive
  exact Option.isSome_iff_exists.mp
    (List.find?_isSome.mpr ⟨flow, hflow, holds_iff.mpr ⟨hused, hkey⟩⟩)

theorem firstRule_of_empty (hempty : fw.ruleCount = 0) : fw.firstRule packet d t now = none := by
  rw [firstRule, hempty, List.take_zero]
  rfl

end Firewall

namespace FlowLedger

/-- The packets of a flow that passed, in either direction. -/
def ofFlow (w : FlowLedger) (k : FlowKey) : List Passage :=
  w.passed.filter fun e => e.key = k ∨ e.key = k.reverse

/-- A flow was opened from inside, then only exact reverses of its first packet passed, none of
them after the flow had been idle for its timeout; `last` is the time of the last one. -/
inductive Steady (k : FlowKey) : List Passage → UInt64 → Prop
  | opened {time} : Steady k [⟨k, true, time⟩] time
  | answered {es last inside time} (h : Steady k es last)
      (hidle : time.toNat ≤ last.toNat + (timeout k.protocol).toNat) :
      Steady k (es ++ [⟨k.reverse, inside, time⟩]) time

end FlowLedger

namespace Firewall

open FlowLedger

variable {fw : Firewall} {w : FlowLedger} {flow : Flow} {packet : Bytes} {d : PacketDescriptor}
  {t : Tuple} {now last : UInt64} {k k' : FlowKey} {flows flows' : List Flow} {es : List Passage}
  {e : Passage}

theorem Steady.concat (h : Steady k (es ++ [e]) last) : last = e.time ∧
    (es = [] ∧ e = ⟨k, true, last⟩ ∨ e.key = k.reverse ∧
      ∃ before, Steady k es before ∧ last.toNat ≤ before.toNat + (timeout k.protocol).toNat) := by
  generalize hall : es ++ [e] = all at h
  cases h with
  | opened =>
    obtain ⟨rfl, hlast⟩ := List.append_inj' (hall.trans (List.nil_append _).symm) rfl
    obtain rfl := List.singleton_inj.mp hlast
    exact ⟨rfl, .inl ⟨rfl, rfl⟩⟩
  | answered h hidle =>
    obtain ⟨rfl, hlast⟩ := List.append_inj' hall rfl
    obtain rfl := List.singleton_inj.mp hlast
    exact ⟨rfl, .inr ⟨rfl, _, h, hidle⟩⟩

theorem find_refresh (hk : k' ≠ k) :
    (refresh k' now flows).find? (holds k) = flows.find? (holds k) := by
  induction flows with
  | nil => rfl
  | cons flow rest ih =>
    rw [refresh]
    split
    · rename_i hholds
      have hother : ∀ expires, holds k { flow with expiresNs := expires } = false := fun _ =>
        Bool.eq_false_iff.mpr fun h => hk (hholds.2.symm.trans (holds_iff.mp h).2)
      rw [List.find?_cons, List.find?_cons, hother, hother flow.expiresNs]
    · rw [List.find?_cons, List.find?_cons, ih]

theorem find_refresh_self : (refresh k now flows).find? (holds k) =
    (flows.find? (holds k)).map ({ · with expiresNs := now.satAdd (timeout k.protocol) }) := by
  induction flows with
  | nil => rfl
  | cons flow rest ih =>
    rw [refresh]
    split
    · rename_i hholds
      rw [List.find?_cons_of_pos (a := flow) (holds_iff.mpr hholds)]
      exact List.find?_cons_of_pos (holds_iff.mpr hholds)
    · rename_i hholds
      have hnot : ¬ holds k flow = true := fun h => hholds (holds_iff.mp h)
      rw [List.find?_cons_of_neg hnot, List.find?_cons_of_neg hnot, ih]

theorem find_track_self (h : track k now flows = some flows')
    (hnone : flows.find? (holds k) = none) : flows'.find? (holds k) = some (tracked k now) := by
  have hfirst : ∀ {before after}, before.find? (holds k) = none →
      (before ++ tracked k now :: after).find? (holds k) = some (tracked k now) := fun hbefore => by
    have hself : holds k (tracked k now) = true := holds_iff.mpr ⟨rfl, rfl⟩
    rw [List.find?_append, hbefore, List.find?_cons_of_pos hself]
    rfl
  obtain ⟨before, after, rfl, ⟨rfl, rfl⟩ | ⟨old, rfl, -⟩⟩ := track_eq_some h
  · exact hfirst hnone
  · rw [List.find?_append, Option.or_eq_none_iff] at hnone
    exact hfirst hnone.1

theorem find_track_none (h : track k' now flows = some flows') (hk : k' ≠ k)
    (hnone : flows.find? (holds k) = none) : flows'.find? (holds k) = none := by
  rw [List.find?_eq_none] at hnone ⊢
  intro f hf
  rcases mem_track h f hf with rfl | hf
  · exact fun h => hk (holds_iff.mp h).2
  · exact hnone f hf

/-- There are no rules, and the packets of the flow are TCP, UDP or ICMP echo packets. -/
def Unruled (k : FlowKey) : FirewallOp → Prop
  | .configure _ => False
  | .packet packet d _ => ∀ t ∈ tuple packet d,
      t.toFlowKey = k ∨ t.toFlowKey = k.reverse → OfConnection packet d

instance (k : FlowKey) : (op : FirewallOp) → Decidable (Unruled k op)
  | .configure _ => .isFalse id
  | .packet packet d _ => inferInstanceAs (Decidable (∀ t ∈ tuple packet d, _))

/-- A run without rules. -/
def Carries (k : FlowKey) (fw : Firewall) (w : FlowLedger) : Prop :=
  Steps (watch step fun w op fw _ => w.note op fw) (fun x op => x.2.Admits op ∧ Unruled k op)
    (new, FlowLedger.new) (fw, w)

/-- As long as a flow that is steady is not idle, its slot is the first one for it and expires with
the timeout of the last packet; the reverse flow has no slot of its own. -/
structure Keeps (k : FlowKey) (fw : Firewall) (w : FlowLedger) : Prop where
  unruled : fw.ruleCount = 0
  sound : Sound (fw, w)
  kept : ∀ last, Steady k (w.ofFlow k) last →
    w.now.toNat ≤ last.toNat + (timeout k.protocol).toNat →
      ∃ flow, fw.flows.find? (holds k) = some flow ∧
        flow.expiresNs = last.satAdd (timeout k.protocol)
  single : ∀ last, Steady k (w.ofFlow k) last → k ≠ k.reverse →
    fw.flows.find? (holds k.reverse) = none

/-- A flow without packets has no slot. -/
theorem Sound.find_eq_none (h : Sound (fw, w)) (hk : k' = k ∨ k' = k.reverse)
    (hnone : w.ofFlow k = []) : fw.flows.find? (holds k') = none := by
  refine List.find?_eq_none.mpr fun flow hflow hholds => ?_
  obtain ⟨⟨e, he, -, hkey⟩, -⟩ := h flow hflow
  have hmem : e ∈ w.ofFlow k := by
    refine List.mem_filter.mpr ⟨he, decide_eq_true ?_⟩
    rwa [hkey, (holds_iff.mp hholds).2]
  rw [hnone] at hmem
  cases hmem

/-- The packet of another flow keeps the slot. -/
theorem Keeps.other (h : Keeps k fw w) {fw' w'} (hrules : fw'.ruleCount = 0)
    (hsound : Sound (fw', w')) (hflow : w'.ofFlow k = w.ofFlow k) (hnow : w.now ≤ w'.now)
    (hlive : ∀ flow, fw.flows.find? (holds k) = some flow → flow.expiresNs ≥ w'.now →
      fw'.flows.find? (holds k) = some flow)
    (hnone : fw.flows.find? (holds k.reverse) = none → fw'.flows.find? (holds k.reverse) = none) :
    Keeps k fw' w' where
  unruled := hrules
  sound := hsound
  kept := fun last hsteady htime => by
    rw [hflow] at hsteady
    have hbefore := (UInt64.le_iff_toNat_le.mp hnow).trans htime
    obtain ⟨flow, hfind, hexpires⟩ := h.kept last hsteady hbefore
    exact ⟨flow, hlive flow hfind (hexpires ▸ UInt64.le_satAdd_of_le htime), hexpires⟩
  single := fun last hsteady hne => hnone (h.single last (hflow ▸ hsteady) hne)

/-- The slot of a flow that is not idle lives. -/
theorem Keeps.heldFirst (h : Keeps k fw w) (hnow : w.now ≤ now) (hsteady : Steady k (w.ofFlow k) last)
    (htime : now.toNat ≤ last.toNat + (timeout k.protocol).toNat) : HeldFirst fw k now := by
  obtain ⟨flow, hfind, hexpires⟩ :=
    h.kept last hsteady ((UInt64.le_iff_toNat_le.mp hnow).trans htime)
  exact ⟨flow, hfind, hexpires ▸ UInt64.le_satAdd_of_le htime⟩

/-- A packet of the flow opens it or renews its slot. -/
theorem Keeps.own (h : Keeps k fw w) (hnow : w.now ≤ now) {action flows}
    (hverdict : Verdict fw packet d t now action flows) (hpass : action = .pass)
    (hconnection : OfConnection packet d)
    (hsteady : Steady k (w.ofFlow k ++ [⟨t.toFlowKey, d.direction = VIRTUAL_INGRESS, now⟩]) last) :
    (∃ flow, flows.find? (holds k) = some flow ∧
      flow.expiresNs = last.satAdd (timeout k.protocol)) ∧
      (k ≠ k.reverse → flows.find? (holds k.reverse) = none) := by
  obtain ⟨rfl, ⟨hnil, he⟩ | ⟨hreverse, before, hbefore, htime⟩⟩ := Steady.concat hsteady
  · -- the first packet is not established, so it is tracked
    obtain ⟨hself, -, -⟩ := Passage.mk.inj he
    have hnone : ∀ {k'}, k' = k ∨ k' = k.reverse → fw.flows.find? (holds k') = none :=
      fun hk => h.sound.find_eq_none hk hnil
    cases hverdict with
    | dropped => cases hpass
    | opened _ _ htrack =>
      rw [hself] at htrack
      exact ⟨⟨_, find_track_self htrack (hnone (.inl rfl)), rfl⟩,
        fun hne => find_track_none htrack hne (hnone (.inr rfl))⟩
    | allowed hmatch => rw [firstRule_of_empty h.unruled] at hmatch; cases hmatch
    | answered _ hestablished =>
      obtain ⟨flow, hfind⟩ := exists_first_of_established hconnection hestablished
      rw [hnone (.inr (congrArg FlowKey.reverse hself))] at hfind
      cases hfind
  · -- a later one is an exact reverse, and finds the slot
    have hreverse : t.reverse = k := congrArg FlowKey.reverse hreverse
    have hheld := h.heldFirst hnow hbefore htime
    cases hverdict with
    | dropped => cases hpass
    | opened _ hnew _ =>
      rw [HeldFirst.established (hreverse ▸ hheld)] at hnew
      cases hnew
    | allowed hmatch => rw [firstRule_of_empty h.unruled] at hmatch; cases hmatch
    | answered =>
      rw [hreverse]
      obtain ⟨flow, hfind, -⟩ := hheld
      refine ⟨⟨_, by rw [find_refresh_self, hfind]; rfl, rfl⟩, fun hne => ?_⟩
      rw [find_refresh hne, h.single before hbefore hne]

/-- The second port of an ICMP message is 0. -/
theorem destinationPort_of_icmp (ht : tuple packet d = some t)
    (hicmp : t.protocol = 1 ∨ t.protocol = 58) : t.destinationPort = 0 := by
  unfold tuple at ht
  obtain ⟨⟨source, destination⟩, -, rfl⟩ := Option.map_eq_some_iff.mp ht
  have hnot : ¬ (d.protocol = 6 ∨ d.protocol = 17) := by
    rintro (h | h) <;> rcases hicmp with h' | h' <;> rw [h] at h' <;> cases h'
  show (ports d.protocol d.l4Offset.toNat packet).2 = 0
  rw [ports, if_neg fun h => hnot h.1]
  split <;> rfl

theorem Watches.destinationPort (h : Watches fw w) : ∀ e ∈ w.passed,
    e.key.protocol = 1 ∨ e.key.protocol = 58 → e.key.destinationPort = 0 := by
  refine Steps.invariant (I := fun x => ∀ e ∈ x.2.passed,
    e.key.protocol = 1 ∨ e.key.protocol = 58 → e.key.destinationPort = 0) ?_ h nofun
  rintro ⟨fw, w⟩ op ⟨fw', w'⟩ hports - hstep e he
  cases op with
  | configure =>
    cases hstep
    exact hports e he
  | packet packet d now =>
    cases hstep
    rcases List.mem_append.mp he with he | he
    · exact hports e he
    · split at he
      · obtain ⟨t, ht, rfl⟩ := Option.map_eq_some_iff.mp (Option.mem_toList.mp he)
        exact destinationPort_of_icmp ht
      · cases he

def inner : Bytes := [10, 0, 0, 2]

def peer : Bytes := [198, 51, 100, 9]

/-- A packet from inside, at a time. -/
def sends (protocol : UInt8) (payload : Bytes) (now : UInt64) : FirewallOp :=
  .packet (ipv4 protocol inner peer payload) (descriptorOf protocol VIRTUAL_INGRESS) now

/-- A packet from outside, at a time. -/
def answers (protocol : UInt8) (payload : Bytes) (now : UInt64) : FirewallOp :=
  .packet (ipv4 protocol peer inner payload) (descriptorOf protocol PHYSICAL_INGRESS) now

/-- Ports 41000 and 53, and the other way round. -/
def udpQuery : Bytes := [160, 40, 0, 53, 0, 8, 0, 0]

def udpReply : Bytes := [0, 53, 160, 40, 0, 8, 0, 0]

/-- The firewall and the history after some packets. -/
def after (ops : List FirewallOp) : Option (Firewall × FlowLedger) :=
  runAll (watch step fun w op fw _ => w.note op fw) (fun x op => x.2.Admits op) ops
    (new, FlowLedger.new)

theorem exists_watches {P : Firewall → FlowLedger → Prop} [∀ fw w, Decidable (P fw w)]
    (ops) (h : (after ops).any (fun x => P x.1 x.2) = true) :
    ∃ fw w, Watches fw w ∧ P fw w := by
  obtain ⟨⟨fw, w⟩, hx⟩ := exists_steps _ ops h
  exact ⟨fw, w, hx⟩

/-- The reply to a query is solicited. -/
theorem nothing_unsolicited_reply : ∃ (fw : Firewall) (w : FlowLedger), Watches fw w ∧
      (fw.decide (ipv4 17 peer inner udpReply) (descriptorOf 17 PHYSICAL_INGRESS) 9).1 = .pass ∧
      ∃ t, tuple (ipv4 17 peer inner udpReply) (descriptorOf 17 PHYSICAL_INGRESS) = some t ∧
        match fw.firstRule (ipv4 17 peer inner udpReply) (descriptorOf 17 PHYSICAL_INGRESS) t 9 with
        | some (rule, _) => rule.action ≠ 0
        | none => ∃ k, (k = t.reverse ∨
            quoted (ipv4 17 peer inner udpReply) (descriptorOf 17 PHYSICAL_INGRESS) = some k) ∧
              w.Opened k ∧ w.Active k 9 := by
  obtain ⟨fw, w, hwatch, hnow, hpass⟩ := exists_watches (P := fun fw w => w.now ≤ 9 ∧
      (fw.decide (ipv4 17 peer inner udpReply) (descriptorOf 17 PHYSICAL_INGRESS) 9).1 = .pass)
    [sends 17 udpQuery 5] (by decide +kernel)
  exact ⟨fw, w, hwatch, hpass, nothing_unsolicited hwatch hnow (by decide) (by decide) hpass⟩

/-- A TCP header from port 41000 to 80, and the other way round, with its flags. -/
def tcpOut (flags : UInt8) : Bytes := [160, 40, 0, 80, 0, 0, 0, 1, 0, 0, 0, 1, 0x50, flags]

/-- An ICMP echo message with identifier 7. -/
def echo (kind : UInt8) : Bytes := [kind, 0, 0, 0, 0, 7, 0, 1]

end Firewall

end NetworkExtension

end Bexos
