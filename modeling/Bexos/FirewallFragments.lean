/-
Fragments, and the decision about the first of them.

Only the first fragment of a datagram has its ports.  The firewall decides about it and keeps the
decision for the later ones, which it knows by their addresses and identification.

* `FragmentLedger` — the first fragments until now, the latest first;
* **`follows_first`** — a later fragment passes only if the latest first fragment of its datagram
  passed within the timeout, as long as no first fragment finds a decision about its datagram;
* `follows_older` — a first fragment is dropped, and the fragments after it pass because an older
  one passed.

Design notes: several slots can hold decisions about one datagram.  The lookup takes the lowest
of them, which need not be the one written last.  A packet with a fragment header that is all of
its datagram is no first fragment.
-/
import Bexos.FirewallFlows

namespace Bexos

namespace NetworkExtension

/-- What tells datagrams apart that arrive in fragments. -/
structure FragmentKey where
  version : UInt8
  protocol : UInt8
  direction : UInt8
  source : Address
  destination : Address
  id : UInt32
  deriving DecidableEq

def FragmentDecision.key (e : FragmentDecision) : FragmentKey :=
  ⟨e.version, e.protocol, e.direction, e.source, e.destination, e.id⟩

def Tuple.fragmentKey (t : Tuple) (direction : UInt8) (id : UInt32) : FragmentKey :=
  ⟨t.version, t.protocol, direction, t.source, t.destination, id⟩

/-- The datagram that a packet is the first fragment of. -/
def firstKey (packet : Bytes) (d : PacketDescriptor) : Option FragmentKey :=
  (tuple packet d).bind fun t => (fragment packet d).bind fun part =>
    if part.offset = 0 ∧ part.more then some (t.fragmentKey d.direction part.id) else none

/-- A first fragment, and whether it passed. -/
structure FirstFragment where
  key : FragmentKey
  passed : Bool
  time : UInt64
  deriving DecidableEq

structure FragmentLedger where
  now : UInt64
  firsts : List FirstFragment

namespace FragmentLedger

def new : FragmentLedger := ⟨0, []⟩

/-- Note the packet, if it is a first fragment. -/
def note (w : FragmentLedger) (op : FirewallOp) (fw : Firewall) : FragmentLedger :=
  match op with
  | .configure _ => w
  | .packet packet d now =>
    ⟨now, ((firstKey packet d).map fun k => ⟨k, (fw.decide packet d now).1 = .pass, now⟩).toList ++
      w.firsts⟩

/-- The latest first fragment of a datagram. -/
def latest (w : FragmentLedger) (k : FragmentKey) : Option FirstFragment :=
  w.firsts.find? (·.key = k)

/-- Time does not go back. -/
def onward (w : FragmentLedger) : FirewallOp → Bool
  | .configure _ => true
  | .packet _ _ now => w.now ≤ now

end FragmentLedger

namespace Firewall

/-- A decision about a datagram is kept. -/
def decided (fw : Firewall) (k : FragmentKey) (now : UInt64) : Bool :=
  fw.fragments.any fun e => e.used ∧ e.expiresNs ≥ now ∧ e.key = k

/-- A first fragment finds no decision about its datagram. -/
def undecided (fw : Firewall) : FirewallOp → Bool
  | .configure _ => true
  | .packet packet d now => (firstKey packet d).all fun k => !fw.decided k now

/-- A run with the first fragments, in which the packets meet a condition. -/
def Hears (C : Firewall → FirewallOp → Bool) (fw : Firewall) (w : FragmentLedger) : Prop :=
  Steps (watch step fun w op fw _ => w.note op fw) (fun x op => x.2.onward op ∧ C x.1 op)
    (new, FragmentLedger.new) (fw, w)

/-- A decision that is kept is the one about the latest first fragment. -/
def Follows (x : Firewall × FragmentLedger) : Prop :=
  ∀ e ∈ x.1.fragments, e.used = true → x.2.now ≤ e.expiresNs → ∃ first,
    x.2.latest e.key = some first ∧ first.passed = e.allowed ∧
      e.expiresNs.toNat ≤ first.time.toNat + ICMP_TIMEOUT_NS.toNat

variable {fw : Firewall} {w : FragmentLedger} {packet : Bytes} {d : PacketDescriptor} {t : Tuple}
  {part : Fragment} {now : UInt64} {e : FragmentDecision}

/-! ### The table -/

theorem fragments_decideTuple (fw : Firewall) (packet : Bytes) (d : PacketDescriptor) (t : Tuple)
    (now : UInt64) : (decideTuple packet d t now fw).2.fragments = fw.fragments := by
  have htracked : ∀ fw' : Firewall, (passTracked t now fw').2.fragments = fw'.fragments := by
    intro fw'
    unfold passTracked
    split <;> rfl
  unfold decideTuple
  extract_lets isEstablished
  split
  · rfl
  split <;> (repeat' split) <;> first | rfl | exact htracked _

/-- A decision is written to a slot, or refused. -/
theorem mem_recordFragment {direction ident allowed}
    (he : e ∈ (recordFragment t direction ident allowed now fw).2.fragments) : e ∈ fw.fragments ∨
      (recordFragment t direction ident allowed now fw).1 = true ∧
        e.key = t.fragmentKey direction ident ∧ e.allowed = allowed ∧
        e.expiresNs = now.satAdd ICMP_TIMEOUT_NS := by
  unfold recordFragment at he ⊢
  extract_lets entry free at he
  have hentry : e = entry → true = true ∧ e.key = t.fragmentKey direction ident ∧
      e.allowed = allowed ∧ e.expiresNs = now.satAdd ICMP_TIMEOUT_NS := by
    rintro rfl
    exact ⟨rfl, rfl, rfl, by dsimp only [entry]⟩
  split at he
  · rename_i hfree
    rw [if_pos hfree]
    have he : e ∈ fw.fragments.set free entry := he
    exact (List.mem_or_eq_of_mem_set he).imp id hentry
  · rename_i hfree
    rw [if_neg hfree]
    split at he
    · rename_i hroom
      rw [if_pos hroom]
      exact (List.mem_append.mp he).imp id fun hnew => hentry (List.mem_singleton.mp hnew)
    · exact .inl he

/-- A packet leaves the decisions, but for one about a first fragment. -/
theorem mem_decide (he : e ∈ (fw.decide packet d now).2.fragments) : e ∈ fw.fragments ∨
    firstKey packet d = some e.key ∧ e.allowed = ((fw.decide packet d now).1 == .pass) ∧
      e.expiresNs = now.satAdd ICMP_TIMEOUT_NS := by
  unfold firstKey
  unfold decide at he ⊢
  cases ht : tuple packet d with
  | none =>
    rw [ht] at he
    exact .inl he
  | some t =>
    rw [ht] at he
    cases hpart : fragment packet d with
    | none =>
      rw [hpart] at he
      exact .inl (fragments_decideTuple fw packet d t now ▸ he)
    | some part =>
      rw [hpart] at he
      dsimp only [Option.bind_some] at he ⊢
      by_cases hlater : part.offset ≠ 0
      · rw [if_pos hlater] at he
        exact .inl he
      · rw [if_neg hlater] at he ⊢
        by_cases hmore : part.more = true
        · rw [if_pos hmore] at he ⊢
          rw [if_pos ⟨not_not.mp hlater, hmore⟩]
          refine (mem_recordFragment he).imp (fragments_decideTuple fw packet d t now ▸ ·) ?_
          rintro ⟨hrecorded, hkey, hallowed, hexpires⟩
          refine ⟨congrArg some hkey.symm, hallowed.trans ?_, hexpires⟩
          rw [if_neg fun h => h.1 hrecorded]
          rfl
        · rw [if_neg hmore] at he
          exact .inl (fragments_decideTuple fw packet d t now ▸ he)

theorem latest_note (w : FragmentLedger) (k : FragmentKey) :
    (w.note (.packet packet d now) fw).latest k = if firstKey packet d = some k then
      some ⟨k, (fw.decide packet d now).1 = .pass, now⟩ else w.latest k := by
  unfold FragmentLedger.latest FragmentLedger.note
  dsimp only
  cases firstKey packet d with
  | none => rfl
  | some k' =>
    simp only [Option.map_some, Option.toList_some, List.singleton_append, List.find?_cons,
      Option.some_inj]
    by_cases hsame : k' = k
    · rw [if_pos hsame, hsame, decide_eq_true rfl]
    · rw [if_neg hsame, decide_eq_false hsame]

theorem follows_packet (h : Follows (fw, w)) (hnow : w.now ≤ now)
    (hfresh : fw.undecided (.packet packet d now) = true) :
    Follows ((fw.decide packet d now).2, w.note (.packet packet d now) fw) := by
  intro e he hused hlive
  dsimp only at he hlive ⊢
  rw [latest_note]
  rcases mem_decide he with hold | ⟨hkey, hallowed, hexpires⟩
  · -- a decision that is kept is about another datagram
    have hother : firstKey packet d ≠ some e.key := by
      intro hkey
      rw [undecided, hkey, Option.all_some, Bool.not_eq_true', decided, List.any_eq_false] at hfresh
      exact hfresh e hold (decide_eq_true ⟨hused, hlive, rfl⟩)
    rw [if_neg hother]
    exact h e hold hused (UInt64.le_trans hnow hlive)
  · rw [if_pos hkey]
    refine ⟨_, rfl, ?_, hexpires ▸ UInt64.toNat_satAdd_le _ _⟩
    rw [hallowed]
    rfl

theorem Hears.follows (h : Hears undecided fw w) : Follows (fw, w) := by
  refine Steps.invariant (I := Follows) ?_ h fun e he => absurd he List.not_mem_nil
  rintro ⟨fw, w⟩ op ⟨fw', w'⟩ hfollows ⟨honward, hfresh⟩ hstep
  cases op with
  | configure bytes =>
    cases hstep
    intro e he
    rw [(tables_configure bytes fw).2] at he
    exact hfollows e he
  | packet packet d now =>
    cases hstep
    exact follows_packet hfollows (of_decide_eq_true honward) hfresh

/-- A decision that is found is kept. -/
theorem exists_of_fragmentDecision {direction ident action}
    (h : fw.fragmentDecision t direction ident now = some action) :
    ∃ e ∈ fw.fragments, e.used = true ∧ now ≤ e.expiresNs ∧ e.key = t.fragmentKey direction ident ∧
      (action = .pass → e.allowed = true) := by
  obtain ⟨e, he, rfl⟩ := Option.map_eq_some_iff.mp h
  have hmatch := List.find?_some he
  obtain ⟨hused, hlive, hversion, hprotocol, hdirection, hsource, hdestination, hident⟩ :=
    of_decide_eq_true hmatch
  refine ⟨e, List.mem_of_find?_eq_some he, hused, hlive, ?_, fun hpass => ?_⟩
  · rw [FragmentDecision.key, hversion, hprotocol, hdirection, hsource, hdestination, hident]
    rfl
  · cases hallowed : e.allowed with
    | true => rfl
    | false => rw [hallowed] at hpass; cases hpass

/-- **Later fragments follow their own first fragment.**  In a run in which no first fragment finds
a decision about its datagram, a later fragment passes only if the latest first fragment with the
same version, protocol, direction, addresses and identification passed, and not longer ago than the
timeout. -/
theorem follows_first (h : Hears undecided fw w)
    (hnow : w.now ≤ now) (hpart : fragment packet d = some part) (hlater : part.offset ≠ 0)
    (hpass : (fw.decide packet d now).1 = .pass) :
    ∃ t first, tuple packet d = some t ∧ w.latest (t.fragmentKey d.direction part.id) = some first ∧
      first.passed = true ∧ now.toNat ≤ first.time.toNat + ICMP_TIMEOUT_NS.toNat := by
  cases ht : tuple packet d with
  | none =>
    rw [decide, ht] at hpass
    cases hpass
  | some t =>
    rw [decide, ht, hpart] at hpass
    dsimp only at hpass
    rw [if_pos hlater] at hpass
    cases hfound : fw.fragmentDecision t d.direction part.id now with
    | none =>
      rw [hfound] at hpass
      cases hpass
    | some action =>
      rw [hfound] at hpass
      obtain ⟨e, he, hused, hlive, hkey, hallowed⟩ := exists_of_fragmentDecision hfound
      obtain ⟨first, hfirst, hsame, hexpires⟩ :=
        h.follows e he hused (UInt64.le_trans hnow hlive)
      exact ⟨t, first, rfl, hkey ▸ hfirst, hsame.trans (hallowed hpass),
        (UInt64.le_iff_toNat_le.mp hlive).trans hexpires⟩

/-! ### Two datagrams with one identification -/

/-- A fragment of datagram 7 from inside, with its flags and offset. -/
def fragmentOf (word : UInt16) (payload : Bytes) : Bytes :=
  [0x45, 0, 0, 0, 0, 7] ++ beHalfBytes word ++ [64, 6, 0, 0] ++ inner ++ peer ++ payload

def descriptorOfFragment : PacketDescriptor :=
  { descriptorOf 6 VIRTUAL_INGRESS with fragmentFlags := 1 }

/-- The first fragment of a segment with its TCP flags, at a time. -/
def sendsFirst (flags : UInt8) (now : UInt64) : FirewallOp :=
  .packet (fragmentOf 0x2000 (tcpOut flags)) descriptorOfFragment now

/-- The second fragment. -/
def second : Bytes := fragmentOf 2 [1, 2, 3]

theorem exists_hears (C : Firewall → FirewallOp → Bool) {P : Firewall → FragmentLedger → Prop}
    [∀ fw w, Decidable (P fw w)] (ops : List FirewallOp)
    (h : (runAll (watch step fun w op fw _ => w.note op fw) (fun x op => x.2.onward op ∧ C x.1 op) ops
      (new, FragmentLedger.new)).any (fun x => P x.1 x.2) = true) :
    ∃ fw w, Hears C fw w ∧ P fw w := by
  obtain ⟨⟨fw, w⟩, hx⟩ := exists_steps _ ops h
  exact ⟨fw, w, hx⟩

/-- After a SYN the second fragment passes. -/
theorem follows_first_syn : ∃ (fw : Firewall) (w : FragmentLedger), Hears undecided fw w ∧
    (fw.decide second descriptorOfFragment 9).1 = .pass ∧
    ∃ k first, w.latest k = some first ∧ first.passed = true := by
  obtain ⟨fw, w, hears, hnow, hpass⟩ := exists_hears undecided (P := fun fw w =>
    w.now ≤ 9 ∧ (fw.decide second descriptorOfFragment 9).1 = .pass) [sendsFirst 0x02 5]
    (by decide +kernel)
  have hpart : fragment second descriptorOfFragment = some ⟨7, 2, false⟩ := by decide +kernel
  obtain ⟨t, first, -, hfirst, hpassed, -⟩ := follows_first hears hnow hpart (by decide) hpass
  exact ⟨fw, w, hears, hpass, _, first, hfirst, hpassed⟩

/-- **The second fragment passes after a first one that was dropped**, because an older one with
the same identification was a SYN. -/
theorem follows_older : ∃ (fw : Firewall) (w : FragmentLedger), Hears (fun _ _ => true) fw w ∧
    (tuple second descriptorOfFragment).map (fun t =>
      (w.latest (t.fragmentKey VIRTUAL_INGRESS 7)).map fun first => (first.passed, first.time)) =
        some (some (false, 6)) ∧
    (fw.decide second descriptorOfFragment 7).1 = .pass :=
  exists_hears _ [sendsFirst 0x02 5, sendsFirst 0x10 6] (by decide +kernel)

end Firewall

end NetworkExtension

end Bexos
