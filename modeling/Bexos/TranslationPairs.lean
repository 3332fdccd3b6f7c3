/-
Translations that undo each other.

* `Translator.Change` — what a packet does to the table of mappings;
* `Translator.Sound` — live mappings that answer to the same packets have the same internal
  endpoint, and each comes from the range of ports or from a forward;
* `Translator.Plain` — every forward is of the external address, and of a port outside the range;
* **`translations_undone`** — replies are translated back, and with plain forwards packets that
  match one reach its endpoint and are answered from theirs;
* `answered_elsewhere` — the replies of a forward of a second external address leave with the
  first.

Design notes: the answer to an ICMP echo carries the same identifier, which is the source port of
both.
-/
import Bexos.PacketRewriting

namespace Bexos

open List (mem_cons_of_mem not_mem_nil)
open Option (map_eq_some_iff map_some some_inj)

namespace NetworkExtension

/-- The key of the packets that answer. -/
def FlowKey.answer (k : FlowKey) : FlowKey :=
  if k.protocol = 1 then { k with source := k.destination, destination := k.source }
  else k.reverse

/-! ### The table of mappings -/

/-- The mapping with another end. -/
def Mapping.expiring (m : Mapping) (expires : UInt64) : Mapping := { m with expiresNs := expires }

namespace Translator

variable {nat nat' : Translator} {t : FlowKey} {now : UInt64} {m new found : Mapping}
  {ms ms' : List Mapping}

theorem mem_findOutbound (h : findOutbound t now ms = some (found, ms')) :
    (∃ m ∈ ms, Live m now ∧ Carries m t ∧ ∃ expires, found = m.expiring expires) ∧
      ∀ x ∈ ms', x = found ∨ x ∈ ms := by
  induction ms generalizing ms' with
  | nil => cases h
  | cons m rest ih =>
    rw [findOutbound] at h
    split at h
    · rename_i hm
      cases h
      refine ⟨⟨m, List.mem_cons_self, hm.1, hm.2, _, rfl⟩, ?_⟩
      exact List.forall_mem_cons.mpr ⟨.inl rfl, fun x hx => .inr (mem_cons_of_mem _ hx)⟩
    · obtain ⟨⟨found', rest'⟩, hrest, heq⟩ := map_eq_some_iff.mp h
      cases heq
      obtain ⟨⟨m', hm', hfound⟩, hmem⟩ := ih hrest
      refine ⟨⟨m', mem_cons_of_mem _ hm', hfound⟩, ?_⟩
      refine List.forall_mem_cons.mpr ⟨.inr List.mem_cons_self, fun x hx => ?_⟩
      exact (hmem x hx).imp id (mem_cons_of_mem _)

/-- A live mapping for the packet is found. -/
theorem findOutbound_of_live (hm : m ∈ ms) (hlive : Live m now) (hcarries : Carries m t) :
    ∃ found ms', findOutbound t now ms = some (found, ms') := by
  induction ms with
  | nil => exact absurd hm not_mem_nil
  | cons m' rest ih =>
    rw [findOutbound]
    split
    · exact ⟨_, _, rfl⟩
    · rename_i hother
      rcases List.mem_cons.mp hm with rfl | hm
      · exact absurd ⟨hlive, hcarries⟩ hother
      · obtain ⟨found, rest', hrest⟩ := ih hm
        exact ⟨found, m' :: rest', by rw [hrest, map_some]⟩

/-- No live mapping for the packet is missed. -/
theorem not_live_of_findOutbound (h : findOutbound t now ms = none) (hm : m ∈ ms)
    (hlive : Live m now) : ¬ Carries m t := by
  intro hcarries
  obtain ⟨found, ms', hfound⟩ := findOutbound_of_live hm hlive hcarries
  rw [hfound] at h
  cases h

theorem mem_reuse (h : reuse new now ms = some ms') : ∀ x ∈ ms', x = new ∨ x ∈ ms := by
  induction ms generalizing ms' with
  | nil => cases h
  | cons m rest ih =>
    rw [reuse] at h
    split at h
    · cases h
      exact List.forall_mem_cons.mpr ⟨.inl rfl, fun x hx => .inr (mem_cons_of_mem _ hx)⟩
    · obtain ⟨rest', hrest, rfl⟩ := map_eq_some_iff.mp h
      refine List.forall_mem_cons.mpr ⟨.inr List.mem_cons_self, fun x hx => ?_⟩
      exact (ih hrest x hx).imp id (mem_cons_of_mem _)

/-- A slot that is not live is used again. -/
theorem reuse_of_not_live (new : Mapping) (hm : m ∈ ms) (hlive : ¬ Live m now) :
    ∃ ms', reuse new now ms = some ms' := by
  induction ms with
  | nil => exact absurd hm not_mem_nil
  | cons m' rest ih =>
    rw [reuse]
    split
    · exact ⟨_, rfl⟩
    · rename_i hother
      rcases List.mem_cons.mp hm with rfl | hm
      · refine absurd ?_ hother
        rw [Live, not_and_or] at hlive
        exact hlive.imp id UInt64.not_le.mp
      · obtain ⟨rest', hrest⟩ := ih hm
        exact ⟨m' :: rest', by rw [hrest, map_some]⟩

theorem mem_place (h : place new now ms = some ms') : ∀ x ∈ ms', x = new ∨ x ∈ ms := by
  rw [place] at h
  cases hreuse : reuse new now ms with
  | some reused =>
    rw [hreuse] at h
    cases h
    exact mem_reuse hreuse
  | none =>
    rw [hreuse] at h
    dsimp only at h
    split at h
    · cases h
    cases h
    intro x hx
    rcases List.mem_append.mp hx with hx | hx
    · exact .inr hx
    · exact .inl (List.mem_singleton.mp hx)

/-- A new mapping fits in the table. -/
def Fits (nat : Translator) (now : UInt64) : Prop :=
  nat.mappings.length < MAX_NAT_MAPPINGS ∨ ∃ m ∈ nat.mappings, ¬ Live m now

theorem place_of_fits (h : nat.Fits now) (new) : ∃ ms', place new now nat.mappings = some ms' := by
  rw [place]
  cases hreuse : reuse new now nat.mappings with
  | some reused => exact ⟨reused, rfl⟩
  | none =>
    rcases h with hlen | ⟨m, hm, hlive⟩
    · exact ⟨_, if_neg (Nat.ne_of_lt hlen)⟩
    · obtain ⟨ms', hms'⟩ := reuse_of_not_live new hm hlive
      rw [hms'] at hreuse
      cases hreuse

/-! ### What a packet does to the table -/

/-- Mappings that answer to the same packets have the same internal endpoint. -/
def Agree (m m' : Mapping) : Prop :=
  m.protocol = m'.protocol → m.externalPort = m'.externalPort →
    m.remoteAddress = m'.remoteAddress → m.remotePort = m'.remotePort →
      m.internalAddress = m'.internalAddress ∧ m.internalPort = m'.internalPort

/-- The port of a mapping is of the range, or that of a forward with its internal endpoint. -/
def Origin (nat : Translator) (m : Mapping) : Prop :=
  (nat.config.portStart ≤ m.externalPort ∧ m.externalPort ≤ nat.config.portEnd) ∨
    ∃ k f, nat.findForward k = some f ∧ m.protocol = k.protocol ∧
      m.externalPort = k.destinationPort ∧ m.internalAddress = f.internalAddress ∧
      m.internalPort = f.internalPort

/-- What becomes of the mappings. -/
inductive Change (nat : Translator) (now : UInt64) (ms' : List Mapping) : Prop
  | kept : ms' = nat.mappings → Change nat now ms'
  | renewed {m : Mapping} {expires : UInt64} : m ∈ nat.mappings → Live m now →
      (∀ x ∈ ms', x = m.expiring expires ∨ x ∈ nat.mappings) → Change nat now ms'
  | opened {m : Mapping} : nat.Origin m → (m.protocol = 1 → m.remotePort = 0) →
      (∀ x ∈ nat.mappings, Live x now → Agree m x ∧ Agree x m) →
      (∀ x ∈ ms', x = m ∨ x ∈ nat.mappings) → Change nat now ms'

/-- The next port is one of the range. -/
def InRange (nat : Translator) : Prop :=
  nat.config.portStart ≤ nat.nextPort ∧ nat.nextPort ≤ nat.config.portEnd

/-- Packets do not change the configuration. -/
structure SameSetup (nat nat' : Translator) : Prop where
  config : nat'.config = nat.config
  forwards : nat'.forwards = nat.forwards
  forwardCount : nat'.forwardCount = nat.forwardCount
  range : nat.InRange → nat'.InRange

theorem SameSetup.rfl : SameSetup nat nat := ⟨.refl _, .refl _, .refl _, id⟩

theorem SameSetup.trans {nat''} (h : SameSetup nat nat') (h' : SameSetup nat' nat'') :
    SameSetup nat nat'' :=
  ⟨h'.config.trans h.config, h'.forwards.trans h.forwards,
    h'.forwardCount.trans h.forwardCount, h'.range ∘ h.range⟩

theorem SameSetup.findForward (h : SameSetup nat nat') (k) :
    nat'.findForward k = nat.findForward k := by
  rw [Translator.findForward, Translator.findForward, h.forwards, h.forwardCount]

/-- The live mappings are told apart, and it is known where each comes from. -/
structure Sound (nat : Translator) (now : UInt64) : Prop where
  range : nat.InRange
  usable : ∀ f ∈ nat.forwards.take nat.forwardCount, Usable f
  origin : ∀ m ∈ nat.mappings, nat.Origin m
  echo : ∀ m ∈ nat.mappings, m.protocol = 1 → m.remotePort = 0
  agree : ∀ m ∈ nat.mappings, ∀ m' ∈ nat.mappings, Live m now → Live m' now → Agree m m'

theorem Live.of_le {now'} (hnow : now ≤ now') (h : Live m now') : Live m now :=
  ⟨h.1, UInt64.le_trans hnow h.2⟩

/-- **A packet keeps the table sound.** -/
theorem Sound.change {now' : UInt64} (h : nat.Sound now) (hnow : now ≤ now')
    (hsetup : SameSetup nat nat') (hchange : nat.Change now' nat'.mappings) :
    nat'.Sound now' := by
  have horigin : ∀ m, nat.Origin m → nat'.Origin m := by
    intro m hm
    rw [Origin, hsetup.config]
    refine hm.imp id ?_
    rintro ⟨k, f, hfind, hrest⟩
    exact ⟨k, f, by rw [hsetup.findForward, hfind], hrest⟩
  have husable : ∀ f ∈ nat'.forwards.take nat'.forwardCount, Usable f := by
    rw [hsetup.forwards, hsetup.forwardCount]
    exact h.usable
  cases hchange with
  | kept heq =>
    refine ⟨hsetup.range h.range, husable, ?_, ?_, ?_⟩ <;> rw [heq]
    · exact fun m hm => horigin m (h.origin m hm)
    · exact h.echo
    · exact fun m hm m' hm' hlive hlive' =>
        h.agree m hm m' hm' (hlive.of_le hnow) (hlive'.of_le hnow)
  | @renewed old expires hold hlive hmem =>
    -- the renewed mapping stands for the one it was
    have hstands : ∀ m ∈ nat'.mappings, ∃ x ∈ nat.mappings, (Live m now' → Live x now') ∧
        m = { x with expiresNs := m.expiresNs } := by
      intro m hm
      rcases hmem m hm with rfl | hm
      · exact ⟨old, hold, fun _ => hlive, rfl⟩
      · exact ⟨m, hm, id, rfl⟩
    refine ⟨hsetup.range h.range, husable, ?_, ?_, ?_⟩
    · intro m hm
      obtain ⟨x, hx, -, heq⟩ := hstands m hm
      rw [heq]
      exact horigin x (h.origin x hx)
    · intro m hm
      obtain ⟨x, hx, -, heq⟩ := hstands m hm
      rw [heq]
      exact h.echo x hx
    · intro m hm m' hm' hl hl'
      obtain ⟨x, hx, hlx, heq⟩ := hstands m hm
      obtain ⟨x', hx', hlx', heq'⟩ := hstands m' hm'
      rw [heq, heq']
      exact h.agree x hx x' hx' ((hlx hl).of_le hnow) ((hlx' hl').of_le hnow)
  | @opened new hnew hecho hagree hmem =>
    refine ⟨hsetup.range h.range, husable, ?_, ?_, ?_⟩
    · intro m hm
      rcases hmem m hm with rfl | hm
      · exact horigin m hnew
      · exact horigin m (h.origin m hm)
    · intro m hm
      rcases hmem m hm with rfl | hm
      · exact hecho
      · exact h.echo m hm
    · intro m hm m' hm' hl hl'
      rcases hmem m hm with rfl | hm <;> rcases hmem m' hm' with rfl | hm'
      · exact fun _ _ _ _ => ⟨rfl, rfl⟩
      · exact (hagree m' hm' hl').1
      · exact (hagree m hm hl).2
      · exact h.agree m hm m' hm' (hl.of_le hnow) (hl'.of_le hnow)

/-! ### Allocated ports -/

/-- Go on to the next port. -/
def advance (nat : Translator) : Translator :=
  { nat with
    nextPort :=
      if nat.nextPort = nat.config.portEnd then nat.config.portStart else nat.nextPort + 1 }

theorem sameSetup_advance (nat) : SameSetup nat nat.advance := by
  refine ⟨rfl, rfl, rfl, ?_⟩
  rintro ⟨hstart, hend⟩
  rw [UInt16.le_iff_toNat_le] at hstart hend
  show nat.config.portStart ≤ ite _ _ _ ∧ ite _ _ _ ≤ nat.config.portEnd
  split
  · exact ⟨UInt16.le_refl _, UInt16.le_iff_toNat_le.mpr (hstart.trans hend)⟩
  · rename_i hne
    have hlt : nat.nextPort.toNat ≠ nat.config.portEnd.toNat := fun h => hne (UInt16.toNat_inj.mp h)
    have hbound := nat.config.portEnd.toNat_lt
    have hnext : (nat.nextPort + 1).toNat = nat.nextPort.toNat + 1 := by
      have hone : (1 : UInt16).toNat = 1 := rfl
      rw [UInt16.toNat_add, hone]
      exact Nat.mod_eq_of_lt (by omega)
    rw [UInt16.le_iff_toNat_le, UInt16.le_iff_toNat_le, hnext]
    omega

theorem allocate_succ (t now rounds nat) :
    allocate t now (rounds + 1) nat =
      if nat.PortTaken t.protocol nat.nextPort now then allocate t now rounds nat.advance
      else
        match place (mappingOf t nat.nextPort now) now nat.mappings with
        | some mappings =>
          (some (mappingOf t nat.nextPort now), { nat.advance with mappings := mappings })
        | none => (none, nat.advance) := rfl

/-- The packet is given a port of the range that no live mapping has, or the table stays. -/
theorem allocate_cases (t : FlowKey) (now : UInt64) (rounds : ℕ) (hrange : nat.InRange) :
    SameSetup nat (allocate t now rounds nat).2 ∧
      ((allocate t now rounds nat).1 = none ∧
          (allocate t now rounds nat).2.mappings = nat.mappings ∨
        ∃ port, (nat.config.portStart ≤ port ∧ port ≤ nat.config.portEnd) ∧
          ¬ nat.PortTaken t.protocol port now ∧
          (allocate t now rounds nat).1 = some (mappingOf t port now) ∧
          place (mappingOf t port now) now nat.mappings =
            some (allocate t now rounds nat).2.mappings) := by
  induction rounds generalizing nat with
  | zero => exact ⟨.rfl, .inl ⟨rfl, rfl⟩⟩
  | succ rounds ih =>
    have hadvance := sameSetup_advance nat
    rw [allocate_succ]
    split
    · obtain ⟨hsetup, hcases⟩ := ih (hadvance.range hrange)
      exact ⟨hadvance.trans hsetup, hcases⟩
    · rename_i hfree
      cases hplace : place (mappingOf t nat.nextPort now) now nat.mappings with
      | none => exact ⟨hadvance, .inl ⟨rfl, rfl⟩⟩
      | some mappings =>
        exact ⟨⟨rfl, rfl, rfl, hadvance.range⟩, .inr ⟨_, hrange, hfree, rfl, hplace⟩⟩

/-- A mapping of a port that no live mapping has agrees with all of them. -/
theorem agree_of_free {port} (hfree : ¬ nat.PortTaken t.protocol port now) :
    ∀ x ∈ nat.mappings, Live x now →
      Agree (mappingOf t port now) x ∧ Agree x (mappingOf t port now) := by
  intro x hx hlive
  have hother : ¬ (x.protocol = t.protocol ∧ x.externalPort = port) :=
    fun h => hfree ⟨x, hx, hlive, h.1, h.2⟩
  exact ⟨fun hp he _ _ => absurd ⟨hp.symm, he.symm⟩ hother,
    fun hp he _ _ => absurd ⟨hp, he⟩ hother⟩

/-! ### Translated packets -/

variable {packet : Bytes} {d : PacketDescriptor} {tuple' : Tuple} {k : FlowKey} {f : Forward}

/-- The key of a packet. -/
def keyOf (packet : Bytes) (d : PacketDescriptor) : Option FlowKey :=
  (tuple packet d).map Tuple.toFlowKey

/-- A whole packet that is given an endpoint. -/
theorem keyOf_rewriteEndpoint (hwhole : Whole packet d) (hk : keyOf packet d = some k)
    (source : Bool) (old new : Address4) (oldPort newPort : UInt16) :
    ∃ packet', rewriteEndpoint d k.protocol source old new oldPort newPort packet =
        some packet' ∧ keyOf packet' d = some (k.moved source new newPort) := by
  obtain ⟨t, ht, rfl⟩ := map_eq_some_iff.mp hk
  obtain ⟨packet', hrun, ht'⟩ :=
    tuple_rewriteEndpoint hwhole ht source old new oldPort newPort
  exact ⟨packet', hrun, by rw [keyOf, ht', map_some]⟩

theorem narrow_of_keyOf (hwhole : Whole packet d) (hk : keyOf packet d = some k) : k.Narrow := by
  obtain ⟨t, ht, rfl⟩ := map_eq_some_iff.mp hk
  exact hwhole.narrow ht

/-- What a packet that leaves can become. -/
inductive Outbound (nat : Translator) (d : PacketDescriptor) (k : FlowKey) (now : UInt64)
    (packet : Bytes) : ActionCode × Bytes × Translator → Prop
  | dropped {nat' : Translator} : SameSetup nat nat' → nat'.mappings = nat.mappings →
      (∀ m ∈ nat.mappings, Live m now → ¬ Carries m k) →
      Outbound nat d k now packet (.drop, packet, nat')
  | mapped {nat' : Translator} {packet' : Bytes} {port : UInt16} : SameSetup nat nat' →
      nat.Change now nat'.mappings →
      ((∃ x ∈ nat.mappings, Live x now ∧ Carries x k) →
        ∃ x ∈ nat.mappings, Live x now ∧ Carries x k ∧ x.externalPort = port) →
      keyOf packet' d = some (k.moved true nat.config.externalV4 port) →
      Outbound nat d k now packet (.rewrite, packet', nat')

/-- **What a packet that leaves becomes.** -/
theorem outbound_of_whole (now : UInt64) (hsound : nat.InRange) (hwhole : Whole packet d)
    (hk : keyOf packet d = some k) :
    ∃ r, translateOutbound packet d k now nat = some r ∧ Outbound nat d k now packet r := by
  rw [translateOutbound]
  cases hfind : findOutbound k now nat.mappings with
  | some found =>
    obtain ⟨m, ms⟩ := found
    obtain ⟨⟨x, hx, hlive, hcarries, expires, rfl⟩, hmem⟩ := mem_findOutbound hfind
    obtain ⟨packet', hrun, hkey⟩ := keyOf_rewriteEndpoint hwhole hk true (v4 k.source)
      nat.config.externalV4 k.sourcePort x.externalPort
    refine ⟨_, by dsimp only [Mapping.expiring]; rw [hrun, map_some], ?_⟩
    exact .mapped ⟨rfl, rfl, rfl, id⟩ (.renewed hx hlive hmem)
      (fun _ => ⟨x, hx, hlive, hcarries, rfl⟩) hkey
  | none =>
    have hnone : ∀ m ∈ nat.mappings, Live m now → ¬ Carries m k :=
      fun m hm hlive => not_live_of_findOutbound hfind hm hlive
    obtain ⟨hsetup, hcases⟩ := allocate_cases k now
      (nat.config.portEnd.toNat - nat.config.portStart.toNat + 1) hsound
    dsimp only
    generalize allocate k now (nat.config.portEnd.toNat - nat.config.portStart.toNat + 1) nat =
      r at hsetup hcases ⊢
    obtain ⟨mapping, nat'⟩ := r
    rcases hcases with ⟨hmapping, hmappings⟩ | ⟨port, hport, hfree, hmapping, hplace⟩
    · cases hmapping
      exact ⟨_, rfl, .dropped hsetup hmappings hnone⟩
    · cases hmapping
      obtain ⟨packet', hrun, hkey⟩ := keyOf_rewriteEndpoint hwhole hk true (v4 k.source)
        nat'.config.externalV4 k.sourcePort port
      refine ⟨_, by dsimp only [mappingOf]; rw [hrun, map_some], ?_⟩
      rw [hsetup.config] at hkey
      refine .mapped hsetup ?_ ?_ hkey
      · exact .opened (.inl hport) (narrow_of_keyOf hwhole hk).echo (agree_of_free hfree)
          (mem_place hplace)
      · rintro ⟨x, hx, hlive, hcarries⟩
        exact absurd hcarries (hnone x hx hlive)

theorem findForward_spec (h : nat.findForward k = some f) :
    f ∈ nat.forwards.take nat.forwardCount ∧ f.externalAddress = v4 k.destination ∧
      f.externalPort = k.destinationPort ∧ f.protocol = k.protocol := by
  have hfound := List.find?_some h
  exact ⟨List.mem_of_find?_eq_some h, of_decide_eq_true hfound⟩

theorem findInbound_spec (h : nat.findInbound k now = some m) :
    m ∈ nat.mappings ∧ Live m now ∧ Returns m k := by
  have hfound := List.find?_some h
  exact ⟨List.mem_of_find?_eq_some h, of_decide_eq_true hfound⟩

theorem not_returns_of_findInbound (h : nat.findInbound k now = none) (hm : m ∈ nat.mappings)
    (hlive : Live m now) : ¬ Returns m k := by
  intro hreturns
  have hnot := List.find?_eq_none.mp h m hm
  exact hnot (decide_eq_true ⟨hlive, hreturns⟩)

/-- Forwards are of TCP and UDP. -/
theorem Sound.protocol_ne (h : nat.Sound now) (hf : nat.findForward k = some f) :
    k.protocol ≠ 1 := by
  obtain ⟨hmem, -, -, hprotocol⟩ := findForward_spec hf
  have husable := h.usable f hmem
  intro hicmp
  refine husable (.inr (.inr (.inr (.inr ?_))))
  rw [hprotocol, hicmp]
  decide

/-- What a packet that arrives can become. -/
inductive Inbound (nat : Translator) (d : PacketDescriptor) (k : FlowKey) (now : UInt64)
    (packet : Bytes) : ActionCode × Bytes × Translator → Prop
  | passed : v4 k.destination ≠ nat.config.externalV4 → nat.findForward k = none →
      Inbound nat d k now packet (.pass, packet, nat)
  | dropped : (∀ m ∈ nat.mappings, Live m now → ¬ Returns m k) →
      (∀ f, nat.findForward k = some f → ¬ nat.Fits now) →
      Inbound nat d k now packet (.drop, packet, nat)
  | mapped {packet' : Bytes} {m : Mapping} : m ∈ nat.mappings → Live m now → Returns m k →
      keyOf packet' d = some (k.moved false m.internalAddress m.internalPort) →
      Inbound nat d k now packet (.rewrite, packet', nat)
  | forwarded {nat' : Translator} {packet' : Bytes} {f : Forward} : SameSetup nat nat' →
      nat.Change now nat'.mappings → nat.findForward k = some f →
      (∀ m ∈ nat.mappings, Live m now → ¬ Returns m k) →
      keyOf packet' d = some (k.moved false f.internalAddress f.internalPort) →
      Inbound nat d k now packet (.rewrite, packet', nat')

/-- The mapping of a forwarded connection is told apart from the live ones. -/
theorem Sound.change_recordForward (h : nat.Sound now) (hf : nat.findForward k = some f)
    (hnone : ∀ m ∈ nat.mappings, Live m now → ¬ Returns m k)
    (hplace : place (forwardMapping k f now) now nat.mappings = some ms') :
    nat.Change now ms' := by
  obtain ⟨-, -, hport, -⟩ := findForward_spec hf
  have hne := h.protocol_ne hf
  -- a mapping with the same port and remote endpoint would have been found
  have hother : ∀ x ∈ nat.mappings, Live x now → ¬ (x.protocol = k.protocol ∧
      x.externalPort = f.externalPort ∧ x.remoteAddress = v4 k.source ∧
      x.remotePort = k.sourcePort) := by
    rintro x hx hlive ⟨hp, he, ha, hr⟩
    refine hnone x hx hlive ⟨hp, ?_, ha, .inr hr⟩
    rw [he, hport, if_neg hne]
  refine .opened (.inr ⟨k, f, hf, rfl, hport, rfl, rfl⟩) (fun hicmp => absurd hicmp hne) ?_
    (mem_place hplace)
  intro x hx hlive
  exact ⟨fun hp he ha hr => absurd ⟨hp.symm, he.symm, ha.symm, hr.symm⟩ (hother x hx hlive),
    fun hp he ha hr => absurd ⟨hp, he, ha, hr⟩ (hother x hx hlive)⟩

/-- **What a packet that arrives becomes.** -/
theorem inbound_of_whole (hsound : nat.Sound now) (hwhole : Whole packet d)
    (hk : keyOf packet d = some k) :
    ∃ r, translateInbound packet d k now nat = some r ∧ Inbound nat d k now packet r := by
  rw [translateInbound]
  split
  · rename_i hforeign
    exact ⟨_, rfl, .passed hforeign.1 (Option.isNone_iff_eq_none.mp hforeign.2)⟩
  cases hfind : nat.findInbound k now with
  | some m =>
    obtain ⟨hm, hlive, hreturns⟩ := findInbound_spec hfind
    obtain ⟨packet', hrun, hkey⟩ := keyOf_rewriteEndpoint hwhole hk false (v4 k.destination)
      m.internalAddress m.externalPort m.internalPort
    refine ⟨_, by dsimp only; rw [hrun, map_some], ?_⟩
    exact .mapped hm hlive hreturns hkey
  | none =>
    have hnone : ∀ m ∈ nat.mappings, Live m now → ¬ Returns m k :=
      fun m hm hlive => not_returns_of_findInbound hfind hm hlive
    cases hforward : nat.findForward k with
    | none =>
      exact ⟨_, rfl, .dropped hnone fun f hf => absurd (hforward.symm.trans hf) (by simp)⟩
    | some f =>
      dsimp only [recordForward]
      cases hplace : place (forwardMapping k f now) now nat.mappings with
      | none =>
        refine ⟨_, rfl, .dropped hnone fun f hf hfits => ?_⟩
        obtain ⟨ms', hms'⟩ := place_of_fits hfits (forwardMapping k f now)
        rw [hforward, some_inj] at hf
        rw [← hf, hplace] at hms'
        cases hms'
      | some ms' =>
        obtain ⟨packet', hrun, hkey⟩ := keyOf_rewriteEndpoint hwhole hk false (v4 k.destination)
          f.internalAddress f.externalPort f.internalPort
        refine ⟨_, by dsimp only [forwardMapping]; rw [hrun, map_some], ?_⟩
        exact .forwarded ⟨rfl, rfl, rfl, id⟩ (hsound.change_recordForward hforward hnone hplace)
          hforward hnone hkey

theorem translate_of_whole (hwhole : Whole packet d) (hk : keyOf packet d = some k) (hook) :
    nat.translate packet d hook now = translate4 packet d k hook now nat := by
  obtain ⟨t, ht, rfl⟩ := map_eq_some_iff.mp hk
  have hversion : t.version = 4 := by
    have hlength := hwhole.length_le
    have horder := hwhole.order
    rw [tuple_eq packet hwhole.version (by omega), some_inj] at ht
    rw [← ht]
  have hnot6 : ¬ t.version = 6 := by rw [hversion]; decide
  have h4 : ¬ t.version ≠ 4 := fun h => h hversion
  rw [translate, ht]
  dsimp only
  rw [if_neg hnot6, if_neg h4, hwhole.whole]

/-! ### Accepted configurations -/

/-- The forwards that were written are usable. -/
theorem usable_of_writeForwards {bytes indices forwards written}
    (h : writeForwards bytes indices forwards = (true, written)) {j}
    (hj : j ∈ indices ∨ ∀ f, forwards[j]? = some f → Usable f) :
    ∀ f, written[j]? = some f → Usable f := by
  induction indices generalizing forwards with
  | nil =>
    cases h
    exact hj.resolve_left not_mem_nil
  | cons i rest ih =>
    rw [writeForwards] at h
    split at h
    · rename_i husable
      refine ih h ?_
      by_cases hij : i = j
      · subst hij
        refine .inr fun f hf => ?_
        rcases of_getElem?_set hf with ⟨-, rfl⟩ | ⟨hne, -⟩
        · exact husable
        · exact absurd rfl hne
      · rw [List.getElem?_set_ne hij]
        exact hj.imp (fun hmem => (List.mem_cons.mp hmem).resolve_left (Ne.symm hij)) id
    · cases h

/-- An accepted configuration starts with an empty table. -/
theorem sound_of_configure {bytes : Bytes} {before start : Translator}
    (h : before.configure bytes = (true, start)) : start.Sound 0 ∧ start.mappings = [] := by
  unfold configure at h
  extract_lets config count at h
  split at h
  · cases h
  rename_i hchecked
  simp only [not_or] at hchecked
  obtain ⟨-, -, -, -, -, -, hports, -⟩ := hchecked
  cases hwrite : writeForwards bytes (List.range count) before.forwards with
  | mk accepted written =>
    rw [hwrite] at h
    cases h
    refine ⟨⟨⟨UInt16.le_refl _, UInt16.not_lt.mp hports⟩, ?_, ?_, ?_, ?_⟩, rfl⟩
    · intro f hf
      obtain ⟨j, hj⟩ := List.mem_iff_getElem?.mp hf
      rw [List.getElem?_take] at hj
      split at hj
      · rename_i hlt
        exact usable_of_writeForwards hwrite (.inl (List.mem_range.mpr hlt)) f hj
      · cases hj
    · exact fun m hm => absurd hm not_mem_nil
    · exact fun m hm => absurd hm not_mem_nil
    · exact fun m hm => absurd hm not_mem_nil

end Translator

/-! ### What has been translated -/

/-- A packet at a hook, at a time. -/
structure NatOp where
  packet : Bytes
  d : PacketDescriptor
  hook : UInt8
  now : UInt64

/-- The packets that were translated when they left and when they arrived, each before and after. -/
structure NatLedger where
  now : UInt64
  sent : List (FlowKey × FlowKey)
  received : List (FlowKey × FlowKey)

namespace Translator

def step (op : NatOp) (nat : Translator) : Option Translator :=
  (nat.translate op.packet op.d op.hook op.now).map fun r => r.2.2

/-- The packet before and after, if it is translated. -/
def translated (op : NatOp) (nat : Translator) : List (FlowKey × FlowKey) :=
  match nat.translate op.packet op.d op.hook op.now with
  | some (.rewrite, packet', _) =>
    ((keyOf op.packet op.d).bind fun k => (keyOf packet' op.d).map fun k' => (k, k')).toList
  | _ => []

end Translator

namespace NatLedger

def new : NatLedger := ⟨0, [], []⟩

def note (w : NatLedger) (op : NatOp) (nat : Translator) : NatLedger :=
  if op.hook = POST_ROUTING then ⟨op.now, w.sent ++ nat.translated op, w.received⟩
  else ⟨op.now, w.sent, w.received ++ nat.translated op⟩

/-- Time does not go back, and packets are whole. -/
def Admits (w : NatLedger) (op : NatOp) : Prop := w.now ≤ op.now ∧ Whole op.packet op.d
  deriving Decidable

end NatLedger

namespace Translator

/-- A run with the packets that were translated. -/
def Runs (start nat : Translator) (w : NatLedger) : Prop :=
  Steps (watch step fun w op nat _ => w.note op nat) (fun x op => x.2.Admits op)
    (start, NatLedger.new) (nat, w)

/-- Every forward is of the external address, and of a port outside the range. -/
def Plain (nat : Translator) : Prop :=
  ∀ f ∈ nat.forwards.take nat.forwardCount, f.externalAddress = nat.config.externalV4 ∧
    ¬ (nat.config.portStart ≤ f.externalPort ∧ f.externalPort ≤ nat.config.portEnd)
  deriving Decidable

/-- The table is sound, and packets have the external endpoint, or that of their forward. -/
structure Recorded (x : Translator × NatLedger) : Prop where
  sound : x.1.Sound x.2.now
  sent : ∀ p ∈ x.2.sent, p.1.Narrow ∧ ∃ port, p.2 = p.1.moved true x.1.config.externalV4 port
  received : ∀ p ∈ x.2.received, p.1.Narrow ∧ (x.1.Plain → ∀ f, x.1.findForward p.1 = some f →
    p.2 = p.1.moved false f.internalAddress f.internalPort)

variable {nat nat' start before : Translator} {w : NatLedger} {now : UInt64} {m : Mapping}
  {packet : Bytes} {d : PacketDescriptor} {k k' : FlowKey} {f : Forward}

theorem SameSetup.plain (h : SameSetup nat nat') : nat'.Plain → nat.Plain := by
  rw [Plain, Plain, h.config, h.forwards, h.forwardCount]
  exact id

/-- With plain forwards a mapping that answers to a packet for one has its internal endpoint. -/
theorem Sound.internal_of_plain (h : nat.Sound now) (hplain : nat.Plain)
    (hf : nat.findForward k = some f) (hm : m ∈ nat.mappings) (hreturns : Returns m k) :
    m.internalAddress = f.internalAddress ∧ m.internalPort = f.internalPort := by
  obtain ⟨hmem, haddress, hport, hprotocol⟩ := findForward_spec hf
  obtain ⟨hexternal, houtside⟩ := hplain f hmem
  obtain ⟨hp, he, -, -⟩ := hreturns
  rw [if_neg (h.protocol_ne hf)] at he
  rcases h.origin m hm with hrange | ⟨k₀, f₀, hf₀, hp₀, he₀, hinternal⟩
  · rw [he, ← hport] at hrange
    exact absurd hrange houtside
  · -- both packets are for the same address, port and protocol
    obtain ⟨hmem₀, haddress₀, -, -⟩ := findForward_spec hf₀
    have hsame : nat.findForward k₀ = nat.findForward k := by
      rw [findForward, findForward, ← haddress₀, ← haddress, (hplain f₀ hmem₀).1, hexternal,
        ← he₀, he, ← hp₀, hp]
    rw [hf, hf₀, some_inj] at hsame
    rw [← hsame]
    exact hinternal

theorem mem_translated {op p} (hp : p ∈ nat.translated op) :
    ∃ packet' nat', nat.translate op.packet op.d op.hook op.now = some (.rewrite, packet', nat') ∧
      keyOf op.packet op.d = some p.1 ∧ keyOf packet' op.d = some p.2 := by
  rw [translated] at hp
  split at hp
  · rename_i packet' nat' heq
    rw [Option.mem_toList, Option.bind_eq_some_iff] at hp
    obtain ⟨k, hk, hp⟩ := hp
    obtain ⟨k', hk', rfl⟩ := map_eq_some_iff.mp hp
    exact ⟨packet', nat', heq, hk, hk'⟩
  · exact absurd hp not_mem_nil

theorem Sound.mono {now'} (h : nat.Sound now) (hnow : now ≤ now') : nat.Sound now' :=
  h.change hnow .rfl (.kept rfl)

/-- What a whole packet does, and what its key becomes if it is translated. -/
theorem translate_spec (hsound : nat.Sound now) (hwhole : Whole packet d)
    (hk : keyOf packet d = some k) (hook : UInt8) :
    ∃ r, nat.translate packet d hook now = some r ∧ SameSetup nat r.2.2 ∧
      nat.Change now r.2.2.mappings ∧
      (r.1 = .rewrite → ∃ k', keyOf r.2.1 d = some k' ∧
        (hook = POST_ROUTING → ∃ port, k' = k.moved true nat.config.externalV4 port) ∧
        (hook ≠ POST_ROUTING → nat.Plain → ∀ f, nat.findForward k = some f →
          k' = k.moved false f.internalAddress f.internalPort)) := by
  rw [translate_of_whole hwhole hk, translate4]
  split
  · rename_i hpost
    obtain ⟨r, hrun, hout⟩ := outbound_of_whole now hsound.range hwhole hk
    refine ⟨r, hrun, ?_⟩
    cases hout with
    | dropped hsetup hmappings hnone => exact ⟨hsetup, .kept hmappings, fun h => by cases h⟩
    | mapped hsetup hchange hport hkey =>
      exact ⟨hsetup, hchange, fun _ => ⟨_, hkey, fun _ => ⟨_, rfl⟩, fun h => absurd hpost.1 h⟩⟩
  split
  · rename_i hpre
    have hnot : hook ≠ POST_ROUTING := by rw [hpre]; decide
    obtain ⟨r, hrun, hin⟩ := inbound_of_whole hsound hwhole hk
    refine ⟨r, hrun, ?_⟩
    cases hin with
    | passed | dropped => exact ⟨.rfl, .kept rfl, fun h => by cases h⟩
    | mapped hm hlive hreturns hkey =>
      refine ⟨.rfl, .kept rfl, fun _ => ⟨_, hkey, fun h => absurd h hnot, ?_⟩⟩
      intro _ hplain f hf
      obtain ⟨haddress, hport⟩ := hsound.internal_of_plain hplain hf hm hreturns
      rw [haddress, hport]
    | forwarded hsetup hchange hforward hnone hkey =>
      refine ⟨hsetup, hchange, fun _ => ⟨_, hkey, fun h => absurd h hnot, ?_⟩⟩
      intro _ _ f hf
      rw [hforward, some_inj] at hf
      rw [hf]
  · exact ⟨_, rfl, .rfl, .kept rfl, fun h => by cases h⟩

theorem exists_keyOf (h : Whole packet d) : ∃ k, keyOf packet d = some k := by
  obtain ⟨t, ht⟩ := h.exists_tuple
  exact ⟨t.toFlowKey, by rw [keyOf, ht, map_some]⟩

variable {x : Translator × NatLedger} {a : Address4} {port : UInt16}

/-- **A packet keeps the table and the history in agreement.** -/
theorem recorded_step {op : NatOp} (h : Recorded (nat, w)) (hadmits : w.Admits op)
    (hstep : watch step (fun w op nat _ => w.note op nat) op (nat, w) = some x) : Recorded x := by
  obtain ⟨hnow, hwhole⟩ := hadmits
  obtain ⟨k, hk⟩ := exists_keyOf hwhole
  obtain ⟨r, hrun, hsetup, hchange, hkey⟩ := translate_spec (h.sound.mono hnow) hwhole hk op.hook
  have hx : x = (r.2.2, w.note op nat) := by
    rw [watch, step, hrun] at hstep
    exact (some_inj.mp hstep).symm
  -- the packet itself, if it was translated
  have hnew : ∀ p ∈ nat.translated op, p.1.Narrow ∧
      (op.hook = POST_ROUTING → ∃ port, p.2 = p.1.moved true nat.config.externalV4 port) ∧
      (op.hook ≠ POST_ROUTING → nat.Plain → ∀ f, nat.findForward p.1 = some f →
        p.2 = p.1.moved false f.internalAddress f.internalPort) := by
    intro p hp
    obtain ⟨packet', nat', htranslate, hbefore, hafter⟩ := mem_translated hp
    rw [hrun, some_inj] at htranslate
    subst htranslate
    obtain ⟨k', hk', hsides⟩ := hkey rfl
    rw [hk, some_inj] at hbefore
    rw [hk', some_inj] at hafter
    rw [← hbefore, ← hafter]
    exact ⟨narrow_of_keyOf hwhole hk, hsides⟩
  have hkept : Recorded (r.2.2, ⟨op.now, w.sent, w.received⟩) := by
    refine ⟨h.sound.change hnow hsetup hchange, ?_, fun p hp => ?_⟩
    · rw [hsetup.config]
      exact h.sent
    · refine ⟨(h.received p hp).1, fun hplain f hf => ?_⟩
      rw [hsetup.findForward] at hf
      exact (h.received p hp).2 (hsetup.plain hplain) f hf
  rw [hx, NatLedger.note]
  split
  · rename_i hpost
    refine { hkept with sent := fun p hp => ?_ }
    rcases List.mem_append.mp hp with hp | hp
    · exact hkept.sent p hp
    · obtain ⟨hnarrow, hside, -⟩ := hnew p hp
      rw [hsetup.config]
      exact ⟨hnarrow, hside hpost⟩
  · rename_i hpost
    refine { hkept with received := fun p hp => ?_ }
    rcases List.mem_append.mp hp with hp | hp
    · exact hkept.received p hp
    · obtain ⟨hnarrow, -, hside⟩ := hnew p hp
      refine ⟨hnarrow, fun hplain f hf => ?_⟩
      rw [hsetup.findForward] at hf
      exact hside hpost (hsetup.plain hplain) f hf

theorem Runs.recorded {bytes} (hrun : Runs start nat w)
    (haccepted : before.configure bytes = (true, start)) : Recorded (nat, w) := by
  refine Steps.invariant (I := Recorded) ?_ hrun ?_
  · rintro ⟨nat, w⟩ op x hrecorded hadmits hstep
    exact recorded_step hrecorded hadmits hstep
  · exact ⟨(sound_of_configure haccepted).1, fun p hp => absurd hp not_mem_nil,
      fun p hp => absurd hp not_mem_nil⟩

/-! ### Replies -/

/-- The packet is translated to one with a key. -/
def RewrittenTo (nat : Translator) (packet : Bytes) (d : PacketDescriptor) (hook : UInt8)
    (now : UInt64) (k : FlowKey) : Prop :=
  ∃ packet' nat', nat.translate packet d hook now = some (.rewrite, packet', nat') ∧
    keyOf packet' d = some k

section Whole

variable (hsound : nat.Sound now) (hwhole : Whole packet d) (hk : keyOf packet d = some k)

include hsound hwhole hk

theorem inbound_at_preRouting :
    ∃ r, nat.translate packet d PRE_ROUTING now = some r ∧ Inbound nat d k now packet r := by
  have hnot : ¬ (PRE_ROUTING = POST_ROUTING ∧ d.direction = VIRTUAL_INGRESS) := fun h =>
    absurd h.1 (by decide)
  obtain ⟨r, hrun, hin⟩ := inbound_of_whole hsound hwhole hk
  exact ⟨r, by rw [translate_of_whole hwhole hk, translate4, if_neg hnot, if_pos rfl, hrun], hin⟩

/-- A packet that arrives for a live mapping is given the internal endpoint of one. -/
theorem rewrittenTo_of_live (hm : m ∈ nat.mappings) (hlive : Live m now) (hreturns : Returns m k)
    (hours : v4 k.destination = nat.config.externalV4 ∨ ∃ f, nat.findForward k = some f) :
    ∃ m' ∈ nat.mappings, Live m' now ∧ Returns m' k ∧
      nat.RewrittenTo packet d PRE_ROUTING now
        (k.moved false m'.internalAddress m'.internalPort) := by
  obtain ⟨r, htranslate, hin⟩ := inbound_at_preRouting hsound hwhole hk
  cases hin with
  | passed hforeign hnoForward =>
    rcases hours with hours | ⟨f, hf⟩
    · exact absurd hours hforeign
    · exact absurd (hnoForward.symm.trans hf) (by simp)
  | dropped hnone _ | forwarded _ _ _ hnone _ => exact absurd hreturns (hnone m hm hlive)
  | mapped hm' hlive' hreturns' hkey =>
    exact ⟨_, hm', hlive', hreturns', _, _, htranslate, hkey⟩

/-- A packet for a plain forward, when a mapping fits in the table. -/
theorem rewrittenTo_of_fits (hplain : nat.Plain) (hf : nat.findForward k = some f)
    (hfits : nat.Fits now) :
    nat.RewrittenTo packet d PRE_ROUTING now
      (k.moved false f.internalAddress f.internalPort) := by
  obtain ⟨r, htranslate, hin⟩ := inbound_at_preRouting hsound hwhole hk
  cases hin with
  | passed _ hnoForward => exact absurd (hnoForward.symm.trans hf) (by simp)
  | dropped _ hfull => exact absurd hfits (hfull f hf)
  | mapped hm _ hreturns hkey =>
    obtain ⟨haddress, hinternal⟩ := hsound.internal_of_plain hplain hf hm hreturns
    rw [haddress, hinternal] at hkey
    exact ⟨_, _, htranslate, hkey⟩
  | forwarded _ _ hforward _ hkey =>
    rw [hf, some_inj] at hforward
    rw [← hforward] at hkey
    exact ⟨_, _, htranslate, hkey⟩

/-- A packet that leaves with a live mapping is given the port of one. -/
theorem rewrittenTo_of_carried (hdirection : d.direction = VIRTUAL_INGRESS)
    (hm : m ∈ nat.mappings) (hlive : Live m now) (hcarries : Carries m k) :
    ∃ m' ∈ nat.mappings, Live m' now ∧ Carries m' k ∧
      nat.RewrittenTo packet d POST_ROUTING now
        (k.moved true nat.config.externalV4 m'.externalPort) := by
  obtain ⟨r, hrun, hout⟩ := outbound_of_whole now hsound.range hwhole hk
  have htranslate : nat.translate packet d POST_ROUTING now = some r := by
    rw [translate_of_whole hwhole hk, translate4, if_pos ⟨rfl, hdirection⟩, hrun]
  cases hout with
  | dropped _ _ hnone => exact absurd hcarries (hnone m hm hlive)
  | mapped _ _ hport hkey =>
    obtain ⟨m', hm', hlive', hcarries', heq⟩ := hport ⟨m, hm, hlive, hcarries⟩
    rw [← heq] at hkey
    exact ⟨m', hm', hlive', hcarries', _, _, htranslate, hkey⟩

end Whole

/-- A mapping answers to the replies of what it carries. -/
theorem returns_answer (hcarries : Carries m k) :
    Returns m (k.moved true a m.externalPort).answer := by
  obtain ⟨hp, -, ha, -, hr⟩ := hcarries
  by_cases hicmp : k.protocol = 1
  · simp only [FlowKey.moved, FlowKey.answer, if_true, if_pos hicmp]
    exact ⟨hp, (if_pos hicmp).symm, ha, .inl hicmp⟩
  · simp only [FlowKey.moved, FlowKey.answer, if_true, if_neg hicmp]
    exact ⟨hp, (if_neg hicmp).symm, ha, .inr hr⟩

/-- The reply with the endpoint of the sender is the answer to what it sent. -/
theorem moved_answer (hnarrow : k.Narrow) :
    (k.moved true a port).answer.moved false (v4 k.source) k.sourcePort = k.answer := by
  by_cases hicmp : k.protocol = 1
  · simp only [FlowKey.moved, FlowKey.answer, if_true, if_pos hicmp, Bool.false_eq_true, if_false,
      hnarrow.source]
  · simp only [FlowKey.moved, FlowKey.answer, FlowKey.reverse, if_true, if_neg hicmp,
      Bool.false_eq_true, if_false, hnarrow.source]

theorem destination_answer : v4 (k.moved true a port).answer.destination = a := by
  rw [FlowKey.moved, if_pos rfl, FlowKey.answer]
  split <;> exact v4_extend a

/-- Mappings that answer to the same packet have the same internal endpoint. -/
theorem Sound.internal_of_returns {m'} (h : nat.Sound now) (hm : m ∈ nat.mappings)
    (hm' : m' ∈ nat.mappings) (hlive : Live m now) (hlive' : Live m' now) (hreturns : Returns m k)
    (hreturns' : Returns m' k) :
    m'.internalAddress = m.internalAddress ∧ m'.internalPort = m.internalPort := by
  obtain ⟨hp, he, ha, hr⟩ := hreturns
  obtain ⟨hp', he', ha', hr'⟩ := hreturns'
  refine h.agree m' hm' m hm hlive' hlive (hp'.trans hp.symm) (he'.trans he.symm)
    (ha'.trans ha.symm) ?_
  by_cases hicmp : k.protocol = 1
  · rw [h.echo m hm (hp.trans hicmp), h.echo m' hm' (hp'.trans hicmp)]
  · exact (hr'.resolve_left hicmp).trans (hr.resolve_left hicmp).symm

/-- A mapping carries the replies of the packets for a forward. -/
theorem carries_answer (hne : k.protocol ≠ 1) (hreturns : Returns m k)
    (haddress : m.internalAddress = f.internalAddress) (hport : m.internalPort = f.internalPort) :
    Carries m (k.moved false f.internalAddress f.internalPort).answer := by
  obtain ⟨hp, -, ha, hr⟩ := hreturns
  simp only [FlowKey.moved, FlowKey.answer, if_neg hne, Bool.false_eq_true, if_false]
  refine ⟨hp, ?_, ha, hport, hr.resolve_left hne⟩
  rw [haddress]
  exact (v4_extend f.internalAddress).symm

/-- The reply with the endpoint that the peer had addressed is the answer to its packet. -/
theorem answer_moved (hne : k.protocol ≠ 1) (hnarrow : k.Narrow) :
    (k.moved false a port).answer.moved true (v4 k.destination) k.destinationPort = k.answer := by
  simp only [FlowKey.moved, FlowKey.answer, FlowKey.reverse, if_true, if_neg hne,
    Bool.false_eq_true, if_false, hnarrow.destination]

/-- **Translations undo each other.**  In every run from an accepted configuration: a reply to a
packet that was sent, while its mapping is live, is rewritten to the endpoint that sent it; live
mappings of one protocol, external port and remote endpoint have one internal endpoint; and with
plain forwards, a packet for a forward reaches its endpoint if its connection has a mapping or one
fits in the table, and while that mapping is live and no other port maps the same endpoints, its
replies leave with the endpoint that the peer had addressed. -/
theorem translations_undone {bytes : Bytes} (haccepted : before.configure bytes = (true, start))
    (hrun : Runs start nat w) :
    (∀ k k', (k, k') ∈ w.sent → ∀ packet d now, Whole packet d → w.now ≤ now →
      keyOf packet d = some k'.answer →
      (∃ m ∈ nat.mappings, Live m now ∧ Carries m k ∧ m.externalPort = k'.sourcePort) →
      nat.RewrittenTo packet d PRE_ROUTING now k.answer) ∧
    (∀ m ∈ nat.mappings, ∀ m' ∈ nat.mappings, Live m w.now → Live m' w.now →
      m.protocol = m'.protocol → m.externalPort = m'.externalPort →
      m.remoteAddress = m'.remoteAddress → m.remotePort = m'.remotePort →
      m.internalAddress = m'.internalAddress ∧ m.internalPort = m'.internalPort) ∧
    (nat.Plain → ∀ k f packet d now, Whole packet d → w.now ≤ now → keyOf packet d = some k →
      nat.findForward k = some f →
      (nat.Fits now ∨ ∃ m ∈ nat.mappings, Live m now ∧ Returns m k) →
      nat.RewrittenTo packet d PRE_ROUTING now
        (k.moved false f.internalAddress f.internalPort)) ∧
    (nat.Plain → ∀ k k' f, (k, k') ∈ w.received → nat.findForward k = some f →
      ∀ packet d now, Whole packet d → w.now ≤ now → d.direction = VIRTUAL_INGRESS →
      keyOf packet d = some k'.answer → (∃ m ∈ nat.mappings, Live m now ∧ Returns m k) →
      (∀ m ∈ nat.mappings, Live m now → Carries m k'.answer →
        m.externalPort = k.destinationPort) →
      nat.RewrittenTo packet d POST_ROUTING now k.answer) := by
  have hrecorded := hrun.recorded haccepted
  refine ⟨?_, hrecorded.sound.agree, ?_, ?_⟩
  -- an answer finds a mapping of the sender, and all such mappings agree on the sender
  · rintro k k' hsent packet d now hwhole hnow hk ⟨m, hm, hlive, hcarries, hport⟩
    have hsound : nat.Sound now := hrecorded.sound.mono hnow
    obtain ⟨hnarrow, port, hmoved⟩ := hrecorded.sent _ hsent
    have hk' : k' = k.moved true nat.config.externalV4 port := hmoved
    subst hk'
    have hreturns : Returns m (k.moved true nat.config.externalV4 port).answer := by
      rw [show port = m.externalPort from hport.symm]
      exact returns_answer hcarries
    obtain ⟨m', hm', hlive', hreturns', hrewritten⟩ := rewrittenTo_of_live hsound hwhole hk hm
      hlive hreturns (.inl destination_answer)
    obtain ⟨haddress, hinternal⟩ :=
      hsound.internal_of_returns hm hm' hlive hlive' hreturns hreturns'
    obtain ⟨-, ha, -, hp, -⟩ := hcarries
    rwa [haddress, hinternal, ha, hp, moved_answer hnarrow] at hrewritten
  -- a forwarded packet makes a mapping, or meets the one it made
  · intro hplain k f packet d now hwhole hnow hk hf hroom
    have hsound : nat.Sound now := hrecorded.sound.mono hnow
    rcases hroom with hfits | ⟨m, hm, hlive, hreturns⟩
    · exact rewrittenTo_of_fits hsound hwhole hk hplain hf hfits
    · obtain ⟨m', hm', -, hreturns', hrewritten⟩ := rewrittenTo_of_live hsound hwhole hk hm hlive
        hreturns (.inr ⟨f, hf⟩)
      obtain ⟨haddress, hinternal⟩ := hsound.internal_of_plain hplain hf hm' hreturns'
      rwa [haddress, hinternal] at hrewritten
  -- the answer of the forwarded host goes out as if it came from the forwarded port
  · rintro hplain k k' f hreceived hf packet d now hwhole hnow hdirection hk ⟨m, hm, hlive, hreturns⟩
      halone
    have hsound : nat.Sound now := hrecorded.sound.mono hnow
    obtain ⟨hnarrow, hkey⟩ := hrecorded.received _ hreceived
    have hk' : k' = k.moved false f.internalAddress f.internalPort := hkey hplain f hf
    obtain ⟨hmem, hdestination, -, -⟩ := findForward_spec hf
    have hne := hsound.protocol_ne hf
    obtain ⟨haddress, hinternal⟩ := hsound.internal_of_plain hplain hf hm hreturns
    have hcarries : Carries m k'.answer := by
      rw [hk']
      exact carries_answer hne hreturns haddress hinternal
    obtain ⟨m', hm', hlive', hcarries', hrewritten⟩ :=
      rewrittenTo_of_carried hsound hwhole hk hdirection hm hlive hcarries
    rwa [halone m' hm' hlive' hcarries', hk', ← (hplain f hmem).1, hdestination,
      answer_moved hne hnarrow] at hrewritten

/-! ### Packets of three connections -/

def host : Bytes := [10, 0, 0, 2]

def server : Bytes := [10, 0, 0, 10]

def peer : Bytes := [198, 51, 100, 9]

/-- Two addresses of the outer side. -/
def external : Bytes := [203, 0, 113, 5]

def external' : Bytes := [203, 0, 113, 6]

/-- Ports 40000 to 40003 of the first address, and TCP port 443 of an address for port 8443 of the
server. -/
def configuration (forwarded : Bytes) : Bytes :=
  [0x4e, 0x41, 0x54, 0x31] ++ external ++ [0x40, 0x9c, 0x43, 0x9c, 0, 0, 1, 0] ++ zeros 32 ++
    forwarded ++ [0xbb, 1] ++ server ++ [0xfb, 0x20, 6, 0, 0, 0]

def key (protocol : UInt8) (source : Bytes) (sourcePort : UInt16) (destination : Bytes)
    (destinationPort : UInt16) : FlowKey :=
  ⟨4, protocol, .ofBytes source, .ofBytes destination, sourcePort, destinationPort⟩

/-- A packet with a key, with no checksum. -/
def packetOf (protocol : UInt8) (source : Bytes) (sourcePort : UInt16) (destination : Bytes)
    (destinationPort : UInt16) : Bytes :=
  ipv4 protocol source destination
    (beHalfBytes sourcePort ++ beHalfBytes destinationPort ++ zeros 16)

/-- The host asks a name server, and the peer connects to the forwarded port of an address. -/
def exchange (forwarded : Bytes) : List NatOp :=
  [⟨packetOf 17 host 41000 peer 53, descriptorOf 17 VIRTUAL_INGRESS, POST_ROUTING, 5⟩,
    ⟨packetOf 6 peer 50000 forwarded 443, descriptorOf 6 PHYSICAL_INGRESS, PRE_ROUTING, 6⟩]

/-- The extension and the history after some packets. -/
def after (start : Translator) (ops : List NatOp) : Option (Translator × NatLedger) :=
  runAll (watch step fun w op nat _ => w.note op nat) (fun x op => x.2.Admits op) ops
    (start, NatLedger.new)

theorem exists_runs (start ops) {P : Translator → NatLedger → Prop}
    [∀ nat w, Decidable (P nat w)] (h : (after start ops).any (fun x => P x.1 x.2) = true) :
    ∃ nat w, Runs start nat w ∧ P nat w := by
  obtain ⟨⟨nat, w⟩, hx⟩ := exists_steps _ ops h
  exact ⟨nat, w, hx⟩

/-- A query and a connection to a plain forward are answered. -/
theorem translations_undone_exchange : ∃ (start nat : Translator) (w : NatLedger),
      initial.configure (configuration external) = (true, start) ∧ Runs start nat w ∧
      nat.RewrittenTo (packetOf 17 peer 53 external 40000) (descriptorOf 17 PHYSICAL_INGRESS)
        PRE_ROUTING 7 (key 17 host 41000 peer 53).answer ∧
      nat.RewrittenTo (packetOf 6 peer 50001 external 443) (descriptorOf 6 PHYSICAL_INGRESS)
        PRE_ROUTING 7 ((key 6 peer 50001 external 443).moved false (.ofBytes server) 8443) ∧
      nat.RewrittenTo (packetOf 6 server 8443 peer 50000) (descriptorOf 6 VIRTUAL_INGRESS)
        POST_ROUTING 7 (key 6 peer 50000 external 443).answer := by
  let forward : Forward := ⟨.ofBytes external, 443, .ofBytes server, 8443, 6⟩
  have haccepted : (initial.configure (configuration external)).1 = true := by decide +kernel
  have hrun :
      (after (initial.configure (configuration external)).2 (exchange external)).any (fun x =>
        x.2.now ≤ 7 ∧ x.1.Plain ∧ x.1.mappings.length < MAX_NAT_MAPPINGS ∧
        (key 17 host 41000 peer 53, key 17 external 40000 peer 53) ∈ x.2.sent ∧
        (key 6 peer 50000 external 443, key 6 peer 50000 server 8443) ∈ x.2.received ∧
        x.1.findForward (key 6 peer 50000 external 443) = some forward ∧
        x.1.findForward (key 6 peer 50001 external 443) = some forward ∧
        (∃ m ∈ x.1.mappings, Live m 7 ∧ Carries m (key 17 host 41000 peer 53) ∧
          m.externalPort = (key 17 external 40000 peer 53).sourcePort) ∧
        (∃ m ∈ x.1.mappings, Live m 7 ∧ Returns m (key 6 peer 50000 external 443)) ∧
        ∀ m ∈ x.1.mappings, Live m 7 → Carries m (key 6 peer 50000 server 8443).answer →
          m.externalPort = (key 6 peer 50000 external 443).destinationPort) = true := by
    decide +kernel
  obtain ⟨⟨nat, w⟩, hruns, hnow, hplain, hroom, hsent, hreceived, hforward, hforward', hmapped,
    hopen, halone⟩ := exists_steps _ _ hrun
  have haccepts : initial.configure (configuration external) = (true, _) := Prod.ext haccepted rfl
  obtain ⟨hreplies, -, hforwards, hanswers⟩ := translations_undone haccepts hruns
  refine ⟨_, nat, w, haccepts, hruns, ?_, ?_, ?_⟩
  · exact hreplies _ _ hsent _ _ 7 (by decide +kernel) hnow (by decide +kernel) hmapped
  · exact hforwards hplain _ forward _ _ 7 (by decide +kernel) hnow (by decide +kernel) hforward'
      (.inl (.inl hroom))
  · exact hanswers hplain _ _ forward hreceived hforward _ _ 7 (by decide +kernel) hnow rfl
      (by decide +kernel) hopen halone

/-- The key of a packet that is translated. -/
def rewrittenKey (nat : Translator) (packet : Bytes) (d : PacketDescriptor) (hook : UInt8)
    (now : UInt64) : Option FlowKey :=
  match nat.translate packet d hook now with
  | some (.rewrite, packet', _) => keyOf packet' d
  | _ => none

/-- **Replies leave with another address than the peer had addressed**: the forward is of the
second address, and the packets of the server have the first. -/
theorem answered_elsewhere : ∃ (start nat : Translator) (w : NatLedger),
      initial.configure (configuration external') = (true, start) ∧ Runs start nat w ∧
      w.received = [(key 6 peer 50000 external' 443, key 6 peer 50000 server 8443)] ∧
      (∃ m ∈ nat.mappings, Live m 7 ∧ Returns m (key 6 peer 50000 external' 443)) ∧
      nat.rewrittenKey (packetOf 6 server 8443 peer 50000) (descriptorOf 6 VIRTUAL_INGRESS)
        POST_ROUTING 7 = some (key 6 external 443 peer 50000) ∧
      (key 6 peer 50000 external' 443).answer ≠ key 6 external 443 peer 50000 := by
  have haccepted : (initial.configure (configuration external')).1 = true := by decide +kernel
  obtain ⟨nat, w, hruns⟩ := exists_runs (initial.configure (configuration external')).2
    (exchange external') (P := fun nat w =>
      w.received = [(key 6 peer 50000 external' 443, key 6 peer 50000 server 8443)] ∧
      (∃ m ∈ nat.mappings, Live m 7 ∧ Returns m (key 6 peer 50000 external' 443)) ∧
      nat.rewrittenKey (packetOf 6 server 8443 peer 50000) (descriptorOf 6 VIRTUAL_INGRESS)
        POST_ROUTING 7 = some (key 6 external 443 peer 50000) ∧
      (key 6 peer 50000 external' 443).answer ≠ key 6 external 443 peer 50000)
    (by decide +kernel)
  exact ⟨_, nat, w, Prod.ext haccepted rfl, hruns⟩

end Translator

end NetworkExtension

end Bexos
