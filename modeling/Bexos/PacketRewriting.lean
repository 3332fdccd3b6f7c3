/-
Rewritten packets.

* `Whole` — the IPv4 packets whose translation is followed;
* `slice_rewriteEndpoint` — what the bytes of a rewritten packet are;
* **`tuple_rewriteEndpoint`** — a rewritten packet has the endpoint that it was given.
-/
import Bexos.AddressTranslation

namespace Bexos

/-! ### Half words -/

theorem beHalf_slice (off : ℕ) (bs : Bytes) : beHalf 0 (slice off 2 bs) = beHalf off bs := by
  have h0 : (slice off 2 bs).getD 0 0 = bs.getD off 0 := by
    simp [slice, List.getD_eq_getElem?_getD]
  have h1 : (slice off 2 bs).getD (0 + 1) 0 = bs.getD (off + 1) 0 := by
    simp [slice, List.getD_eq_getElem?_getD]
  rw [beHalf, beHalf, h0, h1]

theorem beHalf_beHalfBytes (w) : beHalf 0 (beHalfBytes w) = w := by
  apply UInt16.toNat_inj.mp
  have hlt := w.toNat_lt
  simp [beHalf, beHalfBytes, Nat.shiftRight_eq_div_pow]
  omega

namespace NetworkExtension

/-! ### Rewritten packets -/

/-- A whole IPv4 packet of TCP, UDP or an ICMP echo, with its headers in their order. -/
structure Whole (packet : Bytes) (d : PacketDescriptor) : Prop where
  version : d.ipVersion = 4
  whole : fragment packet d = none
  order : d.l3Offset.toNat + 20 ≤ d.l4Offset.toNat
  transport : d.protocol = 6 ∧ d.l4Offset.toNat + 20 ≤ packet.length ∨
    d.protocol = 17 ∧ d.l4Offset.toNat + 8 ≤ packet.length ∨
    d.protocol = 1 ∧ d.l4Offset.toNat + 8 ≤ packet.length ∧
      (packet.getD d.l4Offset.toNat 0 = 0 ∨ packet.getD d.l4Offset.toNat 0 = 8)

instance (packet : Bytes) (d : PacketDescriptor) : Decidable (Whole packet d) :=
  decidable_of_iff (d.ipVersion = 4 ∧ fragment packet d = none ∧
      d.l3Offset.toNat + 20 ≤ d.l4Offset.toNat ∧
      (d.protocol = 6 ∧ d.l4Offset.toNat + 20 ≤ packet.length ∨
        d.protocol = 17 ∧ d.l4Offset.toNat + 8 ≤ packet.length ∨
        d.protocol = 1 ∧ d.l4Offset.toNat + 8 ≤ packet.length ∧
          (packet.getD d.l4Offset.toNat 0 = 0 ∨ packet.getD d.l4Offset.toNat 0 = 8)))
    ⟨fun h => ⟨h.1, h.2.1, h.2.2.1, h.2.2.2⟩, fun h => ⟨h.1, h.2, h.3, h.4⟩⟩

/-- The bytes that no checksum of the transport is in. -/
def Untouched (d : PacketDescriptor) (off len : ℕ) : Prop :=
  off + len ≤ d.l4Offset.toNat ∨
    (d.protocol = 6 ∨ d.protocol = 17) ∧ off + len ≤ d.l4Offset.toNat + 4 ∨
    d.protocol = 1 ∧ d.l4Offset.toNat + 4 ≤ off

variable {packet : Bytes} {d : PacketDescriptor}

theorem Whole.length_le (h : Whole packet d) : d.l4Offset.toNat + 8 ≤ packet.length := by
  rcases h.transport with h | h | h <;> omega

@[simp] theorem length_beHalfBytes (w) : (beHalfBytes w).length = 2 := rfl

/-- A change of the checksum keeps the length and the bytes elsewhere. -/
theorem patchTransport_cases (d : PacketDescriptor) (f : UInt16 → UInt16) (packet : Bytes) :
    patchTransport d f packet = packet ∨
      ∃ offset w, patchTransport d f packet = splice offset (beHalfBytes w) packet ∧
        offset + 2 ≤ packet.length ∧
        (d.protocol = 6 ∧ offset = d.l4Offset.toNat + 16 ∨
          d.protocol = 17 ∧ offset = d.l4Offset.toNat + 6 ∨
          (d.protocol = 1 ∨ d.protocol = 58) ∧ offset = d.l4Offset.toNat + 2) := by
  rw [patchTransport]
  cases hoff : transportChecksum packet d with
  | none => exact .inl rfl
  | some offset =>
    refine .inr ⟨offset, _, rfl, ?_⟩
    rw [transportChecksum, Option.filter_eq_some_iff] at hoff
    obtain ⟨hoffset, hcheck⟩ := hoff
    refine ⟨(of_decide_eq_true hcheck).1, ?_⟩
    split at hoffset
    · rename_i hp
      cases hoffset
      exact .inl ⟨hp, rfl⟩
    split at hoffset
    · rename_i hp
      cases hoffset
      exact .inr (.inl ⟨hp, rfl⟩)
    split at hoffset
    · rename_i hp
      cases hoffset
      exact .inr (.inr ⟨hp, rfl⟩)
    · cases hoffset

theorem length_patchTransport (f : UInt16 → UInt16) :
    (patchTransport d f packet).length = packet.length := by
  rcases patchTransport_cases d f packet with h | ⟨offset, w, h, hlen, -⟩
  · rw [h]
  · rw [h, length_splice hlen]

theorem slice_patchTransport (f : UInt16 → UInt16) {off len} (huntouched : Untouched d off len) :
    slice off len (patchTransport d f packet) = slice off len packet := by
  rcases patchTransport_cases d f packet with h | ⟨offset, w, h, hlen, hoffset⟩
  · rw [h]
  · rw [h, slice_splice_of_disjoint hlen]
    rw [length_beHalfBytes]
    rcases huntouched with h | ⟨hp, h⟩ | ⟨hp, h⟩
    · omega
    · rcases hoffset with ⟨hq, rfl⟩ | ⟨hq, rfl⟩ | ⟨hq, rfl⟩
      · omega
      · omega
      · rcases hp with hp | hp <;> rcases hq with hq | hq <;>
          exact absurd (hp.symm.trans hq) (by decide)
    · rcases hoffset with ⟨hq, rfl⟩ | ⟨hq, rfl⟩ | ⟨hq, rfl⟩
      · exact absurd (hp.symm.trans hq) (by decide)
      · exact absurd (hp.symm.trans hq) (by decide)
      · omega

theorem length_updateTransport (old new) :
    (updateTransportAddressChecksum d old new packet).length = packet.length := by
  rw [updateTransportAddressChecksum]
  split
  · rfl
  · exact length_patchTransport _

theorem slice_updateTransport (old new) {off len} (h : Untouched d off len) :
    slice off len (updateTransportAddressChecksum d old new packet) = slice off len packet := by
  rw [updateTransportAddressChecksum]
  split
  · rfl
  · exact slice_patchTransport _ h

/-- Where an address is in the header. -/
def addressOffset (d : PacketDescriptor) (source : Bool) : ℕ :=
  if source then d.l3Offset.toNat + 12 else d.l3Offset.toNat + 16

theorem addressOffset_bounds (d source) :
    d.l3Offset.toNat + 12 ≤ addressOffset d source ∧
      addressOffset d source + 4 ≤ d.l3Offset.toNat + 20 := by
  cases source <;> simp only [addressOffset, if_true, if_false, Bool.false_eq_true] <;> omega

theorem length_toList4 (a : Address4) : a.toList.length = 4 := a.toList_length

/-- An address is written over a packet whose checksums were changed. -/
theorem rewriteV4Address_eq (d : PacketDescriptor) (packet : Bytes) (source : Bool)
    (old new : Address4)
    (hlen : d.l3Offset.toNat + 20 ≤ packet.length) :
    ∃ inner : Bytes, rewriteV4Address d source old new packet =
        splice (addressOffset d source) new.toList inner ∧ inner.length = packet.length ∧
      ∀ {off len : ℕ}, Untouched d off len →
        off + len ≤ d.l3Offset.toNat + 10 ∨ d.l3Offset.toNat + 12 ≤ off →
          slice off len inner = slice off len packet := by
  refine ⟨splice (d.l3Offset.toNat + 10) _ (updateTransportAddressChecksum d _ _ packet), rfl,
    ?_, ?_⟩
  · rw [length_splice, length_updateTransport]
    rw [length_beHalfBytes, length_updateTransport]
    omega
  · intro off len huntouched hchecksum
    rw [slice_splice_of_disjoint, slice_updateTransport _ _ huntouched]
    · rw [length_beHalfBytes, length_updateTransport]
      omega
    · rw [length_beHalfBytes]
      omega

/-- The endpoint of a tuple that a rewrite changes. -/
def FlowKey.moved (k : FlowKey) (source : Bool) (address : Address4) (port : UInt16) : FlowKey :=
  if source then { k with source := extend address, sourcePort := port }
  else if k.protocol = 1 then { k with destination := extend address, sourcePort := port }
  else { k with destination := extend address, destinationPort := port }

/-- What a rewritten packet reads. -/
theorem slice_rewriteEndpoint (hwhole : Whole packet d) (source : Bool) (old new : Address4)
    (oldPort newPort : UInt16) :
    ∃ packet', Translator.rewriteEndpoint d d.protocol source old new oldPort newPort packet =
        some packet' ∧ packet'.length = packet.length ∧
      slice (addressOffset d source) 4 packet' = new.toList ∧
      slice (addressOffset d (!source)) 4 packet' = slice (addressOffset d (!source)) 4 packet ∧
      slice (portOffset d d.protocol source) 2 packet' = beHalfBytes newPort ∧
      ∀ off, d.l4Offset.toNat ≤ off → Untouched d off 2 →
        off + 2 ≤ portOffset d d.protocol source ∨ portOffset d d.protocol source + 2 ≤ off →
        slice off 2 packet' = slice off 2 packet := by
  have hlength := hwhole.length_le
  have horder := hwhole.order
  have hport : d.l4Offset.toNat ≤ portOffset d d.protocol source ∧
      portOffset d d.protocol source + 2 ≤ d.l4Offset.toNat + 6 := by
    rw [portOffset]
    split
    · omega
    · split <;> omega
  have haddress : ∀ b, d.l3Offset.toNat + 12 ≤ addressOffset d b ∧
      addressOffset d b + 4 ≤ d.l3Offset.toNat + 20 := addressOffset_bounds d
  obtain ⟨inner, heq, hinner, hkeep⟩ := rewriteV4Address_eq d packet source old new (by omega)
  have hfits : addressOffset d source + new.toList.length ≤ inner.length := by
    rw [length_toList4, hinner]
    have := haddress source
    omega
  -- the packet before the port is written
  generalize hpatched : patchTransport d (replaceChecksumWord · oldPort newPort)
    (rewriteV4Address d source old new packet) = patched
  have hpatchedLength : patched.length = packet.length := by
    rw [← hpatched, length_patchTransport, heq, length_splice hfits, hinner]
  have hpatchedSlice : ∀ {off len : ℕ}, Untouched d off len →
      slice off len patched = slice off len (splice (addressOffset d source) new.toList inner) := by
    intro off len huntouched
    rw [← hpatched, slice_patchTransport _ huntouched, heq]
  have hroom : portOffset d d.protocol source + (beHalfBytes newPort).length ≤ patched.length := by
    rw [length_beHalfBytes, hpatchedLength]
    omega
  -- bytes of the header are before the ports
  have hheader : ∀ b, slice (addressOffset d b) 4
      (splice (portOffset d d.protocol source) (beHalfBytes newPort) patched) =
      slice (addressOffset d b) 4 (splice (addressOffset d source) new.toList inner) := by
    intro b
    have := haddress b
    rw [slice_splice_of_disjoint hroom (.inl (by omega)), hpatchedSlice (.inl (by omega))]
  refine ⟨splice (portOffset d d.protocol source) (beHalfBytes newPort) patched, ?_, ?_, ?_, ?_, ?_,
    ?_⟩
  · rw [Translator.rewriteEndpoint, if_pos (by omega), rewritePort, hpatched]
  · rw [length_splice hroom, hpatchedLength]
  · have hself := slice_splice_self hfits
    rw [length_toList4] at hself
    rw [hheader, hself]
  · have := haddress (!source)
    rw [hheader, slice_splice_of_disjoint hfits, hkeep (.inl (by omega)) (.inr (by omega))]
    rw [length_toList4]
    cases source <;> simp only [addressOffset, Bool.not_true, Bool.not_false, if_true, if_false,
      Bool.false_eq_true] <;> omega
  · exact slice_splice_self hroom
  · intro off hoff huntouched hapart
    have := haddress source
    rw [slice_splice_of_disjoint hroom hapart, hpatchedSlice huntouched,
      slice_splice_of_disjoint hfits (.inr (by rw [length_toList4]; omega)),
      hkeep huntouched (.inr (by omega))]

/-! ### Tuples -/

theorem v4_extend (a : Address4) : v4 (extend a) = a := by
  have htake : (extend a).toList.take a.toList.length = a.toList :=
    Buffer.take_put (by rw [length_toList4]; decide) _
  rw [length_toList4] at htake
  rw [v4, htake, Buffer.ofBytes_toList]

/-- The key of an IPv4 packet, with what it was read from. -/
theorem tuple_eq (packet : Bytes) (hversion : d.ipVersion = 4)
    (hlen : d.l3Offset.toNat + 20 ≤ packet.length) :
    tuple packet d = some
      ⟨⟨4, d.protocol, .ofBytes (slice (addressOffset d true) 4 packet),
        .ofBytes (slice (addressOffset d false) 4 packet),
        (ports d.protocol d.l4Offset.toNat packet).1,
        (ports d.protocol d.l4Offset.toNat packet).2⟩, d.fragmentFlags ≠ 0⟩ := by
  rw [tuple, addresses, hversion, if_pos rfl, if_pos hlen]
  rfl

/-- The ports, or the identifier, of a whole packet. -/
theorem Whole.ports_eq (h : Whole packet d) {packet'} (hlength : packet'.length = packet.length) :
    ports d.protocol d.l4Offset.toNat packet' =
      if d.protocol = 1 then (beHalf (d.l4Offset.toNat + 4) packet', 0)
      else (beHalf d.l4Offset.toNat packet', beHalf (d.l4Offset.toNat + 2) packet') := by
  have hlen := h.length_le
  rw [ports]
  rcases h.transport with ⟨hp, -⟩ | ⟨hp, -⟩ | ⟨hp, -⟩
  · rw [if_pos ⟨.inl hp, by omega⟩, if_neg (by rw [hp]; decide)]
  · rw [if_pos ⟨.inr hp, by omega⟩, if_neg (by rw [hp]; decide)]
  · rw [if_neg (fun hq => absurd hq.1 (by rw [hp]; decide)), if_pos ⟨.inl hp, by omega⟩, if_pos hp]

/-- The keys of whole packets: IPv4 addresses, and no second port of an ICMP echo. -/
structure FlowKey.Narrow (k : FlowKey) : Prop where
  source : extend (v4 k.source) = k.source
  destination : extend (v4 k.destination) = k.destination
  echo : k.protocol = 1 → k.destinationPort = 0

theorem extend_v4_ofBytes {bs} (h : bs.length = 4) : extend (v4 (.ofBytes bs)) = .ofBytes bs := by
  have hself : (.ofBytes bs : Address4).toList = bs := List.take_left' h
  have hwide : (.ofBytes bs : Address) = extend (.ofBytes bs) := by rw [extend, hself]
  rw [hwide, v4_extend]

theorem Whole.exists_tuple (h : Whole packet d) : ∃ t, tuple packet d = some t :=
  ⟨_, tuple_eq packet h.version (by have := h.length_le; have := h.order; omega)⟩

theorem Whole.narrow {t} (h : Whole packet d) (ht : tuple packet d = some t) :
    t.toFlowKey.Narrow := by
  have hlength := h.length_le
  have horder := h.order
  have htuple := tuple_eq packet h.version (by omega)
  rw [ht, Option.some_inj] at htuple
  subst htuple
  have haddress : ∀ b, (slice (addressOffset d b) 4 packet).length = 4 := by
    intro b
    have := addressOffset_bounds d b
    rw [slice, List.length_take, List.length_drop]
    omega
  refine ⟨extend_v4_ofBytes (haddress true), extend_v4_ofBytes (haddress false), ?_⟩
  intro hicmp
  show (ports d.protocol d.l4Offset.toNat packet).2 = 0
  rw [h.ports_eq rfl, if_pos hicmp]

/-- **A rewritten packet has the endpoint that it was given.** -/
theorem tuple_rewriteEndpoint {t : Tuple} (hwhole : Whole packet d)
    (ht : tuple packet d = some t) (source : Bool) (old new : Address4) (oldPort newPort : UInt16) :
    ∃ packet', Translator.rewriteEndpoint d t.protocol source old new oldPort newPort packet =
        some packet' ∧ tuple packet' d = some ⟨t.moved source new newPort, t.fragment⟩ := by
  have hlength := hwhole.length_le
  have horder := hwhole.order
  obtain ⟨packet', hrun, hlen', haddress, hother, hport, hkept⟩ :=
    slice_rewriteEndpoint hwhole source old new oldPort newPort
  have htuple := tuple_eq packet hwhole.version (by omega)
  rw [ht, Option.some_inj] at htuple
  subst htuple
  refine ⟨packet', hrun, ?_⟩
  have hnew : beHalf (portOffset d d.protocol source) packet' = newPort := by
    rw [← beHalf_slice, hport, beHalf_beHalfBytes]
  have hold : ∀ off, d.l4Offset.toNat ≤ off → Untouched d off 2 →
      off + 2 ≤ portOffset d d.protocol source ∨ portOffset d d.protocol source + 2 ≤ off →
      beHalf off packet' = beHalf off packet := by
    intro off hoff huntouched hapart
    rw [← beHalf_slice, hkept off hoff huntouched hapart, beHalf_slice]
  rw [tuple_eq packet' hwhole.version (by omega), hwhole.ports_eq rfl, hwhole.ports_eq hlen']
  -- an echo has one identifier, where the other protocols have two ports
  by_cases hicmp : d.protocol = 1
  · have hoffset : portOffset d d.protocol source = d.l4Offset.toNat + 4 := by
      rw [portOffset, if_pos (.inl hicmp)]
    rw [hoffset] at hnew
    simp only [if_pos hicmp, hnew]
    cases source with
    | true =>
      rw [Bool.not_true] at hother
      rw [haddress, hother]
      rfl
    | false =>
      rw [Bool.not_false] at hother
      rw [haddress, hother, FlowKey.moved, if_neg Bool.false_ne_true, if_pos hicmp]
      rfl
  · have hports : d.protocol = 6 ∨ d.protocol = 17 := by
      rcases hwhole.transport with ⟨hp, -⟩ | ⟨hp, -⟩ | ⟨hp, -⟩
      · exact .inl hp
      · exact .inr hp
      · exact absurd hp hicmp
    have hnot : ¬ (d.protocol = 1 ∨ d.protocol = 58) := by
      rcases hports with hp | hp <;> rw [hp] <;> decide
    simp only [if_neg hicmp]
    cases source with
    | true =>
      have hoffset : portOffset d d.protocol true = d.l4Offset.toNat := by
        rw [portOffset, if_neg hnot, if_pos rfl]
      rw [hoffset] at hnew hold
      rw [Bool.not_true] at hother
      rw [haddress, hother, hnew,
        hold (d.l4Offset.toNat + 2) (by omega) (.inr (.inl ⟨hports, by omega⟩)) (.inr (by omega))]
      rfl
    | false =>
      have hoffset : portOffset d d.protocol false = d.l4Offset.toNat + 2 := by
        rw [portOffset, if_neg hnot, if_neg Bool.false_ne_true]
      rw [hoffset] at hnew hold
      rw [Bool.not_false] at hother
      rw [haddress, hother, hnew,
        hold d.l4Offset.toNat (by omega) (.inr (.inl ⟨hports, by omega⟩)) (.inl (by omega)),
        FlowKey.moved, if_neg Bool.false_ne_true, if_neg hicmp]
      rfl

end NetworkExtension

end Bexos
