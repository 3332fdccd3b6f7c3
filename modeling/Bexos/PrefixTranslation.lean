/-
Translation of IPv6 prefixes.

`extensions/network/nat` gives an address another prefix and changes its last word so that the
sum of the words, which the checksums cover, stays what it was.

* `addressBit_copyPrefix` — a copied prefix, bit by bit;
* `Represents` — a word as a sum in one's complement, which has two zeros;
* **`nptv6_undone_iff`** — a translated address has the new prefix, the other bits and the sum of
  the old one, and is translated back to it if its last word was not 0;
* `translateNptv6_back` — so are the addresses in packets.

Design notes: the last word of a translated address is 0 for no address of a packet, since the
sum it makes up for is added to a complement.  So an address that ends in 0 comes back with
0xffff there.
-/
import Bexos.PacketRewriting

namespace Bexos

namespace NetworkExtension.Translator

/-! ### Sums in one's complement -/

/-- A word stands for a sum, up to multiples of 65535; it is 0 only for the sum 0. -/
def Represents (w : UInt16) (sum : ℕ) : Prop :=
  w.toNat % 65535 = sum % 65535 ∧ (w.toNat = 0 ↔ sum = 0)

theorem represents_self (w) : Represents w w.toNat := ⟨rfl, Iff.rfl⟩

variable {a b : UInt16} {m n : ℕ}

theorem toNat_onesAdd (a b) :
    (onesAdd a b).toNat = (a.toNat + b.toNat) % 65536 + (a.toNat + b.toNat) / 65536 := by
  have ha := a.toNat_lt
  have hb := b.toNat_lt
  simp only [onesAdd, UInt16.toNat_add, UInt16.toNat_ofNat']
  omega

/-- The carry is added at the other end. -/
theorem Represents.onesAdd (ha : Represents a m) (hb : Represents b n) :
    Represents (onesAdd a b) (m + n) := by
  obtain ⟨ham, hazero⟩ := ha
  obtain ⟨hbn, hbzero⟩ := hb
  have hsum := toNat_onesAdd a b
  constructor <;> omega

/-- Words that are not 0 are told apart by what they stand for. -/
theorem Represents.eq_iff (ha : Represents a m) (hm : m ≠ 0) (hmn : m % 65535 = b.toNat % 65535) :
    a = b ↔ b ≠ 0 := by
  obtain ⟨ham, hazero⟩ := ha
  have hzero : (0 : UInt16).toNat = 0 := rfl
  have halt := a.toNat_lt
  have hblt := b.toNat_lt
  rw [Ne, ← UInt16.toNat_inj, ← UInt16.toNat_inj]
  omega

/-- The sum of the words of an address. -/
def wordSum (bs : Bytes) : ℕ :=
  ((List.range (bs.length / 2)).map fun i => (beHalf (2 * i) bs).toNat).sum

theorem represents_addressSum (bs) : Represents (addressSum bs) (wordSum bs) := by
  unfold addressSum wordSum
  induction bs.length / 2 with
  | zero => exact represents_self 0
  | succ k ih =>
    rw [List.range_succ, List.foldl_append, List.map_append, List.sum_append]
    simpa using ih.onesAdd (represents_self (beHalf (2 * k) bs))

theorem beHalf_append_left {bs cs off} (h : off + 1 < bs.length) :
    beHalf off (bs ++ cs) = beHalf off bs := by
  simp only [beHalf, List.getD_eq_getElem?_getD]
  rw [List.getElem?_append_left (by omega), List.getElem?_append_left h]

theorem beHalf_append_right (bs cs) : beHalf bs.length (bs ++ cs) = beHalf 0 cs := by
  simp only [beHalf, List.getD_eq_getElem?_getD]
  rw [List.getElem?_append_right (Nat.le_refl _), List.getElem?_append_right (by omega)]
  simp

/-- One more word. -/
theorem wordSum_concat {bs} (heven : bs.length % 2 = 0) (w : UInt16) :
    wordSum (bs ++ beHalfBytes w) = wordSum bs + w.toNat := by
  have hlast : beHalf (2 * (bs.length / 2)) (bs ++ beHalfBytes w) = w := by
    rw [Nat.mul_div_cancel' (Nat.dvd_of_mod_eq_zero heven), beHalf_append_right,
      beHalf_beHalfBytes]
  rw [wordSum, wordSum, List.length_append, length_beHalfBytes, Nat.add_div_right _ (by decide),
    List.range_succ, List.map_append, List.sum_append, List.map_singleton, hlast,
    List.sum_singleton]
  refine congrArg (List.sum · + w.toNat) (List.map_congr_left fun i hi => ?_)
  have := List.mem_range.mp hi
  rw [beHalf_append_left (by omega)]

/-! ### Prefixes, bit by bit -/

/-- A bit of an address, from the most significant on. -/
def addressBit (i : ℕ) (bs : Bytes) : Bool := (bs.getD (i / 8) 0).toNat.testBit (7 - i % 8)

theorem byte_eq_of_bits {x y : UInt8}
    (h : ∀ k < 8, x.toNat.testBit (7 - k) = y.toNat.testBit (7 - k)) : x = y := by
  refine UInt8.toBitVec_inj.mp (BitVec.eq_of_getLsbD_eq fun k hk => ?_)
  have hbit := h (7 - k) (by omega)
  rwa [show 7 - (7 - k) = k by omega] at hbit

/-- The mask of the bits that a prefix has in its last byte. -/
theorem testBit_mask {length : UInt8} {k : ℕ} (hbits : length % 8 ≠ 0) (hk : k < 8) :
    (0xff <<< (8 - length % 8) : UInt8).toNat.testBit (7 - k) = decide (k < length.toNat % 8) := by
  have hall : ∀ r k : Fin 8, UInt8.ofNat r ≠ 0 →
      (0xff <<< (8 - UInt8.ofNat r) : UInt8).toNat.testBit (7 - k) = decide (k < r) := by decide
  have hmod : (length % 8).toNat = length.toNat % 8 := UInt8.toNat_mod length 8
  have hr := hall ⟨(length % 8).toNat, by omega⟩ ⟨k, hk⟩
  rw [UInt8.ofNat_toNat] at hr
  rw [hr hbits, ← hmod]
  rfl

theorem testBit_blend (x y mask : UInt8) {k} (hk : k < 8) :
    ((x &&& ~~~ mask) ||| (y &&& mask)).toNat.testBit k =
      if mask.toNat.testBit k then y.toNat.testBit k else x.toNat.testBit k := by
  show BitVec.getLsbD _ k = if BitVec.getLsbD mask.toBitVec k then _ else _
  rw [UInt8.toBitVec_or, UInt8.toBitVec_and, UInt8.toBitVec_and, UInt8.toBitVec_not,
    BitVec.getLsbD_or, BitVec.getLsbD_and, BitVec.getLsbD_and, BitVec.getLsbD_not]
  show _ = if _ then BitVec.getLsbD y.toBitVec k else BitVec.getLsbD x.toBitVec k
  cases BitVec.getLsbD mask.toBitVec k <;> simp [hk]

section Prefix

variable {v : Bytes} {s : Address} {length : UInt8} {i : ℕ}

/-- A copied prefix. -/
theorem addressBit_copyPrefix (hv : v.length = 16) (hlen : length.toNat ≤ 112) :
    addressBit i (copyPrefix v s length) =
      if i < length.toNat then addressBit i s.toList else addressBit i v := by
  have hbytes : (length / 8).toNat = length.toNat / 8 := UInt8.toNat_div length 8
  have hs : s.toList.length = 16 := s.toList_length
  have hjoin : ∀ j, (s.toList.take (length.toNat / 8) ++ v.drop (length.toNat / 8)).getD j 0 =
      if j < length.toNat / 8 then s.toList.getD j 0 else v.getD j 0 := fun j => by
    simp only [List.getD_eq_getElem?_getD, List.getElem?_append, List.length_take, hs,
      List.getElem?_take, List.getElem?_drop]
    grind
  unfold addressBit copyPrefix
  simp only [hbytes]
  by_cases hzero : length % 8 = 0
  · have : length.toNat % 8 = 0 := congrArg UInt8.toNat hzero
    rw [if_pos hzero, hjoin]
    grind
  · rw [if_neg hzero, List.getD_eq_getElem?_getD, List.getElem?_set]
    by_cases hi : length.toNat / 8 = i / 8
    · -- the byte in which the prefix ends
      have hlt : length.toNat / 8 <
          (s.toList.take (length.toNat / 8) ++ v.drop (length.toNat / 8)).length := by
        simp only [List.length_append, List.length_take, List.length_drop, hs, hv]
        omega
      rw [if_pos hi, if_pos hlt, Option.getD_some, testBit_blend _ _ _ (by omega), hjoin,
        if_neg (Nat.lt_irrefl _), hi, testBit_mask hzero (by omega)]
      grind
    · rw [if_neg hi, ← List.getD_eq_getElem?_getD, hjoin]
      grind

theorem addressBit_byte {j k} (hk : k < 8) (bs) :
    addressBit (8 * j + k) bs = (bs.getD j 0).toNat.testBit (7 - k) := by
  rw [addressBit, show (8 * j + k) / 8 = j by omega, show (8 * j + k) % 8 = k by omega]

/-- Bytes are told apart by their bits. -/
theorem take_eq_of_bits {xs ys : Bytes} {n : ℕ} (hlen : xs.length = ys.length)
    (h : ∀ i < 8 * n, addressBit i xs = addressBit i ys) : xs.take n = ys.take n := by
  refine List.ext_getElem (by simp [hlen]) fun j hj hj' => ?_
  rw [List.length_take] at hj hj'
  have heq : xs.getD j 0 = ys.getD j 0 := byte_eq_of_bits fun k hk => by
    rw [← addressBit_byte hk, ← addressBit_byte hk]
    exact h _ (by omega)
  simpa [List.getD_eq_getElem?_getD, show j < xs.length by omega,
    show j < ys.length by omega] using heq

/-- The check of a prefix. -/
theorem prefixMatches_iff {value : Address} :
    prefixMatches value s length = true ↔
      ∀ i < length.toNat, addressBit i value.toList = addressBit i s.toList := by
  have hbytes : (length / 8).toNat = length.toNat / 8 := UInt8.toNat_div length 8
  simp only [prefixMatches, decide_eq_true_eq, hbytes]
  constructor
  · rintro ⟨htake, hlast⟩ i hi
    obtain ⟨j, k, hk, rfl⟩ : ∃ j k, k < 8 ∧ i = 8 * j + k := ⟨i / 8, i % 8, by omega, by omega⟩
    rw [addressBit_byte hk, addressBit_byte hk]
    by_cases hj : j < length.toNat / 8
    · have hbyte := congrArg (·.getD j 0) htake
      simp only [List.getD_eq_getElem?_getD, List.getElem?_take, if_pos hj] at hbyte
      rw [List.getD_eq_getElem?_getD, List.getD_eq_getElem?_getD, hbyte]
    · obtain rfl : j = length.toNat / 8 := by omega
      have hzero : length % 8 ≠ 0 := fun hzero => by
        have : length.toNat % 8 = 0 := congrArg UInt8.toNat hzero
        omega
      have hbit := congrArg (fun x : UInt8 => x.toNat.testBit (7 - k)) (hlast.resolve_left hzero)
      simpa only [UInt8.toNat_and, Nat.testBit_and, testBit_mask hzero hk,
        show k < length.toNat % 8 by omega, decide_true, Bool.and_true] using hbit
  · intro h
    refine ⟨take_eq_of_bits (by simp) fun i hi => h i (by omega), ?_⟩
    refine or_iff_not_imp_left.mpr fun hzero => byte_eq_of_bits fun k hk => ?_
    simp only [UInt8.toNat_and, Nat.testBit_and, testBit_mask hzero hk]
    by_cases hlt : k < length.toNat % 8
    · rw [← addressBit_byte hk, ← addressBit_byte hk, h _ (by omega)]
    · simp only [hlt, decide_false, Bool.and_false]

end Prefix

/-! ### Translated addresses -/

section Addresses

variable (value source : Address) {length : UInt8}

/-- All but the last word of a translated address. -/
def retained (length : UInt8) : Bytes := (copyPrefix value.toList source length).take 14

/-- The last word of a translated address. -/
def adjustment (length : UInt8) : UInt16 :=
  onesAdd (addressSum value.toList)
    (~~~ addressSum (retained value source length ++ beHalfBytes 0))

variable (hlen : length.toNat ≤ 112)

include hlen

theorem length_copyPrefix : (copyPrefix value.toList source length).length = 16 := by
  have hbytes : (length / 8).toNat = length.toNat / 8 := UInt8.toNat_div length 8
  unfold copyPrefix
  simp only [hbytes]
  split <;> simp <;> omega

theorem length_retained : (retained value source length).length = 14 := by
  rw [retained, List.length_take, length_copyPrefix value source hlen]
  rfl

theorem checksumNeutralPrefix_eq : checksumNeutralPrefix value source length =
    retained value source length ++ beHalfBytes (adjustment value source length) := by
  have hcopy := length_copyPrefix value source hlen
  have hzero : splice 14 [0, 0] (copyPrefix value.toList source length) =
      retained value source length ++ beHalfBytes 0 := by
    rw [splice, List.drop_eq_nil_of_le (by simp [hcopy]), List.append_nil]
    rfl
  have hretained := length_retained value source hlen
  unfold checksumNeutralPrefix
  simp only [hzero]
  rw [splice, List.take_left' hretained, List.drop_eq_nil_of_le (by simp [hretained]),
    List.append_nil]
  rfl

/-- The last word makes up for the change of the prefix. -/
theorem represents_adjustment : ∃ rest : UInt16,
    Represents rest (wordSum (retained value source length)) ∧
    Represents (adjustment value source length) (wordSum value.toList + (65535 - rest.toNat)) := by
  have heven : (retained value source length).length % 2 = 0 := by
    rw [length_retained value source hlen]
  have hrest := represents_addressSum (retained value source length ++ beHalfBytes 0)
  rw [wordSum_concat heven] at hrest
  refine ⟨_, hrest, (represents_addressSum _).onesAdd ?_⟩
  have hnot := represents_self (~~~ addressSum (retained value source length ++ beHalfBytes 0))
  rwa [UInt16.toNat_not] at hnot

theorem wordSum_translated : wordSum (checksumNeutralPrefix value source length) =
    wordSum (retained value source length) + (adjustment value source length).toNat := by
  rw [checksumNeutralPrefix_eq value source hlen,
    wordSum_concat (by rw [length_retained value source hlen])]

theorem addressBit_translated {i} (hi : i < 112) :
    addressBit i (checksumNeutralPrefix value source length) =
      if i < length.toNat then addressBit i source.toList else addressBit i value.toList := by
  have hretained := length_retained value source hlen
  rw [← addressBit_copyPrefix value.toList_length hlen, checksumNeutralPrefix_eq value source hlen]
  unfold addressBit
  rw [List.getD_eq_getElem?_getD, List.getElem?_append_left (by omega), retained,
    List.getElem?_take, if_pos (by omega), List.getD_eq_getElem?_getD]

end Addresses

theorem beHalfBytes_beHalf (x y) : beHalfBytes (beHalf 0 [x, y]) = [x, y] := by
  have hx := x.toNat_lt
  have hy := y.toNat_lt
  have hw : (beHalf 0 [x, y]).toNat = x.toNat * 256 + y.toNat := by
    simp [beHalf]
    omega
  unfold beHalfBytes
  congr 1
  · apply UInt8.toNat_inj.mp
    simp [Nat.shiftRight_eq_div_pow, hw]
    omega
  · congr 1
    apply UInt8.toNat_inj.mp
    simp [hw]

/-- The last word of an address. -/
theorem toList_address (a : Address) :
    a.toList = a.toList.take 14 ++ beHalfBytes (beHalf 14 a.toList) := by
  obtain ⟨x, y, hxy⟩ := List.length_eq_two.mp (show (a.toList.drop 14).length = 2 by simp)
  have hslice : slice 14 2 a.toList = [x, y] := by rw [slice, hxy]; rfl
  rw [← beHalf_slice, hslice, beHalfBytes_beHalf, ← hxy, List.take_append_drop]

section Back

variable {internal external value out : Address} {length : UInt8} (hlen : length.toNat ≤ 112)
  (hout : out.toList = checksumNeutralPrefix value external length)

include hlen hout

theorem addressBit_out {i} (hi : i < 112) : addressBit i out.toList =
    if i < length.toNat then addressBit i external.toList else addressBit i value.toList :=
  hout ▸ addressBit_translated value external hlen hi

theorem prefixMatches_out : prefixMatches out external length = true :=
  prefixMatches_iff.mpr fun i hi => by rw [addressBit_out hlen hout (by omega), if_pos hi]

/-- Translated back, an address differs at most in its last word, and there only if that was 0. -/
theorem translated_back_iff (hin : prefixMatches value internal length = true) :
    checksumNeutralPrefix out internal length = value.toList ↔ beHalf 14 value.toList ≠ 0 := by
  have hkept : retained out internal length = value.toList.take 14 := by
    refine take_eq_of_bits ?_ fun i hi => ?_
    · rw [length_copyPrefix _ _ hlen, value.toList_length]
    · rw [addressBit_copyPrefix out.toList_length hlen, addressBit_out hlen hout (by omega)]
      split
      · rename_i hlt
        exact (prefixMatches_iff.mp hin i hlt).symm
      · rfl
  -- the sums before and after each translation, up to multiples of 65535
  have hsum : wordSum out.toList = _ := hout ▸ wordSum_translated value external hlen
  have hvalue : wordSum value.toList = _ := (congrArg wordSum (toList_address value)).trans
    (wordSum_concat (by simp) _)
  obtain ⟨rest, ⟨hmod, hzero⟩, hadjust, hnone⟩ := represents_adjustment value external hlen
  obtain ⟨rest', hrest', hlast⟩ := represents_adjustment out internal hlen
  have hlt := rest.toNat_lt
  have hlt' := rest'.toNat_lt
  rw [hkept] at hrest'
  obtain ⟨hmod', -⟩ := hrest'
  rw [hsum] at hlast
  rw [← hlast.eq_iff (by omega) (by omega), checksumNeutralPrefix_eq _ _ hlen, hkept]
  conv_lhs => rhs; rw [toList_address value]
  rw [List.append_cancel_left_eq]
  refine ⟨fun heq => ?_, congrArg beHalfBytes⟩
  rw [← beHalf_beHalfBytes (adjustment out internal length), heq, beHalf_beHalfBytes]

end Back

theorem exists_translated (value external : Address) {length : UInt8}
    (hlen : length.toNat ≤ 112) :
    ∃ out : Address, out.toList = checksumNeutralPrefix value external length := by
  refine ⟨⟨checksumNeutralPrefix value external length, ?_⟩, rfl⟩
  rw [checksumNeutralPrefix_eq _ _ hlen, List.length_append, length_retained _ _ hlen]
  rfl

/-- **Prefix translation.** What leaves has the external prefix, the other bits and, modulo 65535,
the sum of the address; what comes back is the address if it does not end in 0. -/
theorem nptv6_undone_iff (internal external value : Address) {length : UInt8}
    (hlen : length.toNat ≤ 112) (hin : prefixMatches value internal length = true) :
    ∃ out : Address, out.toList = checksumNeutralPrefix value external length ∧
      prefixMatches out external length = true ∧
      (∀ i < 112, addressBit i out.toList =
        if i < length.toNat then addressBit i external.toList else addressBit i value.toList) ∧
      wordSum out.toList % 65535 = wordSum value.toList % 65535 ∧
      (checksumNeutralPrefix out internal length = value.toList ↔
        beHalf 14 value.toList ≠ 0) := by
  obtain ⟨out, hout⟩ := exists_translated value external hlen
  refine ⟨out, hout, prefixMatches_out hlen hout, fun i hi => addressBit_out hlen hout hi, ?_,
    translated_back_iff hlen hout hin⟩
  have hsum : wordSum out.toList = _ := hout ▸ wordSum_translated value external hlen
  obtain ⟨rest, ⟨hmod, -⟩, hadjust, -⟩ := represents_adjustment value external hlen
  have hlt := rest.toNat_lt
  omega

/-- The packets: the source of a packet that leaves is translated, and the destination of a packet
that comes back to it is translated back, unless the address ends in 0. -/
theorem translateNptv6_back {nat : Translator} {d d' : PacketDescriptor} {t : FlowKey}
    (hon : nat.config.prefixLen ≠ 0) (hlen : nat.config.prefixLen.toNat ≤ 112)
    (hd : d.direction = VIRTUAL_INGRESS) (hd' : d'.direction = PHYSICAL_INGRESS)
    (hin : prefixMatches t.source nat.config.internalV6 nat.config.prefixLen = true) :
    ∃ out : Address, ∀ packet, translateNptv6 packet d t POST_ROUTING nat =
        (.rewrite, splice (d.l3Offset.toNat + 8) out.toList packet) ∧
      ∀ t' : FlowKey, t'.destination = out → beHalf 14 t.source.toList ≠ 0 →
        translateNptv6 packet d' t' PRE_ROUTING nat =
          (.rewrite, splice (d'.l3Offset.toNat + 24) t.source.toList packet) := by
  obtain ⟨out, hout⟩ := exists_translated t.source nat.config.externalV6 hlen
  refine ⟨out, fun packet => ⟨?_, fun t' ht' hword => ?_⟩⟩
  · simp only [translateNptv6, hon, hd, hin, hout, and_self, if_true, if_false]
  · have hhook : ¬ PRE_ROUTING = POST_ROUTING := by decide
    simp only [translateNptv6, hon, hd', hhook, ht', prefixMatches_out hlen hout,
      (translated_back_iff hlen hout hin).mpr hword, false_and, and_self, if_true, if_false]

/-- With the prefixes fd00::/64 inside and 2001:db8:0:1::/64 outside, the address fd00::1:0 comes
back as fd00::1:ffff. -/
theorem nptv6_not_undone :
    prefixMatches (.ofBytes [0xfd, 0, 0, 0, 0, 0, 0, 0, 0, 0, 0, 0, 0, 1]) (.ofBytes [0xfd]) 64 = true ∧
    checksumNeutralPrefix (.ofBytes [0xfd, 0, 0, 0, 0, 0, 0, 0, 0, 0, 0, 0, 0, 1])
        (.ofBytes [0x20, 0x01, 0x0d, 0xb8, 0, 1]) 64 =
      [0x20, 0x01, 0x0d, 0xb8, 0, 1, 0, 0, 0, 0, 0, 0, 0, 1, 0xcf, 0x46] ∧
    checksumNeutralPrefix
        (.ofBytes [0x20, 0x01, 0x0d, 0xb8, 0, 1, 0, 0, 0, 0, 0, 0, 0, 1, 0xcf, 0x46])
        (.ofBytes [0xfd]) 64 =
      [0xfd, 0, 0, 0, 0, 0, 0, 0, 0, 0, 0, 0, 0, 1, 0xff, 0xff] := by decide +kernel

/-- The address fd00::1234:5678:9abc:def0 comes back. -/
theorem nptv6_undone_host : ∃ out : Address,
    checksumNeutralPrefix out (.ofBytes [0xfd]) 64 =
      [0xfd, 0, 0, 0, 0, 0, 0, 0, 0x12, 0x34, 0x56, 0x78, 0x9a, 0xbc, 0xde, 0xf0] := by
  obtain ⟨out, -, -, -, -, hback⟩ := nptv6_undone_iff (.ofBytes [0xfd])
    (.ofBytes [0x20, 0x01, 0x0d, 0xb8, 0, 1])
    (.ofBytes [0xfd, 0, 0, 0, 0, 0, 0, 0, 0x12, 0x34, 0x56, 0x78, 0x9a, 0xbc, 0xde, 0xf0])
    (show (64 : UInt8).toNat ≤ 112 by decide) (by decide +kernel)
  exact ⟨out, (hback.mpr (by decide +kernel)).trans (by decide +kernel)⟩

end NetworkExtension.Translator

end Bexos
