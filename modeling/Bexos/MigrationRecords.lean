/-
Versioned records and their envelope (`lib/migration/src/records.rs`, `codec.rs`).

A record is sent as six words, its payload with its length, and a checksum over all of
that.  `Record.decode` undoes `Record.encode`, and accepts nothing else.

* `Record.decode_eq_ok` — what is accepted, exactly;
* `checksum_set_ne` — the checksum sees every change of one byte;
* `record_envelope` — round trip, canonicity and detection of a changed byte.

Design notes: the state of a `Decoder` is the input that is left, so the offset of the
source is not needed.  `usize` is a 64-bit word.
-/
import Bexos.Codec
import Bexos.Migration

namespace Bexos

open Prog

/-! ### The codec -/

/-- A running checksum: each byte is mixed in and the whole multiplied by a prime. -/
def checksum (bytes : Bytes) : UInt64 :=
  bytes.foldl (fun h b => (h ^^^ b.toUInt64) * 0x100000001b3) 0xcbf29ce484222325

namespace Encoder

def bytes (bs : Bytes) : Bytes := wordBytes (UInt64.ofNat bs.length) ++ bs

end Encoder

/-- Programs that consume the input of a decoder. -/
abbrev Decoder := Prog Bytes MigrationError

namespace Decoder

def take (len : ℕ) : Decoder Bytes := fun input =>
  if len ≤ input.length then .ok (input.take len) (input.drop len) else .err .invalidData input

def word : Decoder UInt64 := do
  let bs ← take 8
  return UInt64.ofNat (leValue bs)

def count (max : UInt64) : Decoder ℕ := do
  let n ← word
  check (n ≤ max) .capacity
  return n.toNat

def bytes (max : UInt64) : Decoder Bytes := do
  let len ← count max
  take len

def flag : Decoder Bool := do
  let w ← word
  if w = 0 then return false else if w = 1 then return true else fail .invalidData

def finish : Decoder Unit := do
  let rest ← get
  check (rest = []) .invalidData

variable {input rest : Bytes}

theorem take_eq_ok {len bs} :
    take len input = .ok bs rest ↔ input = bs ++ rest ∧ bs.length = len := by
  unfold take
  split
  · rename_i hlen
    rw [Outcome.ok.injEq]
    constructor
    · rintro ⟨rfl, rfl⟩
      exact ⟨(List.take_append_drop len input).symm, List.length_take_of_le hlen⟩
    · rintro ⟨rfl, rfl⟩
      exact ⟨List.take_left, List.drop_left⟩
  · rename_i hlen
    constructor
    · intro h
      cases h
    · rintro ⟨rfl, rfl⟩
      exact absurd (by simp) hlen

theorem word_eq_ok {w} : word input = .ok w rest ↔ input = wordBytes w ++ rest := by
  unfold word
  rw [bind_eq_ok]
  constructor
  · rintro ⟨bs, u, htake, hpure⟩
    obtain ⟨rfl, hlen⟩ := take_eq_ok.mp htake
    obtain ⟨rfl, rfl⟩ := pure_eq_ok.mp hpure
    rw [wordBytes_ofNat_leValue hlen]
  · rintro rfl
    refine ⟨wordBytes w, rest, take_eq_ok.mpr ⟨rfl, length_wordBytes w⟩, pure_eq_ok.mpr ⟨?_, rfl⟩⟩
    rw [leValue_wordBytes, UInt64.ofNat_toNat]

theorem flag_eq_ok {b} :
    flag input = .ok b rest ↔ input = wordBytes (if b then 1 else 0) ++ rest := by
  unfold flag
  rw [bind_eq_ok]
  constructor
  · rintro ⟨w, u, hword, hrest⟩
    rw [word_eq_ok] at hword
    split at hrest
    · obtain ⟨rfl, rfl⟩ := pure_eq_ok.mp hrest
      rename_i hw
      rw [hword, hw]
      rfl
    · split at hrest
      · obtain ⟨rfl, rfl⟩ := pure_eq_ok.mp hrest
        rename_i hw
        rw [hword, hw]
        rfl
      · cases hrest
  · intro h
    refine ⟨_, rest, word_eq_ok.mpr h, ?_⟩
    cases b <;> rfl

theorem bytes_eq_ok {max bs} (hbs : bs.length < 2 ^ 64) :
    bytes max input = .ok bs rest ↔
      input = Encoder.bytes bs ++ rest ∧ bs.length ≤ max.toNat := by
  unfold bytes count
  have hlen : (UInt64.ofNat bs.length).toNat = bs.length := by
    rw [UInt64.toNat_ofNat']
    exact Nat.mod_eq_of_lt hbs
  rw [bind_eq_ok]
  constructor
  · rintro ⟨n, u, hcount, htake⟩
    obtain ⟨w, u', hword, hcount⟩ := bind_eq_ok.mp hcount
    obtain ⟨_, u'', hcheck, hpure⟩ := bind_eq_ok.mp hcount
    obtain ⟨hle, rfl⟩ := check_eq_ok.mp hcheck
    obtain ⟨rfl, rfl⟩ := pure_eq_ok.mp hpure
    obtain ⟨rfl, hw⟩ := take_eq_ok.mp htake
    rw [word_eq_ok.mp hword, Encoder.bytes, hw, UInt64.ofNat_toNat, List.append_assoc]
    exact ⟨rfl, UInt64.le_iff_toNat_le.mp hle⟩
  · rintro ⟨rfl, hle⟩
    have hword : word (Encoder.bytes bs ++ rest) =
        .ok (UInt64.ofNat bs.length) (bs ++ rest) := by
      rw [word_eq_ok, Encoder.bytes, List.append_assoc]
    have hmax : UInt64.ofNat bs.length ≤ max := UInt64.le_iff_toNat_le.mpr (by omega)
    refine ⟨bs.length, bs ++ rest, ?_, take_eq_ok.mpr ⟨rfl, rfl⟩⟩
    refine bind_eq_ok.mpr ⟨_, _, hword, bind_eq_ok.mpr ⟨(), _, check_eq_ok.mpr ⟨hmax, rfl⟩, ?_⟩⟩
    exact pure_eq_ok.mpr ⟨hlen, rfl⟩

theorem finish_eq_ok {a} : finish input = .ok a rest ↔ input = [] ∧ rest = [] := by
  unfold finish
  rw [bind_eq_ok]
  constructor
  · rintro ⟨_, u, hget, hcheck⟩
    cases hget
    obtain ⟨rfl, rfl⟩ := check_eq_ok.mp hcheck
    exact ⟨rfl, rfl⟩
  · rintro ⟨rfl, rfl⟩
    exact ⟨[], [], rfl, rfl⟩

end Decoder

/-! ### Records -/

/-- A shared byte slice. No allocation is larger than `isize::MAX` bytes. -/
structure Payload where
  bytes : Bytes
  fits : bytes.length < 2 ^ 63
  deriving DecidableEq

/-- A version of an entry; a deleted entry has no data. -/
structure Record where
  key : UInt64
  sequence : UInt64
  data : Option Payload
  deriving DecidableEq

namespace Record

def MAGIC : UInt64 := UInt64.ofNat (leValue (ascii "BEXMIG01"))

def VERSION : UInt64 := 1

def OVERHEAD : ℕ := 64

/-- The bytes of the data, if there is any. -/
def payload (r : Record) : Bytes := (r.data.map Payload.bytes).getD []

/-- The envelope without its checksum. -/
def body (r : Record) (generation : UInt64) : Bytes :=
  [MAGIC, VERSION, generation, r.key, r.sequence, if r.data.isSome then 1 else 0].flatMap wordBytes
    ++ Encoder.bytes r.payload

def encode (r : Record) (generation : UInt64) : Bytes :=
  let bytes := r.body generation
  bytes ++ wordBytes (checksum bytes)

def decodeBody (generation limit : UInt64) : Decoder Record := do
  let magic ← Decoder.word
  check (magic = MAGIC) .invalidData
  let version ← Decoder.word
  check (version = VERSION) .unsupportedVersion
  let sent ← Decoder.word
  check (sent = generation) .sequence
  let key ← Decoder.word
  let sequence ← Decoder.word
  let present ← Decoder.flag
  let data ← Decoder.bytes limit
  check (¬ (present = false ∧ data ≠ [])) .invalidData
  Decoder.finish
  if h : data.length < 2 ^ 63 then
    return { key, sequence, data := if present then some ⟨data, h⟩ else none }
  -- no slice is that long
  else halt

def decode (bytes : Bytes) (generation limit : UInt64) : Except MigrationError Record :=
  if bytes.length < OVERHEAD ∨ (limit.satAdd (UInt64.ofNat OVERHEAD)).toNat < bytes.length then
    .error .capacity
  else
    let payload := bytes.take (bytes.length - 8)
    let tail := bytes.drop (bytes.length - 8)
    if checksum payload ≠ UInt64.ofNat (leValue tail) then .error .checksum
    else
      match decodeBody generation limit payload with
      | .ok r _ => .ok r
      | .err e _ => .error e
      | .halt => .error .invalidData

def cost (r : Record) : ℕ := OVERHEAD + r.payload.length

theorem payload_length_lt (r : Record) : r.payload.length < 2 ^ 63 := by
  unfold payload
  cases r.data with
  | none => decide
  | some data => exact data.fits

theorem length_body (r : Record) (generation : UInt64) :
    (r.body generation).length = 56 + r.payload.length := by
  simp [body, Encoder.bytes]
  omega

theorem length_encode (r : Record) (generation : UInt64) :
    (r.encode generation).length = OVERHEAD + r.payload.length := by
  rw [encode, List.length_append, length_body, length_wordBytes, OVERHEAD]
  omega

/-- The decoder accepts the body of a record whose payload is within the limit, and nothing
else. -/
theorem decodeBody_eq_ok {generation limit input rest r} :
    decodeBody generation limit input = .ok r rest ↔
      input = r.body generation ∧ r.payload.length ≤ limit.toNat ∧ rest = [] := by
  constructor
  · intro h
    obtain ⟨magic, u₁, hmagic, h⟩ := bind_eq_ok.mp h
    obtain ⟨_, _, hcheck, h⟩ := bind_eq_ok.mp h
    obtain ⟨rfl, rfl⟩ := check_eq_ok.mp hcheck
    obtain ⟨version, u₂, hversion, h⟩ := bind_eq_ok.mp h
    obtain ⟨_, _, hcheck, h⟩ := bind_eq_ok.mp h
    obtain ⟨rfl, rfl⟩ := check_eq_ok.mp hcheck
    obtain ⟨sent, u₃, hsent, h⟩ := bind_eq_ok.mp h
    obtain ⟨_, _, hcheck, h⟩ := bind_eq_ok.mp h
    obtain ⟨rfl, rfl⟩ := check_eq_ok.mp hcheck
    obtain ⟨key, u₄, hkey, h⟩ := bind_eq_ok.mp h
    obtain ⟨sequence, u₅, hsequence, h⟩ := bind_eq_ok.mp h
    obtain ⟨present, u₆, hpresent, h⟩ := bind_eq_ok.mp h
    obtain ⟨data, u₇, hdata, h⟩ := bind_eq_ok.mp h
    obtain ⟨_, _, hcheck, h⟩ := bind_eq_ok.mp h
    obtain ⟨habsent, rfl⟩ := check_eq_ok.mp hcheck
    obtain ⟨_, u₈, hfinish, h⟩ := bind_eq_ok.mp h
    obtain ⟨rfl, rfl⟩ := Decoder.finish_eq_ok.mp hfinish
    -- all of the input has been read; each field gives back its bytes
    split at h
    · rename_i hfits
      obtain ⟨rfl, rfl⟩ := pure_eq_ok.mp h
      obtain ⟨rfl, hlimit⟩ := (Decoder.bytes_eq_ok (by omega)).mp hdata
      have hpayload : Record.payload
          ⟨key, sequence, if present then some ⟨data, hfits⟩ else none⟩ = data := by
        cases present with
        | true => rfl
        | false =>
          have hnil : data = [] := by
            by_contra hne
            exact habsent ⟨rfl, hne⟩
          exact hnil.symm
      refine ⟨?_, (congrArg List.length hpayload).trans_le hlimit, rfl⟩
      rw [Decoder.word_eq_ok.mp hmagic, Decoder.word_eq_ok.mp hversion,
        Decoder.word_eq_ok.mp hsent, Decoder.word_eq_ok.mp hkey, Decoder.word_eq_ok.mp hsequence,
        Decoder.flag_eq_ok.mp hpresent, body, hpayload]
      cases present <;> simp [List.append_assoc]
    · cases h
  -- the other way round, each reader takes the bytes of its field
  · rintro ⟨rfl, hlimit, rfl⟩
    have hfits := r.payload_length_lt
    unfold decodeBody body
    simp only [List.flatMap_cons, List.flatMap_nil, List.append_nil, List.append_assoc]
    refine bind_eq_ok.mpr ⟨_, _, Decoder.word_eq_ok.mpr rfl, ?_⟩
    refine bind_eq_ok.mpr ⟨(), _, check_eq_ok.mpr ⟨rfl, rfl⟩, ?_⟩
    refine bind_eq_ok.mpr ⟨_, _, Decoder.word_eq_ok.mpr rfl, ?_⟩
    refine bind_eq_ok.mpr ⟨(), _, check_eq_ok.mpr ⟨rfl, rfl⟩, ?_⟩
    refine bind_eq_ok.mpr ⟨_, _, Decoder.word_eq_ok.mpr rfl, ?_⟩
    refine bind_eq_ok.mpr ⟨(), _, check_eq_ok.mpr ⟨rfl, rfl⟩, ?_⟩
    refine bind_eq_ok.mpr ⟨_, _, Decoder.word_eq_ok.mpr rfl, ?_⟩
    refine bind_eq_ok.mpr ⟨_, _, Decoder.word_eq_ok.mpr rfl, ?_⟩
    refine bind_eq_ok.mpr ⟨_, _, Decoder.flag_eq_ok.mpr rfl, ?_⟩
    refine bind_eq_ok.mpr ⟨r.payload, [], (Decoder.bytes_eq_ok (by omega)).mpr ⟨?_, hlimit⟩, ?_⟩
    · rw [List.append_nil]
    refine bind_eq_ok.mpr ⟨(), _, check_eq_ok.mpr ⟨?_, rfl⟩, ?_⟩
    · rintro ⟨habsent, hdata⟩
      rw [Option.isSome_eq_false_iff, Option.isNone_iff_eq_none] at habsent
      exact hdata (by rw [payload, habsent]; rfl)
    refine bind_eq_ok.mpr ⟨(), _, Decoder.finish_eq_ok.mpr ⟨rfl, rfl⟩, ?_⟩
    rw [dif_pos hfits]
    refine pure_eq_ok.mpr ⟨?_, rfl⟩
    obtain ⟨key, sequence, data⟩ := r
    cases data <;> rfl

/-- The bytes that are accepted are the envelopes of records within the limit. -/
theorem decode_eq_ok {bytes generation limit r} :
    decode bytes generation limit = .ok r ↔
      bytes = r.encode generation ∧ r.payload.length ≤ limit.toNat := by
  have hfits := r.payload_length_lt
  constructor
  · intro h
    unfold decode at h
    split at h
    · cases h
    · rename_i hlen
      rw [not_or, Nat.not_lt, OVERHEAD] at hlen
      dsimp only at h
      split at h
      · cases h
      · rename_i hsum
        have hbody : decodeBody generation limit (bytes.take (bytes.length - 8)) = .ok r [] := by
          split at h
          · rename_i r' rest hok
            cases h
            rw [hok, (decodeBody_eq_ok.mp hok).2.2]
          · cases h
          · cases h
        obtain ⟨hbytes, hlimit, _⟩ := decodeBody_eq_ok.mp hbody
        refine ⟨?_, hlimit⟩
        have htail : (bytes.drop (bytes.length - 8)).length = 8 := by
          rw [List.length_drop]
          omega
        rw [encode, ← hbytes, not_ne_iff.mp hsum, wordBytes_ofNat_leValue htail,
          List.take_append_drop]
  · rintro ⟨rfl, hlimit⟩
    have hlen := r.length_encode generation
    have hpayload : (r.encode generation).take ((r.encode generation).length - 8) =
        r.body generation := by
      rw [encode, List.length_append, length_wordBytes, Nat.add_sub_cancel, List.take_left]
    have htail : (r.encode generation).drop ((r.encode generation).length - 8) =
        wordBytes (checksum (r.body generation)) := by
      rw [encode, List.length_append, length_wordBytes, Nat.add_sub_cancel, List.drop_left]
    -- the limit with the overhead either is their sum or exceeds every slice
    have hroom : OVERHEAD + r.payload.length ≤ (limit.satAdd (UInt64.ofNat OVERHEAD)).toNat := by
      have hoverhead : (UInt64.ofNat OVERHEAD).toNat = 64 := rfl
      unfold UInt64.satAdd UInt64.checkedAdd OVERHEAD at *
      split
      · rename_i hlt
        rw [Option.getD_some, UInt64.toNat_add_of_lt hlt]
        omega
      · show 64 + _ ≤ 2 ^ 64 - 1
        omega
    unfold decode
    rw [if_neg (by rw [hlen]; omega), hpayload, htail]
    dsimp only
    rw [leValue_wordBytes, UInt64.ofNat_toNat, if_neg (not_ne_iff.mpr rfl),
      decodeBody_eq_ok.mpr ⟨rfl, hlimit, rfl⟩]

end Record

/-! ### The checksum -/

section Checksum

variable {α β : Type}

/-- A fold whose step is injective in both arguments sees every change of one member. -/
theorem foldl_set_ne {f : β → α → β} (hleft : ∀ a, Function.Injective (f · a))
    (hright : ∀ b, Function.Injective (f b)) {as : List α} {i : ℕ} {a a' : α}
    (ha : as[i]? = some a) (hne : a' ≠ a) (b : β) :
    (as.set i a').foldl f b ≠ as.foldl f b := by
  have hfold : ∀ as : List α, Function.Injective fun b => as.foldl f b := by
    intro as
    induction as with
    | nil => exact fun _ _ h => h
    | cons c as ih => exact fun b b' h => hleft c (ih h)
  induction as generalizing i b with
  | nil => cases ha
  | cons c as ih =>
    cases i with
    | zero =>
      obtain rfl : c = a := Option.some.inj ha
      exact fun h => hne (hright b (hfold as h))
    | succ i => exact ih ha (f b c)

end Checksum

theorem checksum_set_ne {bytes i b b'} (hb : bytes[i]? = some b) (hne : b' ≠ b) :
    checksum (bytes.set i b') ≠ checksum bytes := by
  -- the prime has an inverse modulo 2 ^ 64
  have hprime : (0x100000001b3 : UInt64) * 0xce965057aff6957b = 1 := by decide
  have hmul : Function.Injective fun x : UInt64 => x * 0x100000001b3 := by
    intro x y h
    have hxy := congrArg (· * (0xce965057aff6957b : UInt64)) h
    simp only [UInt64.mul_assoc, hprime, UInt64.mul_one] at hxy
    exact hxy
  refine foldl_set_ne (fun b x y h => ?_) (fun x b c h => ?_) hb hne _
  · exact (UInt64.xor_left_inj _).mp (hmul h)
  · exact UInt8.toUInt64_inj.mp ((UInt64.xor_right_inj _).mp (hmul h))

/-- **The record envelope.** A record decodes from its envelope exactly when its payload is
within the limit; every byte string that is accepted is the envelope of the record returned;
and no envelope in which one byte was changed is accepted. -/
theorem record_envelope (generation limit : UInt64) :
    (∀ r : Record, Record.decode (r.encode generation) generation limit = .ok r ↔
      r.payload.length ≤ limit.toNat) ∧
    (∀ bytes r, Record.decode bytes generation limit = .ok r → bytes = r.encode generation) ∧
    (∀ (r : Record) (i : ℕ) (b b' : UInt8), (r.encode generation)[i]? = some b → b' ≠ b →
      ∀ r', Record.decode ((r.encode generation).set i b') generation limit ≠ .ok r') := by
  refine ⟨fun r => ?_, fun bytes r h => (Record.decode_eq_ok.mp h).1, ?_⟩
  · rw [Record.decode_eq_ok]
    exact and_iff_right rfl
  · intro r i b b' hb hne r' h
    have hset := (Record.decode_eq_ok.mp h).1
    have hlen : (r.body generation).length = (r'.body generation).length := by
      have := congrArg List.length hset
      rw [List.length_set, Record.encode, Record.encode, List.length_append, List.length_append,
        length_wordBytes, length_wordBytes] at this
      omega
    unfold Record.encode at hset hb
    by_cases hi : i < (r.body generation).length
    · -- a changed body has another checksum
      rw [List.set_append_left _ _ hi] at hset
      rw [List.getElem?_append_left hi] at hb
      obtain ⟨hbody, hsum⟩ := List.append_inj hset (by rw [List.length_set, hlen])
      rw [← hbody] at hsum
      exact checksum_set_ne hb hne (wordBytes_inj hsum).symm
    · -- a changed checksum is not that of the body
      have hi := Nat.le_of_not_lt hi
      rw [List.set_append_right _ _ hi] at hset
      rw [List.getElem?_append_right hi] at hb
      obtain ⟨hbody, hsum⟩ := List.append_inj hset hlen
      rw [← hbody] at hsum
      have hsame := congrArg (·[i - (r.body generation).length]?) hsum
      simp only [List.getElem?_set_self (getElem?_eq_some_iff.mp hb).1, hb] at hsame
      exact hne (Option.some.inj hsame)

def stateRecord : Record := { key := 12, sequence := 7, data := some ⟨ascii "state", by decide⟩ }

theorem record_envelope_state : Record.decode (stateRecord.encode 42) 42 1024 = .ok stateRecord ∧
    ∀ r', Record.decode ((stateRecord.encode 42).set 24 13) 42 1024 ≠ .ok r' :=
  ⟨((record_envelope 42 1024).1 stateRecord).mpr (by decide),
    (record_envelope 42 1024).2.2 stateRecord 24 12 13 (by decide +kernel) (by decide)⟩

end Bexos
