/-
Snapshots of the transport lanes.

* `Mailbox.Sound`, `Lanes.Sound` — what each phase says about the message, and how `active` is
  tied to the lanes: a running message is the worker's, and a revoked one keeps the worker;
* `Mailbox.Sound.restore_image`, `Lanes.Sound.restore_image` — a snapshot of a sound state is
  restored to the same state, or refused because a request is for memory that is not registered.

Design notes: a snapshot is a list of fields followed by its digest, `image`, and is read back
field by field; nothing is assumed of SHA-256.
-/
import Bexos.Mailbox

namespace Bexos

open Prog

/-! ### Sound mailboxes -/

namespace Mailbox

variable {size : ℕ} {m : Mailbox size}

/-- What each phase says about the message. -/
structure Sound (m : Mailbox size) : Prop where
  next : m.nextTicket ≠ 0
  empty : m.phase = .empty → m.message = .none ∧ m.bytes = .zero
  ticket : m.phase ≠ .empty → m.message.ticket ≠ 0 ∧ m.message.ticket < m.nextTicket
  message : m.phase ≠ .empty → m.message.handle ≠ 0 ∧ m.message.operation ≠ 0 ∧
    m.message.length ≠ 0 ∧ m.message.length ≤ m.message.capacity ∧ m.message.capacity ≤ size
  result : m.phase ≠ .completed → m.result = 0
  tail : m.phase ≠ .empty →
    m.bytes.toList.drop m.message.capacity = zeros (size - m.message.capacity)

theorem sound_new : (new : Mailbox size).Sound :=
  ⟨nofun, fun _ => ⟨rfl, rfl⟩, fun hne => absurd rfl hne, fun hne => absurd rfl hne, fun _ => rfl,
    fun hne => absurd rfl hne⟩

theorem Sound.clear (h : m.Sound) : m.clear.Sound :=
  ⟨h.next, fun _ => ⟨rfl, rfl⟩, fun hne => absurd rfl hne, fun hne => absurd rfl hne, fun _ => rfl,
    fun hne => absurd rfl hne⟩

theorem Sound.submitted (h : m.Sound) {handle next : UInt64} {operation : UInt32} {length : ℕ}
    {bytes : Bytes} (hempty : m.phase = .empty)
    (hargs : ¬ (handle = 0 ∨ operation = 0 ∨ length = 0 ∨ length > bytes.length ∨
      bytes.length > size))
    (hnext : m.nextTicket.checkedAdd 1 = some next) :
    Sound { m with
      nextTicket := next
      bytes := (.ofBytes bytes : Buffer size)
      message := ⟨m.nextTicket, handle, operation, length, bytes.length⟩
      phase := .submitted } := by
  have hvalue : next.toNat = m.nextTicket.toNat + 1 := UInt64.checkedAdd_eq_some.mp hnext
  simp only [not_or, not_lt, gt_iff_lt] at hargs
  obtain ⟨hhandle, hoperation, hlength, hle, hsize⟩ := hargs
  have hticket : m.nextTicket < next := by
    rw [UInt64.lt_iff_toNat_lt, hvalue]
    exact Nat.lt_succ_self _
  have hpos : next ≠ 0 := fun hzero => by simp [hzero] at hvalue
  exact
    { next := hpos
      empty := nofun
      ticket := fun _ => ⟨h.next, hticket⟩
      message := fun _ => ⟨hhandle, hoperation, hlength, hle, hsize⟩
      result := fun _ => h.result (by rw [hempty]; nofun)
      tail := fun _ => Buffer.drop_ofBytes hsize }

theorem Sound.fetched (h : m.Sound) (hphase : m.phase = .submitted) :
    Sound { m with phase := .running } := by
  have hne : m.phase ≠ .empty := by rw [hphase]; nofun
  exact
    { next := h.next
      empty := nofun
      ticket := fun _ => h.ticket hne
      message := fun _ => h.message hne
      result := fun _ => h.result (by rw [hphase]; nofun)
      tail := fun _ => h.tail hne }

theorem Sound.completed (h : m.Sound) (hphase : m.phase = .running) (result)
    {response : Bytes} (hlength : response.length = size) :
    Sound { m with
      bytes := m.bytes.put (response.take m.message.capacity)
      result
      phase := .completed } := by
  have hne : m.phase ≠ .empty := by rw [hphase]; nofun
  obtain ⟨-, -, -, -, hcap⟩ := h.message hne
  have hreply : (response.take m.message.capacity).length = m.message.capacity := by
    rw [List.length_take, hlength, Nat.min_eq_left hcap]
  have hkept := Buffer.drop_put (hreply.trans_le hcap) m.bytes
  rw [hreply] at hkept
  exact
    { next := h.next
      empty := nofun
      ticket := fun _ => h.ticket hne
      message := fun _ => h.message hne
      result := fun hne => absurd rfl hne
      tail := fun _ => hkept.trans (h.tail hne) }

/-! ### The snapshot of a mailbox -/

section Snapshot

variable {domain next : UInt64} {phase : MailPhase} {message : Mailbox.Message} {result : Int64}
  {bytes digest : Bytes}

/-- A snapshot with its digest. -/
abbrev record (domain next : UInt64) (phase : MailPhase) (message : Mailbox.Message) (result : Int64)
    (bytes digest : Bytes) : Bytes :=
  (fields domain next phase message result bytes ++ [digest]).flatten

theorem length_ascii_magic : (ascii "BEXMB001").length = 8 := by decide

theorem length_fields (hbytes : bytes.length = size) :
    (fields domain next phase message result bytes).flatten.length = HEADER + size := by
  simp [fields, length_ascii_magic, hbytes, HEADER]
  omega

theorem readPhase_phaseByte (phase) : readPhase (phaseByte phase) = some phase := by
  cases phase <;> rfl

end Snapshot

/-- The snapshot of a sound mailbox. -/
def image (sha256 : Bytes → Buffer 32) (domain : UInt64) (m : Mailbox size) : Bytes :=
  record domain m.nextTicket m.phase m.message m.result m.bytes.toList
    (sha256 (fields domain m.nextTicket m.phase m.message m.result m.bytes.toList).flatten).toList

variable (sha256 : Bytes → Buffer 32) (domain : UInt64)

/-- The fields that are read back from a snapshot. -/
theorem read_image (m : Mailbox size) : let input := m.image sha256 domain
    slice 0 8 input = ascii "BEXMB001" ∧ wordAt 8 input = domain ∧
    wordAt 16 input = m.nextTicket ∧ slice 24 1 input = [phaseByte m.phase] ∧
    slice 25 7 input = zeros 7 ∧ slice 60 4 input = zeros 4 ∧
    wordAt 64 input = m.result.toUInt64 ∧ slice 72 8 input = zeros 8 ∧
    slice HEADER size input = m.bytes.toList ∧
    slice (HEADER + size) 32 input = (sha256 (slice 0 (HEADER + size) input)).toList := by
  have hmagic := length_ascii_magic
  have hbytes := m.bytes.toList_length
  have hbody : slice 0 (HEADER + size) (m.image sha256 domain) =
      (fields domain m.nextTicket m.phase m.message m.result m.bytes.toList).flatten :=
    slice_flatten 0 14 rfl (length_fields hbytes)
  refine ⟨slice_field (k := 0) rfl rfl hmagic, wordAt_field (k := 1) rfl ?_,
    wordAt_field (k := 2) rfl ?_, slice_field (k := 3) rfl ?_ rfl, slice_field (k := 4) rfl ?_ rfl,
    slice_field (k := 10) rfl ?_ rfl, wordAt_field (k := 11) rfl ?_,
    slice_field (k := 12) rfl ?_ rfl, slice_field (k := 13) rfl ?_ hbytes,
    hbody ▸ slice_field (k := 14) rfl ?_ (List.Vector.toList_length _)⟩
  all_goals simp [fields, hmagic, hbytes, HEADER]
  omega

/-- The message that is read back from a snapshot. -/
theorem readMessage_image (hlength : m.message.length < 2 ^ 32)
    (hcapacity : m.message.capacity < 2 ^ 32) :
    readMessage (m.image sha256 domain) = m.message := by
  have hmagic := length_ascii_magic
  have hticket : wordAt 32 (m.image sha256 domain) = m.message.ticket :=
    wordAt_field (k := 5) rfl (by simp [fields, hmagic])
  have hhandle : wordAt 40 (m.image sha256 domain) = m.message.handle :=
    wordAt_field (k := 6) rfl (by simp [fields, hmagic])
  have hoperation : halfAt 48 (m.image sha256 domain) = m.message.operation :=
    halfAt_field (k := 7) rfl (by simp [fields, hmagic])
  have hlen : halfAt 52 (m.image sha256 domain) = UInt32.ofNat m.message.length :=
    halfAt_field (k := 8) rfl (by simp [fields, hmagic])
  have hcap : halfAt 56 (m.image sha256 domain) = UInt32.ofNat m.message.capacity :=
    halfAt_field (k := 9) rfl (by simp [fields, hmagic])
  rw [readMessage, hticket, hhandle, hoperation, hlen, hcap, UInt32.toNat_ofNat_of_lt' hlength,
    UInt32.toNat_ofNat_of_lt' hcapacity]

theorem zeros_eq_toList_zero : zeros size = (Buffer.zero : Buffer size).toList := rfl

theorem Sound.snapshot_eq (h : m.Sound) {domain} (hdomain : domain ≠ 0) :
    m.snapshot sha256 domain (stateBytes size) = .ok (m.image sha256 domain) := by
  unfold snapshot
  rw [if_neg fun hbad => hbad.elim hdomain fun hne => hne rfl]
  by_cases hempty : m.phase = .empty
  · obtain ⟨hmessage, hbytes⟩ := h.empty hempty
    have hresult : m.result = 0 := h.result (by rw [hempty]; nofun)
    rw [if_pos hempty, image, hempty, hmessage, hbytes, hresult, zeros_eq_toList_zero]
  · rw [if_neg hempty]
    rfl

theorem length_image (m : Mailbox size) : (m.image sha256 domain).length = stateBytes size := by
  unfold image record
  rw [List.flatten_append, List.length_append, length_fields m.bytes.toList_length]
  simp [stateBytes]

/-- After the ticket, the snapshot of an empty mailbox is blank. -/
theorem slice_blank {domain next digest} :
    slice 32 (HEADER + size - 32) (record domain next .empty .none 0 (zeros size) digest) =
      zeros (HEADER + size - 32) := by
  have hmagic := length_ascii_magic
  have hword : wordBytes 0 = zeros 8 := by decide
  have hhalf : halfBytes 0 = zeros 4 := by decide
  have hblank : (((fields domain next .empty .none 0 (zeros size) ++ [digest]).drop 5).take
      9).flatten = zeros (HEADER + size - 32) := by
    show wordBytes 0 ++ (wordBytes 0 ++ (halfBytes 0 ++ (halfBytes 0 ++ (halfBytes 0 ++ (zeros 4 ++
      (wordBytes 0 ++ (zeros 8 ++ (zeros size ++ [])))))))) = _
    rw [List.append_nil, hword, hhalf]
    simp only [zeros_append]
    congr 1
    simp only [HEADER]
    omega
  rw [slice_flatten 5 9 (by simp [fields, hmagic]) (by rw [hblank]; simp), hblank]

/-- The request in the mailbox is for registered memory. -/
def Registered (registered : UInt64 → ℕ → Bool) (m : Mailbox size) : Prop :=
  m.phase ≠ .empty → registered m.message.handle m.message.capacity = true
  deriving Decidable

/-- The snapshot of a sound mailbox passes the checks if its request is for registered memory. -/
theorem Sound.validate_image (h : m.Sound) {domain} {registered : UInt64 → ℕ → Bool}
    (hsize : size < 2 ^ 32) (hdomain : domain ≠ 0) :
    validate sha256 size domain (m.image sha256 domain) registered =
      if m.Registered registered then .ok (m.phase, m.message, m.result, m.nextTicket)
      else .error .invalidArgs := by
  have hmessage : readMessage (m.image sha256 domain) = m.message := by
    refine readMessage_image sha256 domain ?_ ?_
    all_goals
      by_cases hempty : m.phase = .empty
      · rw [(h.empty hempty).1]
        decide
      · obtain ⟨-, -, -, hle, hcap⟩ := h.message hempty
        omega
  obtain ⟨hmagic, h8, h16, h24, h25, h60, h64, h72, hbytes, hdigest⟩ :=
    read_image sha256 domain m
  have hresult : (wordAt 64 (m.image sha256 domain)).toInt64 = m.result := by
    rw [h64]
    rfl
  -- the header is that of an image of this size for this domain
  have hfirst : ¬ ((m.image sha256 domain).length ≠ stateBytes size ∨ domain = 0 ∨
      slice 0 8 (m.image sha256 domain) ≠ ascii "BEXMB001") := by
    simp [length_image, hdomain, hmagic]
  have hsecond : ¬ (wordAt 8 (m.image sha256 domain) ≠ domain ∨
      wordAt 16 (m.image sha256 domain) = 0 ∨ slice 25 7 (m.image sha256 domain) ≠ zeros 7 ∨
      slice 60 4 (m.image sha256 domain) ≠ zeros 4 ∨
      slice 72 8 (m.image sha256 domain) ≠ zeros 8 ∨
      slice (HEADER + size) 32 (m.image sha256 domain) ≠
        (sha256 (slice 0 (HEADER + size) (m.image sha256 domain))).toList) := by
    simp only [h8, h16, h25, h60, h72, ← hdigest, h.next, ne_eq, not_true_eq_false, or_self,
      not_false_eq_true]
  have hphase : (slice 24 1 (m.image sha256 domain)).head?.bind readPhase = some m.phase := by
    rw [h24]
    exact readPhase_phaseByte m.phase
  unfold validate
  rw [if_neg hfirst, if_neg hsecond, hphase]
  simp only [hmessage, hresult, h16]
  -- an empty mailbox must be blank; a full one must pass the checks of a submission
  by_cases hempty : m.phase = .empty
  · obtain ⟨hnone, hzero⟩ := h.empty hempty
    have hregistered : m.Registered registered := fun hne => absurd hempty hne
    rw [if_pos hempty, if_pos hregistered, if_neg]
    rw [image, hempty, hnone, hzero, h.result (by rw [hempty]; nofun), ← zeros_eq_toList_zero]
    exact not_not.mpr slice_blank
  · obtain ⟨hticket, hlt⟩ := h.ticket hempty
    obtain ⟨hhandle, hoperation, hlength, hle, hcap⟩ := h.message hempty
    rw [if_neg hempty, slice_add, hbytes, h.tail hempty]
    by_cases hregistered : registered m.message.handle m.message.capacity = true
    · rw [if_pos (c := m.Registered registered) fun _ => hregistered, if_neg]
      simp only [hticket, hhandle, hoperation, hlength, hregistered, UInt64.not_le.mpr hlt,
        not_lt.mpr hle, not_lt.mpr hcap, ne_eq, not_true_eq_false, or_false,
        false_or, not_and, not_not]
      exact h.result
    · rw [if_neg (c := m.Registered registered) fun hm => hregistered (hm hempty), if_pos]
      exact .inr (.inr (.inr (.inr (.inr (.inr (.inr (.inr (.inr hregistered))))))))

/-- **A snapshot of a sound mailbox is restored to the same mailbox**, or refused because its
request is for memory that is not registered. -/
theorem Sound.restore_image (h : m.Sound) {domain : UInt64} (hsize : size < 2 ^ 32)
    (hdomain : domain ≠ 0) (registered : UInt64 → ℕ → Bool) (target : Mailbox size) :
    restoreProtected sha256 domain (m.image sha256 domain) registered target =
      if m.Registered registered then .ok () m else .err .invalidArgs target := by
  obtain ⟨-, -, -, -, -, -, -, -, hbytes, -⟩ := read_image sha256 domain m
  show Prog.bind (lift (validate sha256 size domain (m.image sha256 domain) registered)) _ target =
    _
  rw [h.validate_image sha256 hsize hdomain]
  by_cases hregistered : m.Registered registered
  · rw [if_pos hregistered, if_pos hregistered]
    show Outcome.ok () ⟨m.message, m.phase, m.nextTicket, m.result, _⟩ = .ok () m
    rw [hbytes, Buffer.ofBytes_toList]
  · rw [if_neg hregistered, if_neg hregistered]
    rfl

end Mailbox

/-! ### Sound lanes -/

namespace Lanes

variable {size : ℕ} {l t : Lanes size}

/-- The worker's request is that of a lane, running or revoked. -/
structure Sound (l : Lanes size) : Prop where
  mail : ∀ b, (l.lane b).Sound
  handle : ∀ b, (l.lane b).phase ≠ .empty → isRoot (l.lane b).message.handle = b
  running : ∀ b, (l.lane b).phase = .running →
    l.active = some (b, (l.lane b).message.ticket)
  retained : ∀ b ticket, l.active = some (b, ticket) → (l.lane b).retainsWorker ticket = true

/-- The requests in the lanes are for registered memory. -/
def Registered (registered : UInt64 → ℕ → Bool) (l : Lanes size) : Prop :=
  ∀ b, (l.lane b).Registered registered
  deriving Decidable

variable (sha256 : Bytes → Buffer 32)

/-- The fields of a snapshot before the digest. -/
def fields (domain : UInt64) (l : Lanes size) : List Bytes :=
  [ascii "BEXLM001", [activeByte l.active], zeros 7, wordBytes (activeTicket l.active), zeros 8,
    l.normal.image sha256 domain, l.root.image sha256 BOOT_OWNER_HANDLE]

/-- The snapshot of sound lanes. -/
def image (domain : UInt64) (l : Lanes size) : Bytes :=
  (l.fields sha256 domain ++ [(sha256 (l.fields sha256 domain).flatten).toList]).flatten

theorem boot_ne_zero : BOOT_OWNER_HANDLE ≠ 0 := by decide

variable {domain : UInt64}

theorem Sound.snapshot_eq (h : l.Sound) (hdomain : domain ≠ 0) :
    l.snapshot sha256 domain (stateBytes size) = .ok (l.image sha256 domain) := by
  have hnormal : l.normal.snapshot sha256 domain _ = _ := (h.mail false).snapshot_eq sha256 hdomain
  have hroot : l.root.snapshot sha256 _ _ = _ := (h.mail true).snapshot_eq sha256 boot_ne_zero
  unfold snapshot
  rw [if_neg fun hne => hne rfl, hnormal, hroot]
  rfl

theorem length_fields (domain : UInt64) (l : Lanes size) :
    (l.fields sha256 domain).flatten.length = END size := by
  have hmagic : (ascii "BEXLM001").length = 8 := by decide
  simp [fields, hmagic, Mailbox.length_image, END, HEADER]
  omega

/-- The fields that are read back from a snapshot. -/
theorem read_image (domain : UInt64) (l : Lanes size) : let input := l.image sha256 domain
    input.length = stateBytes size ∧ slice 0 8 input = ascii "BEXLM001" ∧
    slice 8 1 input = [activeByte l.active] ∧ slice 9 7 input = zeros 7 ∧
    wordAt 16 input = activeTicket l.active ∧ slice 24 8 input = zeros 8 ∧
    slice HEADER (Mailbox.stateBytes size) input = l.normal.image sha256 domain ∧
    slice (HEADER + Mailbox.stateBytes size) (Mailbox.stateBytes size) input =
      l.root.image sha256 BOOT_OWNER_HANDLE ∧
    slice (END size) 32 input = (sha256 (slice 0 (END size) input)).toList := by
  have hmagic : (ascii "BEXLM001").length = 8 := by decide
  have hnormal := Mailbox.length_image sha256 domain l.normal
  have hroot := Mailbox.length_image sha256 BOOT_OWNER_HANDLE l.root
  have hbody : slice 0 (END size) (l.image sha256 domain) = (l.fields sha256 domain).flatten :=
    slice_flatten 0 7 rfl (length_fields sha256 domain l)
  refine ⟨?_, slice_field (k := 0) rfl rfl hmagic, slice_field (k := 1) rfl ?_ rfl,
    slice_field (k := 2) rfl ?_ rfl, wordAt_field (k := 3) rfl ?_, slice_field (k := 4) rfl ?_ rfl,
    slice_field (k := 5) rfl ?_ hnormal, slice_field (k := 6) rfl ?_ hroot,
    hbody ▸ slice_field (k := 7) rfl ?_ (List.Vector.toList_length _)⟩
  case refine_1 =>
    rw [image, List.flatten_append, List.length_append, length_fields]
    simp [stateBytes]
  case refine_8 => exact length_fields sha256 domain l
  all_goals simp [fields, hmagic, hnormal, HEADER]
  case refine_7 => omega

theorem readActive_eq {active} (h : ∀ b ticket, active = some (b, ticket) → ticket ≠ 0) :
    readActive (activeByte active) (activeTicket active) = .ok active := by
  match active with
  | none => rfl
  | some (true, ticket) => simp [readActive, activeByte, activeTicket, h true ticket rfl]
  | some (false, ticket) => simp [readActive, activeByte, activeTicket, h false ticket rfl]

/-- What the normal lane takes for registered. -/
abbrev normalOnly (registered : UInt64 → ℕ → Bool) : UInt64 → ℕ → Bool :=
  fun handle n => handle ≠ BOOT_OWNER_HANDLE && registered handle n

/-- What the root lane takes for registered. -/
abbrev rootOnly (registered : UInt64 → ℕ → Bool) : UInt64 → ℕ → Bool :=
  fun handle n => handle = BOOT_OWNER_HANDLE && registered handle n

theorem Sound.registered_iff (h : l.Sound) {registered : UInt64 → ℕ → Bool} :
    l.Registered registered ↔
      (l.lane false).Registered (normalOnly registered) ∧
      (l.lane true).Registered (rootOnly registered) := by
  have hnormal : l.normal.phase ≠ .empty → isRoot l.normal.message.handle = false := h.handle false
  have hroot : l.root.phase ≠ .empty → isRoot l.root.message.handle = true := h.handle true
  simp only [isRoot, decide_eq_true_eq, decide_eq_false_iff_not] at hnormal hroot
  simp only [Registered, Mailbox.Registered, normalOnly, rootOnly, Bool.forall_bool, lane, if_true,
    if_false, Bool.false_eq_true, Bool.and_eq_true, decide_eq_true_eq]
  grind

/-- Restore a lane from its part of a snapshot. -/
theorem Sound.restore_lane (h : l.Sound) (hsize : size < 2 ^ 32) (hdomain : domain ≠ 0)
    (registered : UInt64 → ℕ → Bool) {b input} (hinput : input = (l.lane b).image sha256 domain)
    (t : Lanes size) :
    onLane b (Mailbox.restoreProtected sha256 domain input registered) t =
      if (l.lane b).Registered registered then .ok () (setLane b (l.lane b) t)
      else .err .invalidArgs t := by
  have hrestore := (h.mail b).restore_image sha256 hsize hdomain registered (t.lane b)
  rw [← hinput] at hrestore
  by_cases hregistered : (l.lane b).Registered registered
  · rw [if_pos hregistered] at hrestore ⊢
    exact zoom_of_ok hrestore
  · rw [if_neg hregistered] at hrestore ⊢
    have hlane : onLane b _ t = .err .invalidArgs (setLane b (t.lane b) t) := zoom_of_err hrestore
    rw [hlane]
    cases b <;> rfl

theorem Sound.all_running (h : l.Sound) (b) :
    (l.lane b).runningTicket.all (fun running => l.active = some (b, running)) = true := by
  unfold Mailbox.runningTicket
  split
  case isTrue hrunning => simp [h.running b hrunning]
  case isFalse => rfl

/-- The lanes of a snapshot. -/
theorem Sound.restored_image (h : l.Sound) (hsize : size < 2 ^ 32) (hdomain : domain ≠ 0)
    (registered : UInt64 → ℕ → Bool) :
    if l.Registered registered then
      restored sha256 domain (l.image sha256 domain) registered new = .ok () l
    else ∃ t : Lanes size, restored sha256 domain (l.image sha256 domain) registered new =
      .err .invalidArgs t := by
  obtain ⟨-, -, h8, -, h16, -, hnormal, hroot, -⟩ := read_image sha256 domain l
  have hactive : readActive ((slice 8 1 (l.image sha256 domain)).headD 0)
      (wordAt 16 (l.image sha256 domain)) = .ok l.active := by
    rw [h8, h16]
    refine readActive_eq fun b ticket hb hzero => ?_
    have hretained := h.retained b ticket hb
    simp [Mailbox.retainsWorker, hzero] at hretained
  unfold restored
  rw [bind_of_ok (a := l.active) (t := new) (by rw [hactive]; rfl)]
  have hlanes : l.Registered registered ↔ _ := h.registered_iff
  have hfirst := h.restore_lane sha256 hsize hdomain (normalOnly registered) (b := false) hnormal new
  have hsecond := h.restore_lane sha256 hsize boot_ne_zero (rootOnly registered) (b := true) hroot
    ⟨l.normal, .new, none⟩
  -- the lanes are restored one after the other; the first that is refused ends it
  by_cases hn : (l.lane false).Registered (normalOnly registered)
  · rw [if_pos hn] at hfirst
    rw [bind_of_ok hfirst]
    by_cases hr : (l.lane true).Registered (rootOnly registered)
    · rw [if_pos hr] at hsecond
      rw [if_pos (hlanes.mpr ⟨hn, hr⟩)]
      have hlane : ∀ b, lane ⟨l.normal, l.root, none⟩ b = l.lane b := fun b => by cases b <;> rfl
      have hruns : ∀ b, (lane ⟨l.normal, l.root, none⟩ b).runningTicket.all
          (fun running => l.active = some (b, running)) = true := fun b =>
        (hlane b).symm ▸ h.all_running b
      have hretained : (l.active.all fun p => (lane ⟨l.normal, l.root, none⟩ p.1).retainsWorker p.2)
          = true := by
        simp only [Option.all_eq_true, hlane]
        exact fun p hp => h.retained p.1 p.2 hp
      refine (bind_of_ok hsecond).trans ?_
      refine (bind_of_ok (forEach_of_ok fun b _ => ?_)).trans ?_
      · exact check_of_true (hruns b)
      · exact (bind_of_ok (check_of_true hretained)).trans rfl
    · rw [if_neg hr] at hsecond
      rw [if_neg fun hl => hr (hlanes.mp hl).2]
      exact ⟨_, bind_of_err hsecond⟩
  · rw [if_neg hn] at hfirst
    rw [if_neg fun hl => hn (hlanes.mp hl).1]
    exact ⟨_, bind_of_err hfirst⟩

/-- **A snapshot of sound lanes is restored to the same lanes**, or refused because a request is
for memory that is not registered. -/
theorem Sound.restore_image (h : l.Sound) (hsize : size < 2 ^ 32) (hdomain : domain ≠ 0)
    (registered : UInt64 → ℕ → Bool) (target : Lanes size) :
    restoreProtected sha256 domain (l.image sha256 domain) registered target =
      if l.Registered registered then .ok () l else .err .invalidArgs target := by
  obtain ⟨hlength, h0, -, h9, -, h24, -, -, hdigest⟩ := read_image sha256 domain l
  have hrestored := h.restored_image sha256 hsize hdomain registered
  unfold restoreProtected
  rw [bind_of_ok (check_of_true hlength), bind_of_ok (check_of_true ⟨h0, h9, h24, hdigest⟩)]
  by_cases hregistered : l.Registered registered
  · rw [if_pos hregistered] at hrestored ⊢
    exact adopt_of_ok hrestored target
  · rw [if_neg hregistered] at hrestored ⊢
    obtain ⟨t, ht⟩ := hrestored
    exact adopt_of_err ht target

/-- Lanes that are handed over do not change. -/
theorem Sound.handOver_state (h : l.Sound) (hsize : size < 2 ^ 32) (domain : UInt64)
    (registered : UInt64 → ℕ → Bool) : (handOver sha256 domain registered l).state? = some l := by
  unfold handOver
  by_cases hdomain : domain = 0
  · have hrefused : l.snapshot sha256 domain (stateBytes size) = .error .invalidArgs := by
      unfold snapshot Mailbox.snapshot
      rw [if_neg fun hne => hne rfl, if_pos (.inl hdomain)]
      rfl
    rw [bind_of_ok (x := get) rfl, hrefused]
    rfl
  · have hrestore := h.restore_image sha256 hsize hdomain registered new
    rw [bind_of_ok (x := get) rfl, h.snapshot_eq sha256 hdomain, bind_of_ok (x := lift _) rfl]
    by_cases hregistered : l.Registered registered
    · rw [adopt_of_ok (hrestore.trans (if_pos hregistered))]
      rfl
    · rw [adopt_of_err (hrestore.trans (if_neg hregistered))]
      rfl

@[simp] theorem lane_setLane_self (b : Bool) (m : Mailbox size) (l : Lanes size) :
    (setLane b m l).lane b = m := by cases b <;> rfl

@[simp] theorem lane_setLane_not (b : Bool) (m : Mailbox size) (l : Lanes size) :
    (setLane b m l).lane (!b) = l.lane (!b) := by cases b <;> rfl

@[simp] theorem active_setLane (b : Bool) (m : Mailbox size) (l : Lanes size) :
    (setLane b m l).active = l.active := by cases b <;> rfl

@[simp] theorem lane_withActive (l : Lanes size) (active : Option (Bool × UInt64)) (b : Bool) :
    lane { l with active } b = l.lane b := rfl

end Lanes

end Bexos
