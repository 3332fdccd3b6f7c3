/-
Which capabilities an operation may release.

Closing a handle and ending a process release capabilities: the handle itself, what the
process owns, and, when the last handle to a channel end goes, what travels in the messages
queued there, which may be further channel ends.  `releases s op k c` says which places of the
handle table that can be, in terms of the state before the operation, and `Drops` what a
release does:

* a capability that is not released stays in its place (`Drops.spared`);
* no capability is new, except handles to processes (`Drops.kept`);
* an interrupt line is unbound only with a released capability that names it (`Drops.lines`).

Design notes: `Drops P X` is transitive for a fixed `P`.  The set `X` is for the object whose
capability has just left its slot, and is empty for whole operations.
-/
import Bexos.SlotFrames

namespace Bexos

open Prog

theorem Ends.get_modify {α : Type} (p : Ends α) (e e' : End) (f : α → α) :
    (p.modify e f).get e' = if e = e' then f (p.get e') else p.get e' := by
  cases e <;> cases e' <;> rfl

/-- Does an operation release capabilities of any kind? -/
def Op.releasing {B : Type} : Op B → Bool
  | .close _ | .terminateProcess _ _ | .discardCandidate _ | .terminateJob _ _
  | .exitCurrentWithCode _ | .commitHandover _ | .abortHandover | .pollHandover _ => true
  | _ => false

namespace Runtime

variable {B : Type} {s : Runtime B} {h : ℕ} {exitCode : Int32}

/-- The handles listed in queued messages. -/
def queuedHandles (s : Runtime B) : List ℕ :=
  s.channels.flatMap fun c => (c.queues.zero ++ c.queues.one).flatMap (·.handles)

theorem mem_queuedHandles :
    h ∈ s.queuedHandles ↔ ∃ c ∈ s.channels, ∃ e, ∃ m ∈ c.queues.get e, h ∈ m.handles := by
  unfold queuedHandles
  simp only [List.mem_flatMap, List.mem_append]
  constructor
  · rintro ⟨c, hc, m, hm | hm, hh⟩
    · exact ⟨c, hc, .zero, m, hm, hh⟩
    · exact ⟨c, hc, .one, m, hm, hh⟩
  · rintro ⟨c, hc, e, m, hm, hh⟩
    cases e with
    | zero => exact ⟨c, hc, m, .inl hm, hh⟩
    | one => exact ⟨c, hc, m, .inr hm, hh⟩

/-- The interrupt line bound to an entry. -/
def line (s : Runtime B) (i : ℕ) : Option Interrupt := (s.interrupts[i]?).join

/-! ### What a release does -/

/-- Capabilities with `P` may leave their slots, and the lines they name are then unbound;
the lines of `X` may be unbound as well. -/
structure Drops (P : ℕ → Capability → Prop) (X : ℕ → Prop) (s t : Runtime B) : Prop where
  spared : ∀ k c, s.held k = some c → ¬ P k c →
    ∃ c', t.held k = some c' ∧ c'.grip = c.grip ∧ ¬ P k c'
  kept : ∀ k c', t.held k = some c' → c'.object.process? = none →
    ∃ c, s.held k = some c ∧ c'.grip = c.grip ∧ (P k c' → P k c)
  lines : ∀ i, t.line i = s.line i ∨ X i ∨ ∃ k c, s.held k = some c ∧
    c.object = .interrupt i ∧ P k c ∧ ∀ c', t.held k = some c' → c'.object ≠ .interrupt i
  queue : ∀ h ∈ t.queuedHandles, h ∈ s.queuedHandles

variable {P : ℕ → Capability → Prop} {X : ℕ → Prop}

/-- What a whole operation does: a line goes with a capability that names it. -/
abbrev Sheds (P : ℕ → Capability → Prop) : Runtime B → Runtime B → Prop := Drops P fun _ => False

instance : Std.Refl (Drops (B := B) P X) :=
  ⟨fun _ => ⟨fun _ c hc hP => ⟨c, hc, rfl, hP⟩, fun _ c hc _ => ⟨c, hc, rfl, id⟩,
    fun _ => .inl rfl, fun _ hh => hh⟩⟩

variable {c : Capability} {t : Runtime B} {f : Channel → Channel} {id : ℕ}

theorem process?_of_grip {c' : Capability} (h : c'.grip = c.grip) (hc : c'.object.process? = none) :
    c.object.process? = none :=
  (congrArg Object.process? (congrArg Prod.fst h)).symm.trans hc

instance : IsTrans (Runtime B) (Drops P X) where
  trans s t u hst htu := by
    refine ⟨fun k c hc hP => ?_, fun k c'' hc'' hkind => ?_, fun i => ?_,
      fun h hh => hst.queue h (htu.queue h hh)⟩
    · obtain ⟨c', hc', hgrip, hP'⟩ := hst.spared k c hc hP
      obtain ⟨c'', hc'', hgrip', hP''⟩ := htu.spared k c' hc' hP'
      exact ⟨c'', hc'', hgrip'.trans hgrip, hP''⟩
    · obtain ⟨c', hc', hgrip, hP'⟩ := htu.kept k c'' hc'' hkind
      obtain ⟨c, hc, hgrip', hP⟩ := hst.kept k c' hc' (process?_of_grip hgrip hkind)
      exact ⟨c, hc, hgrip.trans hgrip', fun h => hP (hP' h)⟩
    · -- a slot that no longer names the line does not name it again
      have hstay : ∀ k, (∀ c', t.held k = some c' → c'.object ≠ .interrupt i) →
          ∀ c'', u.held k = some c'' → c''.object ≠ .interrupt i := by
        intro k hk c'' hc'' hobject
        obtain ⟨c', hc', hgrip, _⟩ := htu.kept k c'' hc'' (by rw [hobject]; rfl)
        exact hk c' hc' ((congrArg Prod.fst hgrip).symm.trans hobject)
      rcases htu.lines i with hsame | hX | ⟨k, c', hc', hobject, hP', hgone⟩
      · rcases hst.lines i with hsame' | hX | ⟨k, c, hc, hobject, hP, hgone⟩
        · exact .inl (hsame.trans hsame')
        · exact .inr (.inl hX)
        · exact .inr (.inr ⟨k, c, hc, hobject, hP, hstay k hgone⟩)
      · exact .inr (.inl hX)
      · obtain ⟨c, hc, hgrip, hP⟩ := hst.kept k c' hc' (by rw [hobject]; rfl)
        exact .inr (.inr ⟨k, c, hc, (congrArg Prod.fst hgrip).symm.trans hobject, hP hP', hgone⟩)

theorem Drops.widen {Y : ℕ → Prop} (h : Drops P X s t) (hXY : ∀ i, X i → Y i) : Drops P Y s t :=
  ⟨h.spared, h.kept, fun i => (h.lines i).imp_right (Or.imp_left (hXY i)), h.queue⟩

/-- The parts of the state that a release of capabilities is not about. -/
abbrev offSlots : List Part :=
  [.handover, .dirty, .reclaim, .backend, .layout, .life, .space, .population, .jobs, .current,
    .threadLife, .threadRun, .threadContext, .vmos, .regions, .vmarRefs, .sockets, .profiles,
    .scheduler, .pins, .iommuDomains, .dmaMappings, .counters]

theorem drops_of_same (hhandles : t.handles = s.handles) (hlines : ∀ i, t.line i = s.line i ∨ X i)
    (hqueue : ∀ h ∈ t.queuedHandles, h ∈ s.queuedHandles) : Drops P X s t := by
  have hheld : ∀ k, t.held k = s.held k := fun k => by
    unfold held
    rw [hhandles]
  refine ⟨fun k c hc hP => ⟨c, (hheld k).trans hc, rfl, hP⟩,
    fun k c hc _ => ⟨c, (hheld k).symm.trans hc, rfl, id⟩, fun i => ?_, hqueue⟩
  rcases hlines i with hsame | hX
  · exact .inl hsame
  · exact .inr (.inl hX)

instance : Covers (B := B) (Drops P X) offSlots where
  le s t ht := by
    have hlines : t.interrupts = s.interrupts := ht .interrupts (by decide)
    have hchannels : t.channels = s.channels := ht .channels (by decide)
    refine drops_of_same (ht .handles (by decide)) (fun i => ?_) fun h hh => ?_
    · unfold line
      rw [hlines]
      exact .inl rfl
    · unfold queuedHandles at hh ⊢
      rwa [hchannels] at hh

/-! ### Releasing an object -/

theorem queued_of_modifyChannel (hf : ∀ c e, ∀ m ∈ (f c).queues.get e, m ∈ c.queues.get e) :
    ∀ h ∈ (modifyChannel id f s).queuedHandles, h ∈ s.queuedHandles := by
  intro h hh
  rw [mem_queuedHandles] at hh ⊢
  obtain ⟨c, hc, e, m, hm, hmem⟩ := hh
  obtain ⟨i, hi⟩ := List.mem_iff_getElem?.mp hc
  unfold modifyChannel at hi
  rw [List.getElem?_modify] at hi
  rw [Option.map_eq_map, Option.map_eq_some_iff] at hi
  obtain ⟨c₀, hc₀, rfl⟩ := hi
  refine ⟨c₀, List.mem_of_getElem? hc₀, e, m, ?_, hmem⟩
  split at hm
  · exact hf c₀ e m hm
  · exact hm

/-- A write to a channel that only takes messages out of its queues. -/
theorem drops_modifyChannel (hf : ∀ c e, ∀ m ∈ (f c).queues.get e, m ∈ c.queues.get e) :
    Drops P X s (modifyChannel id f s) :=
  drops_of_same rfl (fun _ => .inl rfl) (queued_of_modifyChannel hf)

variable [Backend B]

/-- What giving back a reference does; what it returns travelled to the channel end. -/
theorem drops_releaseRef (object : Object) (s : Runtime B) : wp (releaseRef object)
      (fun travelling t => Drops P (fun i => object = .interrupt i) s t ∧
        ∀ h ∈ travelling, object.channel?.isSome ∧ h ∈ s.queuedHandles)
      (fun _ => Drops P (fun i => object = .interrupt i) s) s := by
  -- references that no handle slot, queue or interrupt depends on
  have hframe : ∀ x : RtM B Unit, Moves (Touches offSlots) x →
      wp (do x; return []) (fun travelling t => Drops P (fun i => object = .interrupt i) s t ∧
        ∀ h ∈ travelling, object.channel?.isSome ∧ h ∈ s.queuedHandles)
      (fun _ => Drops P (fun i => object = .interrupt i) s) s := by
    intro x hx
    rw [wp_bind]
    exact wp_mono (hx.run s) (fun _ t ht => (wp_pure _).mpr ⟨Covers.le s t ht, by simp⟩)
      fun _ t ht => Covers.le s t ht
  cases object with
  | vmo id | vmar id | iommuDomain id | profile id | replyToken id e callId =>
    exact hframe _ inferInstance
  | interrupt id =>
    unfold releaseRef
    rw [wp_bind, wp_modify, wp_bind]
    have hset : Drops P (fun i => Object.interrupt id = .interrupt i) s
        { s with interrupts := s.interrupts.set id none } := by
      refine drops_of_same rfl (fun i => ?_) fun _ hh => hh
      unfold line
      rw [List.getElem?_set]
      by_cases hi : id = i
      · exact .inr (hi ▸ rfl)
      · exact .inl (by rw [if_neg hi])
    refine wp_of_moves (R := Touches offSlots) (fun _ t ht => ?_) fun _ t ht => ?_
    · exact (wp_pure _).mpr ⟨trans_of _ hset (Covers.le _ t ht), by simp⟩
    · exact trans_of _ hset (Covers.le _ t ht)
  -- the last reference of an end empties its queue and returns the handles in it
  | channel id e =>
    unfold releaseRef
    rw [wp_bind]
    refine wp_of_total (R := Touches offSlots) fun _ t ht => ?_
    have hst : Drops P (fun i => Object.channel id e = .interrupt i) s t := Covers.le s t ht
    simp only [wp_bind, wp_get, wp_unwrap, wp_ite, wp_halt, wp_modify, wp_pure]
    refine fun c hc => ⟨fun _ => trivial, fun _ => ⟨fun _ => ⟨?_, ?_⟩, fun _ => ⟨?_, by simp⟩⟩⟩
    · refine trans_of _ hst (drops_modifyChannel fun c e' m hm => ?_)
      simp only [Ends.get_modify] at hm
      split at hm
      · cases hm
      · exact hm
    · intro h hh
      obtain ⟨m, hm, hmem⟩ := List.mem_flatMap.mp hh
      exact ⟨rfl, hst.queue h (mem_queuedHandles.mpr
        ⟨c, List.mem_of_getElem? hc, e, m, hm, hmem⟩)⟩
    · refine trans_of _ hst (drops_modifyChannel ?_)
      exact fun _ _ _ hm => hm
  | socket id e =>
    unfold releaseRef
    rw [wp_bind]
    refine wp_of_total (R := Touches offSlots) fun _ t ht => ?_
    have hst : Drops P (fun i => Object.socket id e = .interrupt i) s t := Covers.le s t ht
    simp only [wp_bind, wp_get, wp_unwrap, wp_ite, wp_halt, wp_modify, wp_pure]
    have hsocket : ∀ (f : Socket → Socket) u, Drops P (fun i => Object.socket id e = .interrupt i)
        s u → Drops P (fun i => Object.socket id e = .interrupt i) s (modifySocket id f u) := by
      intro f u hu
      refine trans_of _ hu ?_
      exact drops_of_same rfl (fun _ => .inl rfl) fun _ hh => hh
    exact fun c hc => ⟨fun _ => trivial, fun _ =>
      ⟨fun _ => ⟨hsocket _ _ (hsocket _ _ hst), by simp⟩, fun _ => ⟨hsocket _ _ hst, by simp⟩⟩⟩
  | process id | job id | space id | thread id | resourceGroup id =>
    exact (wp_pure _).mpr ⟨refl_of _ s, by simp⟩

omit [Backend B] in
/-- A capability leaves its slot, and the object it names is released. -/
theorem drops_of_clearSlot {s t : Runtime B} {k : ℕ} {c : Capability} (hc : s.held k = some c)
    (hP : P k c) (ht : Drops P (fun i => c.object = .interrupt i) (clearSlot k s) t) :
    Sheds P s t := by
  have hother : ∀ j, j ≠ k → (clearSlot k s).held j = s.held j := fun j hj => by
    rw [held_clearSlot, if_neg hj.symm]
  have hcleared : (clearSlot k s).held k = none := by rw [held_clearSlot, if_pos rfl]
  refine ⟨fun j d hd hnot => ?_, fun j d hd hkind => ?_, fun i => ?_, ht.queue⟩
  · have hj : j ≠ k := by
      rintro rfl
      exact hnot (Option.some.inj (hc.symm.trans hd) ▸ hP)
    exact ht.spared j d ((hother j hj).trans hd) hnot
  · obtain ⟨d', hd', hgrip, hPd⟩ := ht.kept j d hd hkind
    have hj : j ≠ k := by
      rintro rfl
      rw [hcleared] at hd'
      cases hd'
    exact ⟨d', (hother j hj).symm.trans hd', hgrip, hPd⟩
  · rcases ht.lines i with hsame | hobject | ⟨j, d, hd, hobject, hPd, hgone⟩
    · exact .inl hsame
    · refine .inr (.inr ⟨k, c, hc, hobject, hP, fun c' hc' hobject' => ?_⟩)
      obtain ⟨d', hd', _⟩ := ht.kept k c' hc' (by rw [hobject']; rfl)
      rw [hcleared] at hd'
      cases hd'
    · have hj : j ≠ k := by
        rintro rfl
        rw [hcleared] at hd
        cases hd
      exact .inr (.inr ⟨j, d, (hother j hj).symm.trans hd, hobject, hPd, hgone⟩)

omit [Backend B] in
/-- A vacant slot is emptied again. -/
theorem drops_of_clearVacant {s : Runtime B} {k : ℕ} (hk : s.held k = none) :
    Drops P X s (clearSlot k s) := by
  have hheld : ∀ j, (clearSlot k s).held j = s.held j := fun j => by
    rw [held_clearSlot]
    split
    · rename_i hj
      rw [← hj, hk]
    · rfl
  exact ⟨fun j c hc hP => ⟨c, (hheld j).trans hc, rfl, hP⟩,
    fun j c hc _ => ⟨c, (hheld j).symm.trans hc, rfl, id⟩, fun _ => .inl rfl, fun _ hh => hh⟩

/-- `P` holds of what travels in queued messages. -/
def Travels (P : ℕ → Capability → Prop) (s : Runtime B) : Prop :=
  ∀ h ∈ s.queuedHandles, h ≠ 0 → ∀ c, P (h - 1) c

omit [Backend B] in
theorem Travels.of_drops (hs : Travels P s) (ht : Drops P X s t) : Travels P t :=
  fun h hh => hs h (ht.queue h hh)

omit [Backend B] in
theorem Travels.skip {α β : Type} {x} {f : α → RtM B β} (hs : Travels P s) [Moves (Sheds P) x]
    (hf : ∀ a t, Travels P t → ends (f a) (Sheds P t) t) : ends (x >>= f) (Sheds P s) s :=
  Moves.skip (R := Sheds P) fun a t ht => hf a t (hs.of_drops ht)

/-- What releasing an object does. Only a channel end has messages that travel to it. -/
theorem drops_releaseObjectTo (depth : ℕ) (object : Object)
    (hs : object.channel?.isSome → Travels P s) :
    ends (releaseObjectTo depth object) (Drops P (fun i => object = .interrupt i) s) s := by
  induction depth generalizing object s with
  | zero => exact wp_halt.mpr trivial
  | succ depth ih =>
    unfold ends releaseObjectTo
    rw [wp_bind]
    refine wp_mono (drops_releaseRef object s) fun travelling t ht => ?_
    refine wp_forEach (fun rest u => Drops P (fun i => object = .interrupt i) s u ∧
      ∀ h ∈ rest, h ∈ travelling) ?_ (fun u hu => hu.1) _ t ⟨ht.1, fun _ hh => hh⟩
    rintro h rest u ⟨hu, hrest⟩
    obtain ⟨hchannel, hqueued⟩ := ht.2 h (hrest h List.mem_cons_self)
    have htravels : Travels P u := (hs hchannel).of_drops hu
    have hnext : ∀ v, Sheds P u v →
        Drops P (fun i => object = .interrupt i) s v :=
      fun v hv => trans_of _ hu (hv.widen fun _ hX => hX.elim)
    unfold takeSlot
    simp only [wp_bind, wp_get, wp_ite, wp_halt, wp_unwrap, wp_modify, wp_pure]
    refine ⟨fun _ => trivial, fun hh slot hslot => ?_⟩
    have hheld : u.held (h - 1) = slot := by
      unfold held
      rw [hslot, Option.join_some]
    have hlisted : ∀ h' ∈ rest, h' ∈ travelling := fun h' hh' =>
      hrest h' (List.mem_cons_of_mem _ hh')
    cases slot with
    | none => exact (wp_pure _).mpr ⟨hnext _ (drops_of_clearVacant hheld), hlisted⟩
    | some c =>
      dsimp only
      rw [wp_bind]
      have hclear : Travels P (clearSlot (h - 1) u) := htravels
      refine wp_of_total (R := Touches offSlots) fun _ v hv => ?_
      have hv' : Drops P (fun i => c.object = .interrupt i) (clearSlot (h - 1) u) v :=
        Covers.le _ v hv
      refine wp_mono (ih c.object fun _ => hclear.of_drops hv') (fun _ w hw => ?_) fun _ w hw => ?_
      · exact ⟨hnext w (drops_of_clearSlot hheld (hs hchannel h hqueued hh c)
          (trans_of _ hv' hw)), hlisted⟩
      · exact hnext w (drops_of_clearSlot hheld (hs hchannel h hqueued hh c) (trans_of _ hv' hw))

/-- A slot is emptied and its object released. -/
theorem drops_releaseSlot {k : ℕ} (hc : s.held k = some c) (hP : P k c)
    (hs : c.object.channel?.isSome → Travels P s) :
    ends (do modify (clearSlot k); changed .handle k; releaseObject c.object) (Sheds P s) s := by
  unfold ends
  rw [wp_bind, wp_modify, wp_bind]
  refine wp_of_total (R := Touches offSlots) fun _ t ht => ?_
  have hst : Drops P (fun i => c.object = .interrupt i) (clearSlot k s) t := Covers.le _ t ht
  have htravels : c.object.channel?.isSome → Travels P t := fun hchannel => by
    have hcleared : Travels P (clearSlot k s) := hs hchannel
    exact hcleared.of_drops hst
  unfold releaseObject
  rw [wp_bind, wp_get]
  refine wp_mono (drops_releaseObjectTo _ c.object htravels) (fun _ u hu => ?_) fun _ u hu => ?_
  · exact drops_of_clearSlot hc hP (trans_of _ hst hu)
  · exact drops_of_clearSlot hc hP (trans_of _ hst hu)

theorem drops_close (hP : ∀ c, s.slot h = some c → P (h - 1) c)
    (hs : ∀ c, s.slot h = some c → c.object.channel?.isSome → Travels P s) :
    ends (close h) (Sheds P s) s := by
  unfold ends close
  rw [wp_bind]
  refine wp_cap (fun c hc => ?_) fun _ => refl_of _ s
  exact drops_releaseSlot (slot_eq_some.mp hc).2 (hP c hc) (hs c hc)

theorem drops_dropSlot {i} (hP : ∀ c, s.held i = some c → P i c) (hs : Travels P s) :
    ends (dropSlot i) (Sheds P s) s := by
  unfold ends dropSlot
  rw [wp_bind, wp_get]
  cases hc : (s.handles[i]?).join with
  | none => exact (wp_pure _).mpr (refl_of _ s)
  | some c => exact drops_releaseSlot hc (hP c hc) fun _ => hs

/-! ### Releasing what a process owns -/

/-- A slot is left alone or emptied. -/
def vacates : SlotRel := fun _ a b => ∀ c, b = some c → a = some c

instance (k) : Std.Refl (vacates k) := ⟨fun _ _ h => h⟩

instance (k) : IsTrans _ (vacates k) := ⟨fun _ _ _ h₁ h₂ c hc => h₁ c (h₂ c hc)⟩

instance (object) : Empties vacates object := ⟨fun _ _ _ _ h => by cases h⟩

/-- The parts of the state other than the handle table. -/
abbrev offHandles : List Part := .channels :: .interrupts :: offSlots

instance : HandleFree offHandles := ⟨by decide⟩

omit [Backend B] in
/-- A loop over slots whose capabilities may be released. -/
theorem drops_releaseEach {f : ℕ → RtM B Unit} [∀ i, Moves (Shifts offHandles vacates) (f i)]
    {slots} (hslots : ∀ i ∈ slots, ∀ c, s.held i = some c → P i c) (hs : Travels P s)
    (hf : ∀ i t, (∀ c, t.held i = some c → P i c) → Travels P t → ends (f i) (Sheds P t) t) :
    ends (forEach slots f) (Sheds P s) s := by
  refine wp_forEach (fun rest t => Sheds P s t ∧ (∀ i ∈ rest, i ∈ slots) ∧
    ∀ k, vacates k (s.held k) (t.held k)) ?_ (fun t ht => ht.1) _ s
    ⟨refl_of _ s, fun _ hi => hi, fun k => refl_of (vacates k) _⟩
  rintro i rest t ⟨ht, hrest, hvacates⟩
  have hP : ∀ c, t.held i = some c → P i c := fun c hc =>
    hslots i (hrest i List.mem_cons_self) c (hvacates i c hc)
  have hshifts : Moves (Shifts offHandles vacates) (f i) := inferInstance
  refine wp_mono (wp_and (hf i t hP (hs.of_drops ht)) (hshifts.run t)) (fun _ u hu => ?_)
    fun _ u hu => ?_
  · exact ⟨trans_of _ ht hu.1, fun j hj => hrest j (List.mem_cons_of_mem _ hj), fun k =>
      trans_of (vacates k) (hvacates k) (hu.2.2 k)⟩
  · exact trans_of _ ht hu.1

omit [Backend B] in
theorem owner_of_ownedSlots {i} (hi : i ∈ s.ownedSlots id) (hc : s.held i = some c) :
    c.owner = id := by
  unfold ownedSlots at hi
  have hany := (List.mem_filter.mp hi).2
  unfold held at hc
  rw [hc] at hany
  exact beq_iff_eq.mp hany

set_option synthInstance.maxSize 100000 in
theorem drops_terminateProcess
    (hP : ∀ c id, s.slot h = some c → c.object = .process id → ∀ k d, d.owner = id → P k d)
    (hs : Travels P s) :
    ends (terminateProcess h exitCode) (Sheds P s) s := by
  unfold ends terminateProcess
  rw [wp_bind]
  refine wp_cap (fun c hc => ?_) fun _ => refl_of _ s
  rw [wp_bind, wp_some?]
  refine ⟨fun id hid => ?_, fun _ => refl_of _ s⟩
  have howned : ∀ k d, d.owner = id → P k d := hP c id hc (Object.eq_process hid)
  simp only [wp_bind (get : RtM B _), wp_get, wp_bind (unwrap _ : RtM B _), wp_unwrap, wp_ite,
    wp_pure]
  refine fun p _ => ⟨fun _ => refl_of _ s, fun _ => ?_⟩
  refine hs.skip fun _ _ ht => ht.skip fun _ _ ht => ht.skip fun _ _ ht => ?_
  unfold ends
  rw [wp_bind, wp_get]
  refine Moves.first (R := Sheds P) ?_
  exact drops_releaseEach (fun i hi c hc => howned i c (owner_of_ownedSlots hi hc)) ht
    fun i t hP ht => drops_dropSlot hP ht

set_option synthInstance.maxSize 100000 in
theorem drops_retireProcess (hP : ∀ k d, d.owner = id → P k d) (hs : Travels P s) :
    ends (retireProcess id) (Sheds P s) s := by
  unfold ends retireProcess
  rw [wp_bind, wp_get]
  refine hs.skip fun _ _ ht => ht.skip fun _ _ ht => ht.skip fun _ _ ht => ht.skip fun _ _ ht =>
    ht.skip fun _ _ ht => Moves.first (R := Sheds P) ?_
  unfold ends retireResources
  rw [wp_bind, wp_get]
  refine Moves.first (R := Sheds P) ?_
  refine drops_releaseEach (fun i hi c hc => hP i c (owner_of_ownedSlots hi hc)) ht
    fun i y hPi hy => ?_
  unfold ends
  rw [wp_bind, wp_attempt]
  refine wp_mono (drops_close (fun c hc => hPi c (slot_eq_some.mp hc).2) fun _ _ _ => hy)
    (fun _ z hz => (wp_pure _).mpr hz) fun _ z hz => (wp_pure _).mpr hz

/-! ### Operations that end processes -/

omit [Backend B] in
/-- A slot that was vacant may be forgotten. -/
theorem Drops.forget {k : ℕ} {s t : Runtime B} (hk : s.held k = none)
    (h : Drops (fun j c => P j c ∨ j = k) X s t) : Drops P X s t := by
  have hne : ∀ {j : ℕ} {c : Capability}, s.held j = some c → j ≠ k := by
    rintro j c hc rfl
    rw [hk] at hc
    cases hc
  refine ⟨fun j c hc hP => ?_, fun j c' hc' hkind => ?_, fun i => ?_, h.queue⟩
  · obtain ⟨c', hc', hgrip, hnot⟩ := h.spared j c hc (not_or.mpr ⟨hP, hne hc⟩)
    exact ⟨c', hc', hgrip, fun hP' => hnot (.inl hP')⟩
  · obtain ⟨c, hc, hgrip, hP⟩ := h.kept j c' hc' hkind
    exact ⟨c, hc, hgrip, fun hP' => (hP (.inl hP')).resolve_right (hne hc)⟩
  · rcases h.lines i with hsame | hX | ⟨j, c, hc, hobject, hP, hgone⟩
    · exact .inl hsame
    · exact .inr (.inl hX)
    · exact .inr (.inr ⟨j, c, hc, hobject, hP.resolve_right (hne hc), hgone⟩)

omit [Backend B] in
/-- A handle to a process is new. -/
theorem drops_of_fill {s t : Runtime B} {process owner : ℕ} {rights : UInt32}
    (hhandles : t.handles = putSlot s.handles (firstFree s.handles)
      ⟨.process process, rights, owner⟩)
    (hlines : t.interrupts = s.interrupts) (hchannels : t.channels = s.channels) :
    Drops P X s t := by
  have hheld : ∀ k, t.held k = if k = firstFree s.handles then
      some ⟨.process process, rights, owner⟩ else s.held k := fun k => by
    rw [← held_putSlot]
    unfold held
    rw [hhandles]
  refine ⟨fun k c hc hP => ⟨c, ?_, rfl, hP⟩, fun k c' hc' hkind => ⟨c', ?_, rfl, id⟩,
    fun i => ?_, fun h hh => ?_⟩
  · rw [hheld, if_neg, hc]
    rintro rfl
    rw [held_firstFree] at hc
    cases hc
  · rw [hheld] at hc'
    split at hc'
    · rw [← Option.some.inj hc'] at hkind
      cases hkind
    · exact hc'
  · left
    unfold line
    rw [hlines]
  · unfold queuedHandles at hh ⊢
    rwa [hchannels] at hh

omit [Backend B] in
theorem wp_grantCurrent_process {process : ℕ} {rights : UInt32} {Q : ℕ → Runtime B → Prop}
    {E : Status → Runtime B → Prop} (hQ : ∀ t, t.handles = putSlot s.handles (firstFree s.handles)
      ⟨.process process, rights, s.current⟩ → t.interrupts = s.interrupts →
      t.channels = s.channels → Q (firstFree s.handles + 1) t) :
    wp (grantCurrent (.process process) rights) Q E s := by
  simp only [grantCurrent, grant, markObject, acquireRef, fillSlot, changed, wp_bind, wp_get,
    wp_pure, wp_modify]
  exact hQ _ rfl rfl rfl

theorem drops_terminateJob (hP : ∀ c id, s.slot h = some c → c.object = .job id →
      ∀ k d, d.owner ∈ s.jobMembers id → P k d) (hs : Travels P s) :
    ends (terminateJob h exitCode) (Sheds P s) s := by
  unfold ends terminateJob
  rw [wp_bind]
  refine wp_cap (fun c hc => ?_) fun _ => refl_of _ s
  simp only [wp_bind (some? _ _ : RtM B _), wp_some?, wp_bind (get : RtM B _), wp_get]
  refine ⟨fun id hid => ⟨fun _ _ => ?_, fun _ => refl_of _ s⟩, fun _ => refl_of _ s⟩
  have howned : ∀ k d, d.owner ∈ s.jobMembers id → P k d := hP c id hc (Object.eq_job hid)
  refine Moves.first (R := Sheds P) ?_
  refine wp_forEach (fun rest t => Sheds P s t ∧
    ∀ process ∈ rest, process ∈ s.jobMembers id) ?_ (fun t ht => ht.1) _ s
    ⟨refl_of _ s, fun _ hm => hm⟩
  rintro process rest t ⟨ht, hrest⟩
  -- the handle made for the member may be released as well, and its slot was vacant
  let P' : ℕ → Capability → Prop := fun j c => P j c ∨ j = firstFree t.handles
  have htravels : Travels P' t := fun h hh hne c => .inl (hs.of_drops ht h hh hne c)
  suffices hbody : ends (do
      let h ← grantCurrent (.process process) (ADMIN ||| MANAGE_TASK)
      terminateProcess h exitCode
      close h) (Sheds P' t) t by
    refine wp_mono hbody (fun _ u hu => ?_) fun _ u hu => ?_
    · exact ⟨trans_of _ ht (hu.forget (held_firstFree t)), fun m hm =>
        hrest m (List.mem_cons_of_mem _ hm)⟩
    · exact trans_of _ ht (hu.forget (held_firstFree t))
  unfold ends
  rw [wp_bind]
  refine wp_grantCurrent_process fun u hhandles hlines hchannels => ?_
  have htu : Sheds P' t u := drops_of_fill hhandles hlines hchannels
  have hprocess : ∀ c id, u.slot (firstFree t.handles + 1) = some c → c.object = .process id →
      ∀ k d, d.owner = id → P' k d := by
    intro c id' hc hobject k d hd
    rw [slot_of_grant hhandles] at hc
    rw [← Option.some.inj hc] at hobject
    rw [← Object.process.inj hobject] at hd
    exact .inl (howned k d (hd ▸ hrest process List.mem_cons_self))
  have hend : ends (do
      terminateProcess (firstFree t.handles + 1) exitCode
      close (firstFree t.handles + 1)) (Sheds P' u) u := by
    refine Moves.seq (R := Sheds P')
      (drops_terminateProcess hprocess (htravels.of_drops htu)) fun _ v hv => ?_
    exact drops_close (fun _ _ => .inr rfl) fun _ _ _ => (htravels.of_drops htu).of_drops hv
  exact Moves.wp_trans htu hend

theorem drops_discardCandidate
    (hP : ∀ c id, s.slot h = some c → c.object = .process id → ∀ k d, d.owner = id → P k d)
    (hs : Travels P s) :
    ends (discardCandidate h) (Sheds P s) s := by
  unfold ends discardCandidate
  rw [wp_bind, wp_get, wp_bind, wp_check]
  refine ⟨fun _ => ?_, fun _ => refl_of _ s⟩
  rw [wp_bind]
  refine wp_cap (fun c hc => ?_) fun _ => refl_of _ s
  simp only [wp_bind, wp_some?, wp_unwrap, wp_check]
  refine ⟨fun id hid p _ => ⟨fun _ => ?_, fun _ => refl_of _ s⟩, fun _ => refl_of _ s⟩
  exact drops_retireProcess (hP c id hc (Object.eq_process hid)) hs

theorem drops_abortHandoverInternal (hP : ∀ h ∈ s.handover, ∀ k d, d.owner = h.target → P k d)
    (hs : Travels P s) :
    ends abortHandoverInternal (Sheds P s) s := by
  unfold ends abortHandoverInternal
  rw [wp_bind, wp_get]
  cases hh : s.handover with
  | none => exact (wp_pure _).mpr (refl_of _ s)
  | some h =>
    refine hs.skip fun _ _ ht => ht.skip fun _ _ ht => ht.skip fun _ _ ht => ht.skip fun _ _ ht => ?_
    exact drops_retireProcess (hP h hh) ht

theorem drops_abortHandover (hP : ∀ h ∈ s.handover, ∀ k d, d.owner = h.target → P k d)
    (hs : Travels P s) :
    ends abortHandover (Sheds P s) s := by
  unfold abortHandover
  simp only [wp_bind, wp_get, wp_some?, wp_check]
  exact ⟨fun _ _ => ⟨fun _ => drops_abortHandoverInternal hP hs, fun _ => refl_of _ s⟩,
    fun _ => refl_of _ s⟩

/-- A handover keeps its parties. -/
def SameParties (s t : Runtime B) : Prop :=
  t.handover.map (fun h => (h.source, h.target)) = s.handover.map fun h => (h.source, h.target)

omit [Backend B] in
theorem SameParties.target (ht : SameParties s t) {Q : ℕ → Prop}
    (hQ : ∀ h ∈ s.handover, Q h.target) : ∀ h ∈ t.handover, Q h.target := by
  intro h hh
  obtain ⟨h', hh', heq⟩ := exists_of_map_eq ht hh
  have htarget : h'.target = h.target := congrArg Prod.snd heq
  exact htarget ▸ hQ h' hh'

instance : Std.Refl (SameParties (B := B)) := ⟨fun _ => rfl⟩

instance : IsTrans (Runtime B) SameParties := ⟨fun _ _ _ h₁ h₂ => h₂.trans h₁⟩

/-- The parts of the state that have no part in a handover, except for the handle table. -/
abbrev offParties : List Part :=
  [.dirty, .reclaim, .backend, .layout, .life, .space, .population, .jobs, .current,
    .threadLife, .threadRun, .threadContext, .vmos, .regions, .vmarRefs, .channels, .sockets,
    .profiles, .scheduler, .pins, .iommuDomains, .dmaMappings, .interrupts, .counters]

instance : Covers (SameParties (B := B)) offParties where
  le s t ht := by
    have hhandover : t.handover = s.handover := ht .handover (by decide)
    unfold SameParties
    rw [hhandover]

instance (session : Handover → Session) :
    Moves (SameParties (B := B)) (modify (modifyHandover fun h => { h with session := session h }) :
      RtM B Unit) :=
  .modify fun s => by
    unfold SameParties modifyHandover
    cases s.handover <;> rfl

theorem drops_pollHandover {now} (hP : ∀ h ∈ s.handover, ∀ k d, d.owner = h.target → P k d)
    (hs : Travels P s) : ends (pollHandover now) (Sheds P s) s := by
  unfold ends pollHandover
  rw [wp_bind, wp_get]
  cases hh : s.handover with
  | none => exact (wp_pure _).mpr (refl_of _ s)
  | some h =>
    have hsession : Moves SameParties (onSession (Session.poll now) : RtM B _) := inferInstance
    have hframe : Moves (Sheds P) (onSession (Session.poll now) : RtM B _) :=
      inferInstance
    dsimp only
    rw [wp_bind]
    refine wp_mono ((hframe.both hsession).run s) (fun r t ht => ?_) fun _ t ht => ht.1
    cases r with
    | ok _ => exact (wp_pure _).mpr ht.1
    | error _ =>
      have htarget := ht.2.target (Q := fun target => ∀ k d, d.owner = target → P k d) hP
      have habort := drops_abortHandoverInternal htarget (hs.of_drops ht.1)
      exact Moves.wp_trans ht.1 habort

omit [Backend B] in
/-- A capability that may be released changes its owner, and may still be released. -/
theorem drops_of_setOwner {s : Runtime B} {i owner : ℕ} (hP : ∀ c, s.held i = some c → P i c) :
    Drops P X s (setOwner i owner s) := by
  refine ⟨fun k c hc hnot => ⟨c, ?_, rfl, hnot⟩, fun k c' hc' _ => ?_, fun _ => .inl rfl,
    fun _ hh => hh⟩
  · rw [held_setOwner, if_neg, hc]
    rintro rfl
    exact hnot (hP c hc)
  · rw [held_setOwner] at hc'
    split at hc'
    · rename_i hk
      subst hk
      obtain ⟨c, hc, rfl⟩ := Option.map_eq_some_iff.mp hc'
      exact ⟨c, hc, rfl, fun _ => hP c hc⟩
    · exact ⟨c', hc', rfl, id⟩

set_option synthInstance.maxSize 100000 in
/-- What is preserved moves to the target; afterwards the source is retired. -/
theorem drops_finishHandover {h : Handover}
    (hP : ∀ k d, d.owner = h.source ∨ d.owner = h.target → P k d)
    (hpreserved : ∀ handle ∈ h.handles, ∀ c, s.slot handle = some c → c.owner = h.source)
    (hs : Travels P s) :
    ends (finishHandover h) (Sheds P s) s := by
  unfold ends finishHandover movePreserved
  rw [wp_bind, wp_modify]
  have hstart : Sheds P s { s with handover := none } :=
    drops_of_same rfl (fun _ => .inl rfl) fun _ hh => hh
  suffices hrest : ends _ (Sheds P { s with handover := none }) { s with handover := none } from
    Moves.wp_trans hstart hrest
  refine Moves.seq (R := Sheds P) ?_ fun _ t ht => ?_
  · refine Moves.first (R := Sheds P) ?_
    -- the handles still to be moved are the source's, or have been moved already
    refine wp_forEach (fun rest t => Sheds P { s with handover := none } t ∧
      ∀ handle ∈ rest, ∀ c, t.slot handle = some c → c.owner = h.source ∨ c.owner = h.target) ?_
      (fun t ht => ht.1) _ _ ⟨refl_of _ _, fun handle hh c hc =>
        .inl (hpreserved handle hh c hc)⟩
    rintro handle rest t ⟨ht, hrest⟩
    simp only [wp_bind, wp_get, wp_unwrap, wp_modify]
    refine fun c hc => ⟨trans_of _ ht (drops_of_setOwner fun c' hc' => ?_), fun other ho d hd => ?_⟩
    · exact hP _ _ (hrest handle List.mem_cons_self c' (slot_eq_some.mpr
        ⟨(slot_eq_some.mp hc).1, hc'⟩))
    · obtain ⟨hne, hheld⟩ := slot_eq_some.mp hd
      rw [held_setOwner] at hheld
      split at hheld
      · obtain ⟨c', _, rfl⟩ := Option.map_eq_some_iff.mp hheld
        exact .inr rfl
      · exact hrest other (List.mem_cons_of_mem _ ho) d (slot_eq_some.mpr ⟨hne, hheld⟩)
  · have htravels : Travels P t := (hs.of_drops hstart).of_drops ht
    unfold ends
    rw [wp_bind, wp_get]
    refine htravels.skip fun _ _ ht => ht.skip fun _ _ ht => ht.skip fun _ _ ht =>
      ht.skip fun _ _ ht => ?_
    exact drops_retireProcess (fun k d hd => hP k d (.inl hd)) ht

set_option synthInstance.maxSize 100000 in
omit [Backend B] in
/-- What the checks of `commit_handover` establish about the preserved handles. -/
theorem wp_checkCommit_handles {h} :
    wp (checkCommit h) (fun _ t => t = s ∧ s.preservedHandlesOk h) (fun _ t => t = s) s := by
  unfold checkCommit
  rw [wp_bind, wp_get]
  simp only [wp_bind (check _ _ : RtM B _), wp_check, implies_true, and_true]
  intro _ _ hok
  exact wp_of_moves (R := Eq) (fun _ t ht => ⟨ht.symm, hok⟩) fun _ t ht => ht.symm

theorem drops_commitHandover {now}
    (hP : ∀ h ∈ s.handover, ∀ k d, d.owner = h.source ∨ d.owner = h.target → P k d)
    (hs : Travels P s) : ends (commitHandover now) (Sheds P s) s := by
  unfold ends commitHandover
  rw [wp_bind, wp_get, wp_bind, wp_some?]
  refine ⟨fun h hh => ?_, fun _ => refl_of _ s⟩
  rw [wp_bind]
  refine wp_mono wp_checkCommit_handles (fun target t ht => ?_) fun _ t ht =>
    by rw [ht]; exact refl_of _ s
  obtain ⟨rfl, hok⟩ := ht
  -- up to the decision neither the handle table nor the parties change
  let R : Runtime B → Runtime B → Prop := fun s t => Touches offSlots s t ∧ SameParties s t
  have hframe : ∀ {α : Type} (x : RtM B α) [Moves (Touches offSlots) x] [Moves SameParties x] u,
      ends x (R u) u := fun x hx hy u => (Moves.both hx hy).run u
  have hdrops : ∀ u v, R u v → Sheds P u v := fun u v huv =>
    Covers.le u v huv.1
  rw [wp_bind]
  refine wp_mono (hframe (mapPreserved target.root h.mappings []) t) (fun mapped u hu => ?_)
    fun _ u hu => hdrops t u hu
  rw [wp_bind]
  refine wp_mono (hframe (onBackend Backend.flushMappings) u) (fun _ v hv => ?_)
    fun _ v hv => trans_of _ (hdrops t u hu) (hdrops u v hv)
  rw [wp_bind, wp_get, wp_bind]
  refine wp_mono (hframe (onSession _) v) (fun r w hw => ?_)
    fun _ w hw => trans_of _ (trans_of _ (hdrops t u hu) (hdrops u v hv)) (hdrops v w hw)
  have htouches : Touches offSlots t w := trans_of _ (trans_of _ hu.1 hv.1) hw.1
  have htw : Sheds P t w := Covers.le t w htouches
  have htravels : Travels P w := hs.of_drops htw
  cases r with
  | ok _ =>
    refine Moves.wp_trans htw
      (drops_finishHandover (hP h hh) (fun handle hmem c hc => ?_) htravels)
    have hhandles : w.handles = t.handles := htouches .handles (by decide)
    have hslot : t.slot handle = some c := by
      rw [← hc]
      unfold slot
      rw [hhandles]
    have howner := List.all_eq_true.mp hok handle hmem
    rw [hslot] at howner
    exact beq_iff_eq.mp howner
  | error _ =>
    have hparties : SameParties t w := trans_of _ (trans_of _ hu.2 hv.2) hw.2
    have htarget := hparties.target (Q := fun target => ∀ k d, d.owner = target → P k d)
      fun h hh k d hd => hP h hh k d (.inr hd)
    have hend : ends (do
        unmapAll target.root mapped
        abortHandoverInternal
        fail .errTimedOut : RtM B Unit) (Sheds P w) w := by
      unfold ends
      rw [wp_bind]
      refine wp_mono (hframe (unmapAll target.root mapped) w) (fun _ x hx => ?_)
        fun _ x hx => hdrops w x hx
      have hwx := hdrops w x hx
      rw [wp_bind]
      refine wp_mono (drops_abortHandoverInternal
        (hx.2.target (Q := fun target => ∀ k d, d.owner = target → P k d) htarget)
        (htravels.of_drops hwx)) (fun _ y hy => ?_) fun _ y hy => trans_of _ hwx hy
      exact (wp_fail _).mpr (trans_of _ hwx hy)
    exact Moves.wp_trans htw hend

/-! ### The end of the current thread -/

/-- The current process is one of a few. -/
def CurrentIn (l : List ℕ) (s : Runtime B) : Prop := s.current ∈ l

/-- The parts of the state other than the current process. -/
abbrev offCurrent : List Part :=
  [.handover, .dirty, .reclaim, .backend, .layout, .life, .space, .population, .jobs,
    .threadLife, .threadRun, .threadContext, .vmos, .regions, .vmarRefs, .handles, .channels,
    .sockets, .profiles, .scheduler, .pins, .iommuDomains, .dmaMappings, .interrupts, .counters]

instance (l) : Covers (Keeps (CurrentIn (B := B) l)) offCurrent  where
  le s t ht hs := by
    have hcurrent : t.current = s.current := (ht .current (by decide)).1
    unfold CurrentIn
    rwa [hcurrent]

variable {l : List ℕ}

set_option synthInstance.maxSize 100000 in
theorem wp_retireProcess_current (hs : s.CurrentIn l) (hid : id ∈ l) :
    ends (retireProcess id) (CurrentIn l) s := by
  unfold ends retireProcess
  rw [wp_bind, wp_get, wp_bind, wp_modify]
  have hstart : CurrentIn l { s with current := id, deferReclamation := true } := hid
  have hlast : Moves (Keeps (CurrentIn l)) (modify fun t =>
      { t with current := s.current, deferReclamation := s.deferReclamation } : RtM B Unit) :=
    .modify fun _ _ => hs
  exact Moves.keep inferInstance hstart

set_option synthInstance.maxSize 100000 in
theorem wp_abortHandover_current (hs : s.CurrentIn l) (htarget : ∀ h ∈ s.handover, h.target ∈ l) :
    ends abortHandover (CurrentIn l) s := by
  unfold abortHandover abortHandoverInternal
  simp only [wp_bind (get : RtM B _), wp_get, wp_bind (some? _ _ : RtM B _), wp_some?,
    wp_bind (check _ _ : RtM B _), wp_check]
  refine ⟨fun h hh => ⟨fun _ => ?_, fun _ => hs⟩, fun _ => hs⟩
  rw [hh]
  have hretire : Moves (Keeps (CurrentIn l)) (retireProcess h.target : RtM B Unit) :=
    Moves.of_keeps fun t ht => wp_retireProcess_current ht (htarget h hh)
  exact Moves.keep inferInstance hs

theorem drops_exitCurrentWithCode
    (hP : ∀ id ∈ s.current :: (s.handover.map (·.target)).toList, ∀ k d, d.owner = id → P k d)
    (hs : Travels P s) :
    ends (exitCurrentWithCode exitCode) (Sheds P s) s := by
  unfold ends exitCurrentWithCode
  rw [wp_bind, wp_get]
  let l := s.current :: (s.handover.map (·.target)).toList
  have htarget : ∀ h ∈ s.handover, h.target ∈ l := fun h hh => by
    have hh' : s.handover = some h := hh
    simp [l, hh']
  have hfirst : ends (when s.endsHandover do
        let _ ← attempt abortHandover
        return () : RtM B Unit) (fun t => Sheds P s t ∧ t.CurrentIn l) s := by
    unfold ends
    rw [wp_when]
    refine ⟨fun _ => ?_, fun _ => ⟨refl_of _ s, List.mem_cons_self⟩⟩
    have habort := wp_and (drops_abortHandover (fun h hh => hP h.target (htarget h hh)) hs)
      (wp_abortHandover_current List.mem_cons_self htarget)
    rw [wp_bind, wp_attempt]
    exact wp_mono habort (fun _ _ ht => (wp_pure _).mpr ht) fun _ _ ht => (wp_pure _).mpr ht
  rw [wp_bind]
  refine wp_mono hfirst (fun _ t ht => ?_) fun _ t ht => ht.1
  have hexit : Moves (Sheds P) (exitThread exitCode : RtM B Unit) := inferInstance
  have hcurrent : Moves (Keeps (CurrentIn l)) (exitThread exitCode : RtM B Unit) := inferInstance
  rw [wp_bind]
  refine wp_mono ((hexit.both hcurrent).run t) (fun _ u hu => ?_)
    fun _ u hu => trans_of _ ht.1 hu.1
  have hsu : Sheds P s u := trans_of _ ht.1 hu.1
  rw [wp_bind, wp_get, wp_when]
  refine ⟨fun _ => ?_, fun _ => hsu⟩
  exact Moves.wp_trans hsu (drops_retireProcess (hP u.current (hu.2 ht.2)) (hs.of_drops hsu))

/-! ### Whole operations -/

/-- The processes that an operation may end. -/
def ended (s : Runtime B) : Op B → List ℕ
  | .terminateProcess h _ | .discardCandidate h =>
    ((s.slot h).bind (·.object.process?)).toList
  | .terminateJob h _ => (((s.slot h).bind (·.object.job?)).map s.jobMembers).getD []
  | .exitCurrentWithCode _ => s.current :: (s.handover.map (·.target)).toList
  | .commitHandover _ => (s.handover.map fun h => [h.source, h.target]).getD []
  | .abortHandover | .pollHandover _ => (s.handover.map (·.target)).toList
  | _ => []

/-- May an operation release the capability `c` in a place? Closing a channel end, or ending a
process, may release what travels in queued messages. -/
def releases (s : Runtime B) : Op B → ℕ → Capability → Prop
  | .close h, k, _ =>
    k + 1 = h ∨ (s.slot h).any (·.object.channel?.isSome) ∧ k + 1 ∈ s.queuedHandles
  | op, k, c => op.releasing ∧ (c.owner ∈ s.ended op ∨ k + 1 ∈ s.queuedHandles)

instance (s : Runtime B) (op : Op B) (k : ℕ) (c : Capability) : Decidable (s.releases op k c) := by
  cases op with
  | close h => exact inferInstanceAs (Decidable (_ ∨ _))
  | _ => exact inferInstanceAs (Decidable (_ ∧ _))

omit [Backend B] in
theorem travels_of_queued (hP : ∀ k c, k + 1 ∈ s.queuedHandles → P k c) : Travels P s :=
  fun h hh hne c => hP (h - 1) c (by rwa [Nat.sub_add_cancel (Nat.pos_of_ne_zero hne)])

/-- **What an operation releases.** It takes out of the handle table only what `releases`
says, it adds nothing but handles to processes, and it unbinds only the interrupt lines that
the released capabilities name. -/
theorem drops_exec {op : Op B} (hop : op.releasing) (s) :
    ends (exec op) (Sheds (s.releases op) s) s := by
  cases op <;> try cases hop
  case close h =>
    refine drops_close (fun c hc => .inl (Nat.sub_add_cancel (Nat.pos_of_ne_zero
      (slot_eq_some.mp hc).1))) fun c hc hchannel => travels_of_queued fun k d hk => .inr ⟨?_, hk⟩
    rw [hc]
    exact hchannel
  case terminateProcess h exitCode =>
    refine drops_terminateProcess (fun c id hc hid k d hd => ⟨rfl, .inl ?_⟩)
      (travels_of_queued fun k d hk => ⟨rfl, .inr hk⟩)
    simp [ended, hc, hid, hd, Object.process?]
  case discardCandidate h =>
    refine drops_discardCandidate (fun c id hc hid k d hd => ⟨rfl, .inl ?_⟩)
      (travels_of_queued fun k d hk => ⟨rfl, .inr hk⟩)
    simp [ended, hc, hid, hd, Object.process?]
  case terminateJob h exitCode =>
    refine drops_terminateJob (fun c id hc hid k d hd => ⟨rfl, .inl ?_⟩)
      (travels_of_queued fun k d hk => ⟨rfl, .inr hk⟩)
    simpa [ended, hc, hid, Object.job?] using hd
  case exitCurrentWithCode exitCode =>
    exact drops_exitCurrentWithCode (fun id hid k d hd => ⟨rfl, .inl (hd ▸ hid)⟩)
      (travels_of_queued fun k d hk => ⟨rfl, .inr hk⟩)
  case commitHandover now =>
    refine drops_commitHandover (fun h hh k d hd => ⟨rfl, .inl ?_⟩)
      (travels_of_queued fun k d hk => ⟨rfl, .inr hk⟩)
    have hh' : s.handover = some h := hh
    simpa [ended, hh'] using hd
  case abortHandover =>
    refine drops_abortHandover (fun h hh k d hd => ⟨rfl, .inl ?_⟩)
      (travels_of_queued fun k d hk => ⟨rfl, .inr hk⟩)
    have hh' : s.handover = some h := hh
    simpa [ended, hh'] using hd
  case pollHandover now =>
    refine drops_pollHandover (fun h hh k d hd => ⟨rfl, .inl ?_⟩)
      (travels_of_queued fun k d hk => ⟨rfl, .inr hk⟩)
    have hh' : s.handover = some h := hh
    simpa [ended, hh'] using hd

end Runtime

end Bexos
