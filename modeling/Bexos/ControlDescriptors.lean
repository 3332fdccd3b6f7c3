/-
Which handles a handover preserves.

The source's descriptors of its own process, address space and threads cannot outlive its
retirement, so `preserve_handle` refuses them.  It recognises them by their numbers: those of a
process and of its address space are the process's index, but a thread has an index of its own.

* `Object.ControlOf` — the control descriptors of a process;
* `Runtime.Listable` — what `preserve_handle` asks of a handle besides;
* `Runtime.preserves_no_control_iff` — it does what it should exactly for the threads whose
  index is the source's if and only if they belong to the source;
* `Runtime.own_thread_preserved` — a service that preserves a thread of its own.
-/
import Bexos.RuntimeOps

namespace Bexos

open Prog

/-- The object is a process itself, its address space or one of its threads. -/
def Object.ControlOf {B : Type} (s : Runtime B) (process : ℕ) : Object → Prop
  | .process id | .space id => id = process
  | .thread id => ∃ t, s.threads[id]? = some t ∧ t.process = process
  | _ => False

namespace Runtime

variable {B : Type}

/-- The caller takes part in the handover, resources may still be listed, and the handle is
the source's to pass on. -/
def Listable (s : Runtime B) (h : Handover) (c : Capability) : Prop :=
  (s.current = h.coordinator ∨ s.current = h.source) ∧ h.session.phase.listing ∧
    c.owner = h.source ∧ (c.rights &&& TRANSFER ≠ 0 ∨ c.object.process?.isSome ∨
      c.object.space?.isSome ∨ c.object.thread?.isSome)

variable {s : Runtime B} {h : Handover} {handle : ℕ} {c : Capability}

theorem preserveHandle_returns_iff (hh : s.handover = some h) (hc : s.slot handle = some c) :
    (∃ t, preserveHandle handle s = .ok () t) ↔
      Listable s h c ∧ c.object ≠ .process h.source ∧ c.object ≠ .space h.source ∧
        c.object ≠ .thread h.source := by
  have hreturns : (∃ t, preserveHandle handle s = .ok () t) ↔
      Returns (preserveHandle handle) (fun _ _ => True) s := by
    constructor
    · rintro ⟨t, ht⟩
      exact ⟨(), t, ht, trivial⟩
    · rintro ⟨_, t, ht, -⟩
      exact ⟨t, ht⟩
  rw [hreturns]
  simp only [preserveHandle, handoverActor, returns_bind, returns_get, returns_some?,
    returns_check, returns_pure, returns_when, returns_modify, hh, hc, Option.some.injEq,
    exists_eq_left', Listable]
  constructor
  · rintro ⟨hactor, hphase, hright, hother, -⟩
    refine ⟨⟨hactor, hphase, ?_, ?_⟩, hother⟩
    · exact not_not.mp fun howner => hright (.inl howner)
    · by_contra hnone
      simp only [not_or, not_not, Bool.not_eq_true, Option.isSome_eq_false_iff] at hnone
      exact hright (.inr hnone)
  · rintro ⟨⟨hactor, hphase, howner, hright⟩, hother⟩
    refine ⟨hactor, hphase, ?_, hother, fun _ => trivial, fun _ => trivial⟩
    rintro (hn | ⟨hrights, hp, hspace, hthread⟩)
    · exact hn howner
    · rw [Option.isNone_iff_eq_none] at hp hspace hthread
      simp [hrights, hp, hspace, hthread] at hright

/-- **What a handover preserves.** A handle that may be listed is preserved only if it is no
control descriptor of the source, and a thread of another process is not refused, exactly if
the thread the handle names has the source's index just when it is a thread of the source. -/
theorem preserves_no_control_iff (hh : s.handover = some h) (hc : s.slot handle = some c) :
    ((∀ t, preserveHandle handle s = .ok () t → ¬ c.object.ControlOf s h.source) ∧
      (∀ id t, c.object = .thread id → s.threads[id]? = some t → t.process ≠ h.source →
        Listable s h c → ∃ u, preserveHandle handle s = .ok () u)) ↔
      (Listable s h c → ∀ id t, c.object = .thread id → s.threads[id]? = some t →
        (id = h.source ↔ t.process = h.source)) := by
  constructor
  · rintro ⟨hnone, hother⟩ hlist id t hobject ht
    constructor
    · intro hid
      by_contra hne
      obtain ⟨-, -, -, hself⟩ := (preserveHandle_returns_iff hh hc).mp
        (hother id t hobject ht hne hlist)
      exact hself (by rw [hobject, hid])
    · intro hprocess
      by_contra hne
      obtain ⟨u, hu⟩ := (preserveHandle_returns_iff hh hc).mpr
        ⟨hlist, by simp [hobject], by simp [hobject], by simpa [hobject] using hne⟩
      refine hnone u hu ?_
      rw [hobject]
      exact ⟨t, ht, hprocess⟩
  · intro hmatch
    constructor
    · intro u hu hcontrol
      obtain ⟨hlist, hprocess, hspace, hthread⟩ :=
        (preserveHandle_returns_iff hh hc).mp ⟨u, hu⟩
      revert hcontrol
      cases hobject : c.object <;> intro hcontrol
      case process id => exact hprocess (by rw [hobject, show id = h.source from hcontrol])
      case space id => exact hspace (by rw [hobject, show id = h.source from hcontrol])
      case thread id =>
        obtain ⟨t, ht, hsource⟩ := hcontrol
        exact hthread (by rw [hobject, (hmatch hlist id t hobject ht).mpr hsource])
      all_goals exact hcontrol
    · intro id t hobject ht hne hlist
      refine (preserveHandle_returns_iff hh hc).mpr
        ⟨hlist, by simp [hobject], by simp [hobject], fun heq => hne ?_⟩
      rw [hobject, Object.thread.injEq] at heq
      exact (hmatch hlist id t hobject ht).mp heq

open TestBackend in
/-- A service preserves the thread of its successor, which is another process's. -/
theorem successor_thread_preserved : ∃ (s : Runtime TestBackend) (h : Handover) (c : Capability),
      Reaches (fun _ _ => True) s ∧ s.handover = some h ∧ s.slot 9 = some c ∧
      (∀ t, preserveHandle 9 s = .ok () t → ¬ c.object.ControlOf s h.source) ∧
      ∃ u, preserveHandle 9 s = .ok () u := by
  obtain ⟨s, hs, h, hh, c, hc, hmatch, hok⟩ := exists_reaches_of_run (fun _ _ => True)
    (fun s => ∃ h ∈ s.handover, ∃ c ∈ s.slot 9,
      (c.object = .thread 1 ∧ (s.threads[1]?).map Thread.process = some 1 ∧ h.source = 0) ∧
      (preserveHandle 9 s).returned?.isSome = true)
    handoverBegun (by decide +kernel)
  obtain ⟨hobject, hthread, hsource⟩ := hmatch
  obtain ⟨⟨_, u⟩, hu⟩ := Option.isSome_iff_exists.mp hok
  refine ⟨s, h, c, hs, hh, hc, ((preserves_no_control_iff hh hc).mpr ?_).1, u,
    Outcome.eq_ok_of_returned? hu⟩
  rintro - id t hid ht
  rw [hobject, Object.thread.injEq] at hid
  rw [← hid] at ht ⊢
  rw [ht, Option.map_some, Option.some.injEq] at hthread
  rw [hthread, hsource]

open TestBackend in
/-- A service starts a second thread while it is handed over, and preserves the handle to it:
the thread's index is 2, the service's is 0. -/
theorem own_thread_preserved : ∃ (s t : Runtime TestBackend) (h : Handover) (c : Capability),
      Reaches (fun _ _ => True) s ∧ s.handover = some h ∧ s.slot 10 = some c ∧
      c.object.ControlOf s h.source ∧ preserveHandle 10 s = .ok () t := by
  obtain ⟨s, hs, h, hh, c, hc, hown, hok⟩ := exists_reaches_of_run (fun _ _ => True)
    (fun s => ∃ h ∈ s.handover, ∃ c ∈ s.slot 10,
      (c.object = .thread 2 ∧ (s.threads[2]?).map Thread.process = some 0 ∧ h.source = 0) ∧
      (preserveHandle 10 s).returned?.isSome = true)
    (handoverBegun ++ [.createThreadCurrentWithThreadPointer 0x80000000 0x80002000 0 0])
    (by decide +kernel)
  obtain ⟨hobject, hthread, hsource⟩ := hown
  obtain ⟨t, ht, hprocess⟩ := Option.map_eq_some_iff.mp hthread
  obtain ⟨⟨_, u⟩, hu⟩ := Option.isSome_iff_exists.mp hok
  refine ⟨s, u, h, c, hs, hh, hc, ?_, Outcome.eq_ok_of_returned? hu⟩
  rw [hobject]
  exact ⟨t, ht, hprocess.trans hsource.symm⟩

end Runtime

end Bexos
