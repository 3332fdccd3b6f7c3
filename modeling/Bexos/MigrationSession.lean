/-
Runs of a migration session (`lib/migration/src/session.rs`).

A session is driven by calls that carry the time at which they are made.  `Runs s log t`
says that a sequence of calls leads from `s` to `t`, and keeps for each call what it
returned.

* `Answers` — everything a call can do to a session;
* `Recorded` — what the log of a run says about the session it leads to;
* `commit_discipline` — a session commits only after its whole protocol succeeded, in
  order, for one sequence number and within both deadlines.

Design notes: a call that is late finds out in `poll`, before it does anything else, so
all deadlines are dealt with in `wp_poll`.  `quiesce` computes its deadline before it
polls; a call refused for that reason leaves no trace, not even its time.
-/
import Bexos.Migration

namespace Bexos

open Prog

/-- The calls that change a session. -/
inductive SessionCall where
  | poll (now : UInt64)
  | beginBulk (now : UInt64)
  | bulkComplete (now : UInt64)
  | quiesce (sequence now : UInt64)
  | ready (appliedSequence now : UInt64)
  | commit (now : UInt64)
  | reclaimed (now : UInt64)
  | abort
  deriving DecidableEq

namespace Session

variable {s t u : Session} {now : UInt64}
  {call : SessionCall} {result : Option MigrationError} {log : SessionLog}
  {timeouts : Timeouts}

def exec : SessionCall → SessionM Unit
  | .poll now => poll now
  | .beginBulk now => beginBulk now
  | .bulkComplete now => bulkComplete now
  | .quiesce sequence now => quiesce sequence now
  | .ready appliedSequence now => ready appliedSequence now
  | .commit now => commit now
  | .reclaimed now => reclaimed now
  | .abort => abort

/-! ### What a call can do -/

/-- The session has committed. -/
def Over (s : Session) : Prop := s.phase = .committed ∨ s.phase = .reclaimed

/-- `poll` let a call pass. -/
structure Polled (s : Session) (now : UInt64) : Prop where
  time : s.lastTime ≤ now
  inTime : s.Over ∨ s.phase ≠ .aborted ∧ s.timedOut now = false

/-- The session after a call that `poll` let pass. -/
def seenAt (s : Session) (now : UInt64) : Session := { s with lastTime := now }

/-- What a refused call leaves behind: the session itself, or the session at a later time. -/
def Waits (s t : Session) : Prop :=
  t = s ∨ ∃ now, s.lastTime ≤ now ∧ t = s.seenAt now ∧
    (s.Over ∨ s.phase = .aborted ∨ s.timedOut now = false)

/-- How a call fails: it is refused, or it comes after a deadline and ends the session. -/
inductive Fails (s : Session) : MigrationError → Session → Prop
  | refused {e : MigrationError} {t : Session} : e ≠ .timedOut → s.Waits t → Fails s e t
  | expired (now : UInt64) : ¬ s.Over → s.phase ≠ .aborted → s.lastTime ≤ now →
      Fails s .timedOut { s.seenAt now with phase := .aborted }

/-- What a call answers, and the session after it. -/
inductive Answers (s : Session) : SessionCall → Option MigrationError → Session → Prop
  | failed {call : SessionCall} {e : MigrationError} {t : Session} :
      s.Fails e t → Answers s call (some e) t
  | polled {now : UInt64} : s.Polled now → Answers s (.poll now) none (s.seenAt now)
  | began {now : UInt64} : s.Polled now → s.phase = .staged →
      Answers s (.beginBulk now) none { s.seenAt now with phase := .bulk }
  | copied {now : UInt64} : s.Polled now → s.phase = .bulk →
      Answers s (.bulkComplete now) none { s.seenAt now with phase := .catchUp }
  | quiesced {sequence now deadline : UInt64} : s.Polled now → s.phase = .catchUp →
      now.checkedAdd s.timeouts.cutoverMs = some deadline →
      Answers s (.quiesce sequence now) none
        { s.seenAt now with
          phase := .quiesced
          cutoverDeadline := some deadline
          finalSequence := some sequence }
  | readied {sequence now : UInt64} : s.Polled now → s.phase = .quiesced →
      s.finalSequence = some sequence →
      Answers s (.ready sequence now) none { s.seenAt now with phase := .ready }
  | committed {now : UInt64} : s.Polled now → s.phase = .ready →
      Answers s (.commit now) none { s.seenAt now with phase := .committed }
  | reclaimed {now : UInt64} : s.Polled now → s.phase = .committed →
      Answers s (.reclaimed now) none { s.seenAt now with phase := .reclaimed }
  | aborted : ¬ s.Over → Answers s .abort none { s with phase := .aborted }

theorem wp_poll : wp (poll now) (fun _ t => s.Polled now ∧ t = s.seenAt now)
    (fun e t => s.Fails e t) s := by
  unfold poll
  rw [wp_bind, wp_get, wp_bind, wp_check]
  refine ⟨fun hstale => ?_, fun _ => .refused (by decide) (.inl rfl)⟩
  have htime : s.lastTime ≤ now := UInt64.not_lt.mp hstale
  rw [wp_bind, wp_modify, wp_ite]
  refine ⟨fun hover => (wp_pure _).mpr ⟨⟨htime, .inl hover⟩, rfl⟩, fun hover => ?_⟩
  rw [wp_ite]
  refine ⟨fun haborted => (wp_fail _).mpr ?_, fun haborted => ?_⟩
  · exact .refused (by decide) (.inr ⟨now, htime, rfl, .inr (.inl haborted)⟩)
  · rw [wp_ite]
    refine ⟨fun _ => ?_, fun hlate => (wp_pure _).mpr ?_⟩
    · rw [wp_bind, wp_modify, wp_fail]
      exact .expired now hover haborted htime
    · exact ⟨⟨htime, .inr ⟨haborted, Bool.eq_false_iff.mpr hlate⟩⟩, rfl⟩

theorem Polled.waits (h : s.Polled now) : s.Waits (s.seenAt now) :=
  .inr ⟨now, h.time, rfl, h.inTime.imp id fun h => .inr h.2⟩

theorem wp_advance {fromPhase toPhase} : wp (advance fromPhase toPhase now)
    (fun _ t => s.Polled now ∧ s.phase = fromPhase ∧ t = { s.seenAt now with phase := toPhase })
    (fun e t => s.Fails e t) s := by
  unfold advance
  rw [wp_bind]
  refine wp_mono wp_poll fun _ t ht => ?_
  obtain ⟨hpolled, rfl⟩ := ht
  rw [wp_bind, wp_get, wp_bind, wp_check]
  refine ⟨fun hphase => ?_, fun _ => .refused (by decide) hpolled.waits⟩
  rw [wp_modify]
  exact ⟨hpolled, hphase, rfl⟩

variable {sequence start : UInt64} {calls : List SessionCall}

theorem wp_quiesce : wp (quiesce sequence now)
    (fun _ t => s.Answers (.quiesce sequence now) none t) (fun e t => s.Fails e t) s := by
  unfold quiesce
  rw [wp_bind, wp_get, wp_bind, wp_some?]
  refine ⟨fun deadline hdeadline => ?_, fun _ => .refused (by decide) (.inl rfl)⟩
  rw [wp_bind]
  refine wp_mono wp_advance fun _ t ht => ?_
  obtain ⟨hpolled, hphase, rfl⟩ := ht
  rw [wp_modify]
  exact .quiesced hpolled hphase hdeadline

theorem wp_ready : wp (ready sequence now)
    (fun _ t => s.Answers (.ready sequence now) none t) (fun e t => s.Fails e t) s := by
  unfold ready
  rw [wp_bind]
  refine wp_mono wp_poll fun _ t ht => ?_
  obtain ⟨hpolled, rfl⟩ := ht
  rw [wp_bind, wp_get, wp_bind, wp_check]
  refine ⟨fun hsequence => ?_, fun _ => .refused (by decide) hpolled.waits⟩
  -- the second poll sees the time that the first one has just recorded
  refine wp_mono wp_advance (fun _ t ht => ?_) fun e t ht => ?_
  · obtain ⟨_, hphase, rfl⟩ := ht
    exact .readied hpolled hphase hsequence
  · cases ht with
    | refused he ht =>
      refine .refused he ?_
      rcases ht with rfl | ⟨now', hle, rfl, hlate⟩
      · exact hpolled.waits
      · exact .inr ⟨now', UInt64.le_trans hpolled.time hle, rfl, hlate⟩
    | expired now' hover haborted hle =>
      exact .expired now' hover haborted (UInt64.le_trans hpolled.time hle)

theorem wp_abort : wp abort (fun _ t => s.Answers .abort none t) (fun e t => s.Fails e t) s := by
  unfold abort
  rw [wp_bind, wp_get, wp_bind, wp_check]
  refine ⟨fun hover => ?_, fun _ => .refused (by decide) (.inl rfl)⟩
  rw [wp_modify]
  exact .aborted hover

theorem wp_exec (call) : wp (exec call) (fun _ t => s.Answers call none t)
    (fun e t => s.Answers call (some e) t) s := by
  have hadvance : ∀ {fromPhase toPhase : Phase} {now : UInt64},
      (s.Polled now → s.phase = fromPhase →
        s.Answers call none { s.seenAt now with phase := toPhase }) →
      wp (advance fromPhase toPhase now) (fun _ t => s.Answers call none t)
        (fun e t => s.Answers call (some e) t) s := by
    intro fromPhase toPhase now hok
    refine wp_mono wp_advance (fun _ t ht => ?_) fun _ _ ht => .failed ht
    obtain ⟨hpolled, hphase, rfl⟩ := ht
    exact hok hpolled hphase
  cases call with
  | poll now =>
    refine wp_mono wp_poll (fun _ t ht => ?_) fun _ _ ht => .failed ht
    obtain ⟨hpolled, rfl⟩ := ht
    exact .polled hpolled
  | beginBulk now => exact hadvance .began
  | bulkComplete now => exact hadvance .copied
  | quiesce sequence now => exact wp_mono wp_quiesce (fun _ _ ht => ht) fun _ _ ht => .failed ht
  | ready sequence now => exact wp_mono wp_ready (fun _ _ ht => ht) fun _ _ ht => .failed ht
  | commit now => exact hadvance .committed
  | reclaimed now => exact hadvance .reclaimed
  | abort => exact wp_mono wp_abort (fun _ _ ht => ht) fun _ _ ht => .failed ht

/-! ### Runs -/

/-- A call and its error, if it failed. -/
abbrev SessionLog := List (SessionCall × Option MigrationError)

/-- A sequence of calls leads from `s` to a session, and its log is kept. -/
inductive Runs (s : Session) : SessionLog → Session → Prop
  | refl : Runs s [] s
  | ok {log : SessionLog} {t u : Session} {call : SessionCall} :
      Runs s log t → exec call t = .ok () u → Runs s (log ++ [(call, none)]) u
  | err {log : SessionLog} {t u : Session} {call : SessionCall} {e : MigrationError} :
      Runs s log t → exec call t = .err e u → Runs s (log ++ [(call, some e)]) u

/-- The calls of a log that succeeded, in order. -/
def succeeded (log : SessionLog) : List SessionCall :=
  log.filterMap fun entry => if entry.2.isNone then some entry.1 else none

theorem succeeded_append (log call result) :
    succeeded (log ++ [(call, result)]) =
      succeeded log ++ if result.isNone then [call] else [] := by
  unfold succeeded
  rw [List.filterMap_append]
  cases result <;> rfl

/-- What every answer keeps, with the log it is written to, every run keeps. -/
theorem Runs.invariant {I : SessionLog → Session → Prop}
    (hstep : ∀ {log t call result u}, I log t → t.Answers call result u →
      I (log ++ [(call, result)]) u) (hrun : Runs s log t) (hs : I [] s) : I log t := by
  induction hrun with
  | refl => exact hs
  | ok _ hcall ih =>
    have hanswers := of_ok (wp_exec _) hcall
    exact hstep ih hanswers
  | err _ hcall ih =>
    have hanswers := of_err (wp_exec _) hcall
    exact hstep ih hanswers

/-! ### Decided sessions stay decided -/

theorem Waits.phase (h : s.Waits t) : t.phase = s.phase := by
  rcases h with rfl | ⟨now, _, rfl, _⟩ <;> rfl

theorem over_of_answers (h : s.Answers call result t) (hs : s.Over) : t.Over := by
  cases h with
  | failed hfails =>
    cases hfails with
    | refused _ hwaits =>
      unfold Over
      rw [hwaits.phase]
      exact hs
    | expired now hover _ _ => exact absurd hs hover
  | polled _ => exact hs
  | committed _ _ => exact .inl rfl
  | reclaimed _ _ => exact .inr rfl
  | aborted hover => exact absurd hs hover
  | began _ hphase | copied _ hphase | quiesced _ hphase _ | readied _ hphase _ =>
    rcases hs with hs | hs <;> exact absurd (hs.symm.trans hphase) (by decide)

theorem aborted_of_answers (h : s.Answers call result t) (hs : s.phase = .aborted) :
    t.phase = .aborted := by
  cases h with
  | failed hfails =>
    cases hfails with
    | refused _ hwaits => exact hwaits.phase.trans hs
    | expired now _ _ _ => rfl
  | polled _ => exact hs
  | aborted _ => rfl
  | began _ hphase | copied _ hphase | quiesced _ hphase _ | readied _ hphase _
  | committed _ hphase | reclaimed _ hphase => exact absurd (hs.symm.trans hphase) (by decide)

theorem Runs.over (hrun : Runs s log t) (hs : s.Over) : t.Over :=
  hrun.invariant (I := fun _ t => t.Over) (fun ht hcall => over_of_answers hcall ht) hs

theorem Runs.aborted (hrun : Runs s log t) (hs : s.phase = .aborted) : t.phase = .aborted :=
  hrun.invariant (I := fun _ t => t.phase = .aborted) (fun ht hcall => aborted_of_answers hcall ht) hs

theorem Over.not_aborted (h : s.Over) : s.phase ≠ .aborted := by
  rcases h with h | h <;> rw [h] <;> decide

/-! ### What the log says about the session -/

/-- The session was quiesced at `quiesced` for `sequence`. -/
structure Cutover (s : Session) (sequence quiesced : UInt64) : Prop where
  sequence : s.finalSequence = some sequence
  time : quiesced ≤ s.lastTime
  deadline : ∃ d, s.cutoverDeadline = some d ∧
    d.toNat = quiesced.toNat + s.timeouts.cutoverMs.toNat

/-- The calls that brought the session into its phase. -/
def Progress (calls : List SessionCall) (s : Session) : Prop :=
  match s.phase with
  | .staged | .committed | .reclaimed | .aborted => True
  | .bulk => ∃ began, [.beginBulk began].Sublist calls
  | .catchUp => ∃ began copied, [.beginBulk began, .bulkComplete copied].Sublist calls
  | .quiesced => ∃ began copied sequence quiesced,
    [.beginBulk began, .bulkComplete copied, .quiesce sequence quiesced].Sublist calls ∧
      s.Cutover sequence quiesced
  | .ready => ∃ began copied sequence quiesced readied,
    [.beginBulk began, .bulkComplete copied, .quiesce sequence quiesced,
      .ready sequence readied].Sublist calls ∧ s.Cutover sequence quiesced

theorem Cutover.later {quiesced} (h : s.Cutover sequence quiesced) (htime : s.lastTime ≤ now) :
    (s.seenAt now).Cutover sequence quiesced :=
  ⟨h.sequence, UInt64.le_trans h.time htime, h.deadline⟩

theorem Progress.later {calls'} (h : Progress calls s) (hcalls : calls.Sublist calls')
    (htime : s.lastTime ≤ now) : Progress calls' (s.seenAt now) := by
  obtain ⟨generation, phase, _, _, _, _, _⟩ := s
  cases phase with
  | staged | committed | reclaimed | aborted => trivial
  | bulk =>
    obtain ⟨began, hsub⟩ := h
    exact ⟨began, hsub.trans hcalls⟩
  | catchUp =>
    obtain ⟨began, copied, hsub⟩ := h
    exact ⟨began, copied, hsub.trans hcalls⟩
  | quiesced =>
    obtain ⟨began, copied, sequence, quiesced, hsub, hcut⟩ := h
    exact ⟨began, copied, sequence, quiesced, hsub.trans hcalls, hcut.later htime⟩
  | ready =>
    obtain ⟨began, copied, sequence, quiesced, readied, hsub, hcut⟩ := h
    exact ⟨began, copied, sequence, quiesced, readied, hsub.trans hcalls, hcut.later htime⟩

theorem Progress.waits (h : Progress calls s) (hwaits : s.Waits t) : Progress calls t := by
  rcases hwaits with rfl | ⟨now, htime, rfl, _⟩
  · exact h
  · exact h.later (List.Sublist.refl calls) htime

theorem progress_of_answers (hs : Progress calls s) (h : s.Answers call result t) :
    Progress (calls ++ if result.isNone then [call] else []) t := by
  -- in each phase the last call of the protocol is the one just made
  have hsnoc : ∀ {protocol : List SessionCall}, protocol.Sublist calls →
      (protocol ++ [call]).Sublist (calls ++ [call]) := fun h => h.append (List.Sublist.refl _)
  cases h with
  | failed hfails =>
    rw [Option.isNone_some, if_neg (by decide), List.append_nil]
    cases hfails with
    | refused _ hwaits => exact hs.waits hwaits
    | expired now _ _ _ => trivial
  | polled hpolled => exact hs.later (List.sublist_append_left _ _) hpolled.time
  | began _ _ => exact ⟨_, hsnoc (List.nil_sublist calls)⟩
  | copied hpolled hphase =>
    rw [Progress, hphase] at hs
    obtain ⟨began, hsub⟩ := hs
    exact ⟨began, _, hsnoc hsub⟩
  | quiesced hpolled hphase hdeadline =>
    rw [Progress, hphase] at hs
    obtain ⟨began, copied, hsub⟩ := hs
    exact ⟨began, copied, _, _, hsnoc hsub, rfl, UInt64.le_refl _, _, rfl,
      UInt64.checkedAdd_eq_some.mp hdeadline⟩
  | readied hpolled hphase hsequence =>
    rw [Progress, hphase] at hs
    obtain ⟨began, copied, sequence, quiesced, hsub, hcut⟩ := hs
    obtain rfl : sequence = _ := Option.some.inj (hcut.sequence.symm.trans hsequence)
    have hlater := hcut.later hpolled.time
    exact ⟨began, copied, sequence, quiesced, _, hsnoc hsub, hlater.sequence, hlater.time,
      hlater.deadline⟩
  | committed _ _ | reclaimed _ _ | aborted _ => trivial

/-- The last time a call was accepted lies before both deadlines, unless the session is
decided. -/
def InTime (s : Session) : Prop := s.Over ∨ s.phase = .aborted ∨ s.timedOut s.lastTime = false

theorem timedOut_eq_false : s.timedOut now = false ↔
    now < s.preparationDeadline ∧ ∀ d, s.cutoverDeadline = some d → now < d := by
  unfold timedOut
  rw [Bool.or_eq_false_iff, decide_eq_false_iff_not, UInt64.not_le]
  cases s.cutoverDeadline with
  | none => simp
  | some d => simp [UInt64.not_le]

/-- What the log of a run says about the session it leads to. -/
structure Recorded (start : UInt64) (timeouts : Timeouts) (log : SessionLog) (s : Session) :
    Prop where
  limits : s.timeouts = timeouts
  allowance : timeouts.cutoverMs ≠ 0
  deadline : s.preparationDeadline.toNat = start.toNat + timeouts.preparationMs.toNat
  progress : Progress (succeeded log) s
  expired : (∃ call, (call, some .timedOut) ∈ log) → s.phase = .aborted
  inTime : s.InTime

theorem inTime_of_answers (hallowance : s.timeouts.cutoverMs ≠ 0) (hs : s.InTime)
    (h : s.Answers call result t) :
    t.InTime := by
  -- a live session that lets a call pass is in time
  have hlive : ∀ {now : UInt64}, s.Polled now → ¬ s.Over → s.timedOut now = false :=
    fun hpolled hover => (hpolled.inTime.resolve_left hover).2
  cases h with
  | failed hfails =>
    cases hfails with
    | refused _ hwaits =>
      rcases hwaits with rfl | ⟨now, _, rfl, hlate⟩
      · exact hs
      · exact hlate
    | expired now _ _ _ => exact .inr (.inl rfl)
  | polled hpolled => exact hpolled.inTime.imp id fun h => .inr h.2
  | committed _ _ => exact .inl (.inl rfl)
  | reclaimed _ _ => exact .inl (.inr rfl)
  | aborted _ => exact .inr (.inl rfl)
  | began hpolled hphase | copied hpolled hphase | readied hpolled hphase _ =>
    exact .inr (.inr (hlive hpolled (by simp [Over, hphase])))
  | @quiesced sequence now deadline hpolled hphase hdeadline =>
    have hbefore := timedOut_eq_false.mp (hlive hpolled (by simp [Over, hphase]))
    refine .inr (.inr (timedOut_eq_false.mpr ⟨hbefore.1, fun d hd => ?_⟩))
    obtain rfl : deadline = d := Option.some.inj hd
    have hsum := UInt64.checkedAdd_eq_some.mp hdeadline
    have hpos : s.timeouts.cutoverMs.toNat ≠ 0 := fun h => hallowance (UInt64.toNat_inj.mp h)
    exact UInt64.lt_iff_toNat_lt.mpr (by show now.toNat < _; omega)

theorem timeouts_of_answers (h : s.Answers call result t) :
    t.timeouts = s.timeouts ∧ t.preparationDeadline = s.preparationDeadline := by
  cases h with
  | failed hfails =>
    cases hfails with
    | refused _ hwaits => rcases hwaits with rfl | ⟨_, _, rfl, _⟩ <;> exact ⟨rfl, rfl⟩
    | expired _ _ _ _ => exact ⟨rfl, rfl⟩
  | polled _ | began _ _ | copied _ _ | quiesced _ _ _ | readied _ _ _ | committed _ _
  | reclaimed _ _ | aborted _ => exact ⟨rfl, rfl⟩

theorem recorded_new {generation} (hnew : Session.new generation start timeouts = .ok s) :
    Recorded start timeouts [] s := by
  unfold Session.new at hnew
  split at hnew
  · cases hnew
  · rename_i hzero
    split at hnew
    · cases hnew
    · rename_i deadline hdeadline
      have hsum := UInt64.checkedAdd_eq_some.mp hdeadline
      have hpos : timeouts.preparationMs.toNat ≠ 0 := fun h =>
        hzero (.inr (.inl (UInt64.toNat_inj.mp h)))
      cases hnew
      refine ⟨rfl, fun h => hzero (.inr (.inr h)), hsum, trivial, ?_, .inr (.inr ?_)⟩
      · rintro ⟨call, hmem⟩
        cases hmem
      · refine timedOut_eq_false.mpr ⟨UInt64.lt_iff_toNat_lt.mpr ?_, fun d hd => by cases hd⟩
        show start.toNat < deadline.toNat
        omega

theorem Recorded.answers (hs : Recorded start timeouts log s) (h : s.Answers call result t) :
    Recorded start timeouts (log ++ [(call, result)]) t := by
  obtain ⟨htimeouts, hdeadline⟩ := timeouts_of_answers h
  refine ⟨htimeouts.trans hs.limits, hs.allowance, hdeadline ▸ hs.deadline, ?_, ?_, ?_⟩
  · rw [succeeded_append]
    exact progress_of_answers hs.progress h
  · rintro ⟨call', hmem⟩
    rcases List.mem_append.mp hmem with hmem | hmem
    · exact aborted_of_answers h (hs.expired ⟨call', hmem⟩)
    · obtain ⟨rfl, hresult⟩ := Prod.mk.inj (List.mem_singleton.mp hmem)
      subst hresult
      cases h with
      | failed hfails =>
        cases hfails with
        | refused he _ => exact absurd rfl he
        | expired _ _ _ _ => rfl
  · exact inTime_of_answers (hs.limits ▸ hs.allowance) hs.inTime h

/-- A session that commits has gone through its protocol in time. -/
theorem Recorded.commits (hs : Recorded start timeouts log s) (h : s.Answers call result t)
    (hbefore : s.phase ≠ .committed) (hafter : t.phase = .committed) :
    ∃ now began copied sequence quiesced readied, call = .commit now ∧
      [.beginBulk began, .bulkComplete copied, .quiesce sequence quiesced,
        .ready sequence readied].Sublist (succeeded log) ∧
      now.toNat < start.toNat + timeouts.preparationMs.toNat ∧ quiesced ≤ now ∧
      now.toNat < quiesced.toNat + timeouts.cutoverMs.toNat := by
  cases h with
  | failed hfails =>
    cases hfails with
    | refused _ hwaits => exact absurd (hwaits.phase ▸ hafter) hbefore
    | expired _ _ _ _ => cases hafter
  | polled _ => exact absurd hafter hbefore
  | @committed now hpolled hphase =>
    have hprogress := hs.progress
    rw [Progress, hphase] at hprogress
    obtain ⟨began, copied, sequence, quiesced, readied, hsub, hcut⟩ := hprogress
    have hover : ¬ s.Over := by simp [Over, hphase]
    obtain ⟨hprep, hcutover⟩ := timedOut_eq_false.mp (hpolled.inTime.resolve_left hover).2
    obtain ⟨d, hd, hsum⟩ := hcut.deadline
    refine ⟨now, began, copied, sequence, quiesced, readied, rfl, hsub, ?_, ?_, ?_⟩
    · exact hs.deadline ▸ UInt64.lt_iff_toNat_lt.mp hprep
    · exact UInt64.le_trans hcut.time hpolled.time
    · rw [← hs.limits, ← hsum]
      exact UInt64.lt_iff_toNat_lt.mp (hcutover d hd)
  | began _ _ | copied _ _ | quiesced _ _ _ | readied _ _ _ | reclaimed _ _ | aborted _ =>
    cases hafter

/-- **Commit discipline.** On every run of a session, with calls at any times: it becomes
committed only in a `commit` after `begin_bulk`, `bulk_complete`, `quiesce` and `ready`
succeeded in that order, the last two for one sequence number, before the preparation
deadline and within the cutover allowance; once aborted, or past a deadline, it never
commits; and once committed it never aborts. -/
theorem commit_discipline {generation start : UInt64} {timeouts : Timeouts} {new s : Session}
    {log : SessionLog} (hnew : Session.new generation start timeouts = .ok new)
    (hrun : Runs new log s) :
    (∀ call t, s.phase ≠ .committed → (exec call s).state? = some t → t.phase = .committed →
      ∃ now began copied sequence quiesced readied, call = .commit now ∧
        [.beginBulk began, .bulkComplete copied, .quiesce sequence quiesced,
          .ready sequence readied].Sublist (succeeded log) ∧
        now.toNat < start.toNat + timeouts.preparationMs.toNat ∧ quiesced ≤ now ∧
        now.toNat < quiesced.toNat + timeouts.cutoverMs.toNat) ∧
    (s.phase = .aborted ∨ (∃ call, (call, some .timedOut) ∈ log) ∨
        ¬ s.Over ∧ s.timedOut s.lastTime = true →
      ∀ more t, Runs s more t → t.phase ≠ .committed) ∧
    (s.phase = .committed → ∀ more t, Runs s more t → t.phase ≠ .aborted) := by
  have hs : Recorded start timeouts log s :=
    hrun.invariant (fun ht hcall => ht.answers hcall) (recorded_new hnew)
  refine ⟨fun call t hbefore hstep hafter => ?_, fun hdead more t hmore => ?_,
    fun hcommitted more t hmore => (hmore.over (.inl hcommitted)).not_aborted⟩
  · have hanswers : ∃ result, s.Answers call result t :=
      of_state (P := fun t => ∃ result, s.Answers call result t)
        (wp_mono (wp_exec call) (fun _ _ h => ⟨_, h⟩)
        fun _ _ h => ⟨_, h⟩) hstep
    obtain ⟨result, hanswers⟩ := hanswers
    exact hs.commits hanswers hbefore hafter
  · have haborted : s.phase = .aborted := by
      rcases hdead with haborted | hexpired | ⟨hover, hlate⟩
      · exact haborted
      · exact hs.expired hexpired
      · rcases hs.inTime with h | h | h
        · exact absurd h hover
        · exact h
        · exact absurd (h.symm.trans hlate) (by decide)
    rw [hmore.aborted haborted]
    decide

/-- A new session with the default timeouts. -/
def stagedSession : Session :=
  { generation := 1
    phase := .staged
    preparationDeadline := 30000
    cutoverDeadline := none
    timeouts := { preparationMs := 30000, cutoverMs := 150 }
    lastTime := 0
    finalSequence := none }

/-- The same session, ready to commit. -/
def readySession : Session :=
  { stagedSession with
    phase := .ready, cutoverDeadline := some 153, lastTime := 5, finalSequence := some 19 }

theorem commit_discipline_ready :
    ∃ log, Session.new 1 0 stagedSession.timeouts = .ok stagedSession ∧
      Runs stagedSession log readySession ∧ (exec (.commit 6) readySession).state? =
        some { readySession with phase := .committed, lastTime := 6 } ∧
      ∃ now began copied sequence quiesced readied, SessionCall.commit 6 = .commit now ∧
        [.beginBulk began, .bulkComplete copied, .quiesce sequence quiesced,
          .ready sequence readied].Sublist (succeeded log) ∧
        now.toNat < 0 + 30000 ∧ quiesced ≤ now ∧ now.toNat < quiesced.toNat + 150 := by
  have hrun : Runs stagedSession [(.beginBulk 1, none), (.bulkComplete 2, none),
      (.quiesce 19 3, none), (.ready 18 4, some .sequence), (.ready 19 5, none)] readySession :=
    .ok (.err (.ok (.ok (.ok .refl (by rfl)) (by rfl)) (by rfl)) (by rfl)) (by rfl)
  have hnew : Session.new 1 0 stagedSession.timeouts = .ok stagedSession := rfl
  exact ⟨_, hnew, hrun, rfl,
    (commit_discipline hnew hrun).1 (.commit 6) _ (by decide) rfl rfl⟩

end Session

end Bexos
