/-
The futex mutex.

`futex_sync/lib.rs` implements a mutex on one word: 0 is unlocked, 1 locked, 2 locked with
waiters.  Threads run `try_lock`, `lock` and `unlock` in any sequentially consistent
interleaving, one atomic access at a time.

* `Point` — where a thread is in this code;
* `Futex.step` — one access, one call, a wake or a spurious return;
* `Futex.Sound` — the invariant: the word against the holder and the sleepers;
* `excludes_and_wakes` — at most one holder, and no sleeper is forgotten.

Design notes: `wait` puts a thread to sleep in the step that compares the word; a wake takes any
one sleeper.  Threads in the loop of `lock` carry whether a wake was issued to them since they
last marked the word.
-/
import Bexos.Outcome
import Mathlib.Logic.Function.Basic

namespace Bexos

inductive LockError where
  | busy
  | invalid
  deriving DecidableEq

/-- The next access of a thread. -/
inductive Point where
  /-- Outside, without the mutex, after a call with this result. -/
  | out (result : Except LockError Unit)
  /-- `try_lock`'s compare-exchange. -/
  | trying
  /-- `lock`'s call of `try_lock`. -/
  | locking
  /-- The load in `lock`'s loop. -/
  | loading (woken : Bool)
  /-- The compare-exchange in `lock`'s loop. -/
  | marking (woken : Bool) (value : UInt32)
  /-- `lock`'s wait. -/
  | waiting
  | asleep
  /-- Outside, with the mutex. -/
  | holding
  /-- The load in `unlock`'s loop. -/
  | releasing
  /-- The compare-exchange in `unlock`'s loop. -/
  | clearing (value : UInt32)
  /-- `unlock`'s wake. -/
  | waking
  deriving DecidableEq

namespace Point

/-- From a successful acquisition to a successful release. -/
def Holds : Point → Prop
  | holding | releasing | clearing _ => True
  | _ => False

/-- A wake was issued to the thread and it has not marked the word since. -/
def Woken : Point → Prop
  | loading woken => woken = true
  | marking woken _ => woken = true
  | _ => False

end Point

/-- The result of a compare-exchange, and the word after it. -/
def compareExchange (word current new : UInt32) : Except UInt32 UInt32 × UInt32 :=
  if word = current then (.ok word, new) else (.error word, word)

def tryLock (word : UInt32) : Except LockError Unit × UInt32 :=
  match compareExchange word 0 1 with
  | (.ok _, word) => (.ok (), word)
  | (.error value, word) =>
    (.error (if value = 1 ∨ value = 2 then .busy else .invalid), word)

/-- The access of a thread to the word, and where it is then. -/
def access (word : UInt32) : Point → Option (Point × UInt32)
  | .trying =>
    match tryLock word with
    | (.ok _, word) => some (.holding, word)
    | (.error e, word) => some (.out (.error e), word)
  | .locking =>
    match tryLock word with
    | (.ok _, word) => some (.holding, word)
    | (.error .busy, word) => some (.loading false, word)
    | (.error e, word) => some (.out (.error e), word)
  | .loading woken =>
    if word > 2 then some (.out (.error .invalid), word) else some (.marking woken word, word)
  | .marking woken value =>
    match compareExchange word value 2 with
    | (.ok old, word) => some (if old = 0 then .holding else .waiting, word)
    | (.error _, word) => some (.loading woken, word)
  | .waiting => some (if word = 2 then .asleep else .loading false, word)
  | .releasing =>
    if word = 1 ∨ word = 2 then some (.clearing word, word)
    else some (.out (.error .invalid), word)
  | .clearing value =>
    match compareExchange word value 0 with
    | (.ok _, word) => some (if value = 2 then .waking else .out (.ok ()), word)
    | (.error _, word) => some (.releasing, word)
  | .out _ | .asleep | .holding | .waking => none

/-- The word, and every thread. -/
structure Futex (T : Type) where
  word : UInt32
  threads : T → Point
  /-- The threads that are asleep. -/
  sleepers : List T

inductive FutexOp (T : Type) where
  | callTryLock (t : T)
  | callLock (t : T)
  /-- The holder calls `unlock`. -/
  | callUnlock (t : T)
  /-- A thread makes its next access. -/
  | run (t : T)
  /-- A thread in `unlock` wakes a sleeper, if there is one. -/
  | wake (t : T) (sleeper : Option T)
  /-- A wait returns for no reason. -/
  | spurious (t : T)

namespace Futex

variable {T : Type} [DecidableEq T]

def new : Futex T := ⟨0, fun _ => .out (.ok ()), []⟩

def move (t : T) (p : Point) (s : Futex T) : Futex T :=
  { s with
    threads := Function.update s.threads t p
    sleepers := if p = .asleep then t :: s.sleepers else s.sleepers.filter (· ≠ t) }

def step : FutexOp T → Futex T → Option (Futex T)
  | .callTryLock t, s =>
    match s.threads t with
    | .out _ => some (s.move t .trying)
    | _ => none
  | .callLock t, s =>
    match s.threads t with
    | .out _ => some (s.move t .locking)
    | _ => none
  | .callUnlock t, s => if s.threads t = .holding then some (s.move t .releasing) else none
  | .run t, s =>
    (access s.word (s.threads t)).map fun (p, word) => { s.move t p with word }
  | .wake t sleeper, s =>
    if s.threads t = .waking then
      match sleeper with
      | some u =>
        if s.threads u = .asleep then some ((s.move u (.loading true)).move t (.out (.ok ())))
        else none
      | none => if s.sleepers = [] then some (s.move t (.out (.ok ()))) else none
    else none
  | .spurious t, s =>
    if s.threads t = .waiting ∨ s.threads t = .asleep then some (s.move t (.loading false))
    else none

end Futex

/-! ### One access -/

namespace Point

/-- A sleeper will be told of a word that is not 2. -/
def Pending (p : Point) : Prop := p.Woken ∨ p = .waking

end Point

/-- What an access can do. -/
inductive Access (word : UInt32) (p : Point) : Point → UInt32 → Prop
  | keep {q : Point} (hholds : q.Holds ↔ p.Holds) (hpending : p.Pending → q.Pending)
      (hasleep : q = .asleep → word = 2) : Access word p q word
  | acquire {after : UInt32} (hfree : word = 0) (hp : ¬ p.Holds)
      (hafter : after = 2 ∨ after = 1 ∧ ¬ p.Pending) : Access word p .holding after
  | mark (hheld : word ≠ 0) (hp : ¬ p.Holds) : Access word p .waiting 2
  | release {q : Point} (hp : p = .clearing word) (hq : q = .waking ∨ word ≠ 2 ∧ q = .out (.ok ())) :
      Access word p q 0

theorem tryLock_cases (word) : (word = 0 ∧ tryLock word = (.ok (), 1)) ∨
      ∃ e, word ≠ 0 ∧ tryLock word = (.error e, word) := by
  by_cases hword : word = 0
  · subst hword
    exact .inl ⟨rfl, rfl⟩
  · refine .inr ⟨if word = 1 ∨ word = 2 then .busy else .invalid, hword, ?_⟩
    rw [tryLock, compareExchange, if_neg hword]

/-- A thread that is neither holding nor pending goes on outside the word. -/
theorem Access.pass {word p q} (hp : ¬ p.Holds ∧ ¬ p.Pending) (hq : ¬ q.Holds ∧ q ≠ .asleep) :
    Access word p q word :=
  .keep (iff_of_false hq.1 hp.1) (fun h => absurd h hp.2) fun h => absurd h hq.2

theorem access_cases {word after p q} (hword : word = 0 ∨ word = 1 ∨ word = 2)
    (hheld : p.Holds → word ≠ 0) (h : access word p = some (q, after)) : Access word p q after := by
  cases p with
  | out _ | asleep | holding | waking => cases h
  | trying =>
    have hp : ¬ Point.trying.Holds ∧ ¬ Point.trying.Pending := by
      simp [Point.Holds, Point.Pending, Point.Woken]
    obtain ⟨hfree, htry⟩ | ⟨e, -, htry⟩ := tryLock_cases word
    · rw [access, htry] at h
      cases h
      exact .acquire hfree hp.1 (.inr ⟨rfl, hp.2⟩)
    · rw [access, htry] at h
      cases h
      exact .pass hp (by simp [Point.Holds])
  | locking =>
    have hp : ¬ Point.locking.Holds ∧ ¬ Point.locking.Pending := by
      simp [Point.Holds, Point.Pending, Point.Woken]
    obtain ⟨hfree, htry⟩ | ⟨e, -, htry⟩ := tryLock_cases word
    · rw [access, htry] at h
      cases h
      exact .acquire hfree hp.1 (.inr ⟨rfl, hp.2⟩)
    · rw [access, htry] at h
      cases e <;> cases h <;> exact .pass hp (by simp [Point.Holds])
  | loading woken =>
    -- the word is never above 2, so the load does not fail
    have hsmall : ¬ word > 2 := by
      rcases hword with rfl | rfl | rfl <;> decide
    rw [access, if_neg hsmall] at h
    cases h
    exact .keep Iff.rfl (Or.imp_right fun hp => by cases hp) fun hq => by cases hq
  | marking woken value =>
    rw [access, compareExchange] at h
    by_cases hold : word = value
    · rw [if_pos hold] at h
      dsimp only at h
      by_cases hfree : word = 0
      · rw [if_pos hfree] at h
        cases h
        exact .acquire hfree id (.inl rfl)
      · rw [if_neg hfree] at h
        cases h
        exact .mark hfree id
    · rw [if_neg hold] at h
      cases h
      exact .keep Iff.rfl (Or.imp_right fun hp => by cases hp) fun hq => by cases hq
  | waiting =>
    rw [access] at h
    cases h
    split
    case isTrue htwo =>
      exact .keep Iff.rfl (fun hp => by rcases hp with hp | hp <;> cases hp) fun _ => htwo
    case isFalse =>
      exact .pass (by simp [Point.Holds, Point.Pending, Point.Woken]) (by simp [Point.Holds])
  | releasing =>
    rw [access] at h
    split at h
    case isTrue hlocked =>
      cases h
      exact .keep Iff.rfl (fun hp => by rcases hp with hp | hp <;> cases hp) fun hq => by cases hq
    case isFalse hlocked => exact absurd (hword.resolve_left (hheld trivial)) hlocked
  | clearing value =>
    rw [access, compareExchange] at h
    by_cases hold : word = value
    · rw [if_pos hold] at h
      subst hold
      cases h
      refine .release rfl ?_
      split
      case isTrue => exact .inl rfl
      case isFalse hone => exact .inr ⟨hone, rfl⟩
    · rw [if_neg hold] at h
      cases h
      exact .keep Iff.rfl (fun hp => by rcases hp with hp | hp <;> cases hp) fun hq => by cases hq

/-! ### The invariant -/

namespace Futex

variable {T : Type} [DecidableEq T] {s u : Futex T}

structure Sound (s : Futex T) : Prop where
  word : s.word = 0 ∨ s.word = 1 ∨ s.word = 2
  /-- The word is 0 exactly while nobody holds the mutex. -/
  free : s.word = 0 ↔ ∀ t, ¬ (s.threads t).Holds
  one : ∀ t u, (s.threads t).Holds → (s.threads u).Holds → t = u
  sleepers : ∀ t, t ∈ s.sleepers ↔ s.threads t = .asleep
  /-- A sleeper is marked in the word, or a wake is under way. -/
  wakes : ∀ t, s.threads t = .asleep → s.word = 2 ∨ ∃ u, (s.threads u).Pending

omit [DecidableEq T] in
theorem sound_new : (new : Futex T).Sound where
  word := .inl rfl
  free := iff_of_true rfl fun _ => id
  one := fun _ _ h => h.elim
  sleepers := fun _ => iff_of_false List.not_mem_nil (fun h => by cases h)
  wakes := fun _ h => by cases h

theorem threads_move_self (t : T) (p : Point) (s : Futex T) : (s.move t p).threads t = p := by
  simp [move]

variable {t : T} {q : Point}

theorem threads_move_of_ne {u} (h : u ≠ t) (p : Point) (s : Futex T) :
    (s.move t p).threads u = s.threads u := by
  simp [move, h]

theorem Sound.sleepers_move (h : s.Sound) (t p u) :
    u ∈ (s.move t p).sleepers ↔ (s.move t p).threads u = .asleep := by
  have hmem := h.sleepers u
  by_cases hu : u = t
  · subst hu
    by_cases hp : p = .asleep <;> simp [move, hp]
  · by_cases hp : p = .asleep <;> simp [move, hp, hu, hmem]

theorem holds_move (h : q.Holds ↔ (s.threads t).Holds) (u) :
    ((s.move t q).threads u).Holds ↔ (s.threads u).Holds := by
  by_cases hu : u = t
  · rw [hu, threads_move_self, h]
  · rw [threads_move_of_ne hu]

theorem asleep_of_move (hq : q ≠ .asleep) {u} (hu : (s.move t q).threads u = .asleep) :
    u ≠ t ∧ s.threads u = .asleep := by
  have hut : u ≠ t := fun hut => hq (by rw [← hu, hut, threads_move_self])
  exact ⟨hut, (threads_move_of_ne hut q s).symm.trans hu⟩

/-- A thread moves while the word changes or not. -/
theorem Sound.access (h : s.Sound) {p after} (hp : s.threads t = p)
    (hchange : Access s.word p q after) : Sound { s.move t q with word := after } := by
  have hself := threads_move_self t q s
  have hother : ∀ u, u ≠ t → (s.move t q).threads u = s.threads u := fun u hu =>
    threads_move_of_ne hu q s
  have hsleepers := h.sleepers_move t q
  cases hchange with
  -- the word stays, and the holders are the same
  | keep hholds hpending hasleep =>
    have hsame := holds_move (s := s) (hp ▸ hholds)
    refine ⟨h.word, ?_, fun u v hu hv => h.one u v ((hsame u).mp hu) ((hsame v).mp hv), hsleepers,
      fun u hu => ?_⟩
    · rw [h.free]
      exact forall_congr' fun u => not_congr (hsame u).symm
    · by_cases hut : u = t
      · subst hut
        exact .inl (hasleep (hself.symm.trans hu))
      · obtain htwo | ⟨v, hv⟩ := h.wakes u ((hother u hut).symm.trans hu)
        · exact .inl htwo
        · refine .inr ⟨v, ?_⟩
          by_cases hvt : v = t
          · subst hvt
            rw [hself]
            exact hpending (hp ▸ hv)
          · rw [hother v hvt]
            exact hv
  -- nobody held the mutex, so the thread is the only holder
  | acquire hfree hidle hafter =>
    have hnobody := h.free.mp hfree
    have honly : ∀ u, ((s.move t .holding).threads u).Holds → u = t := fun u hu => by
      by_contra hut
      rw [hother u hut] at hu
      exact hnobody u hu
    refine ⟨hafter.elim (fun h2 => .inr (.inr h2)) fun h1 => .inr (.inl h1.1), ?_,
      fun u v hu hv => (honly u hu).trans (honly v hv).symm, hsleepers, fun u hu => ?_⟩
    · refine iff_of_false (fun hzero : after = 0 => ?_) fun hnone => ?_
      · rcases hafter with rfl | ⟨rfl, -⟩ <;> exact absurd hzero (by decide)
      · have hnot := hnone t
        rw [hself] at hnot
        exact hnot trivial
    · rcases hafter with h2 | ⟨-, hquiet⟩
      · exact .inl h2
      · obtain htwo | ⟨v, hv⟩ := h.wakes u (asleep_of_move (by decide) hu).2
        · rw [hfree] at htwo
          exact absurd htwo (by decide)
        · have hvt : v ≠ t := fun hvt => hquiet (hp ▸ hvt ▸ hv)
          exact .inr ⟨v, (hother v hvt).symm ▸ hv⟩
  -- the word is 2 now, which is what a sleeper needs
  | mark hheld hidle =>
    have hsame := holds_move (q := .waiting) (hp ▸ iff_of_false id hidle)
    refine ⟨.inr (.inr rfl), iff_of_false (fun hzero => ?_) fun hnone => hheld ?_,
      fun u v hu hv => h.one u v ((hsame u).mp hu) ((hsame v).mp hv), hsleepers, fun _ _ => .inl rfl⟩
    · exact absurd (show (2 : UInt32) = 0 from hzero) (by decide)
    · exact h.free.mpr fun u hu => hnone u ((hsame u).mpr hu)
  -- a sleeper needs a wake under way: the word was 2, so this thread wakes one
  | release hclearing hq =>
    have hholder : (s.threads t).Holds := by
      rw [hp, hclearing]
      trivial
    have hgone : ¬ q.Holds ∧ q ≠ .asleep := by
      rcases hq with rfl | ⟨-, rfl⟩ <;> simp [Point.Holds]
    have hnobody : ∀ u, ¬ ((s.move t q).threads u).Holds := fun u hu => by
      by_cases hut : u = t
      · rw [hut, hself] at hu
        exact hgone.1 hu
      · rw [hother u hut] at hu
        exact hut (h.one u t hu hholder)
    refine ⟨.inl rfl, iff_of_true rfl hnobody, fun u _ hu => absurd hu (hnobody u), hsleepers,
      fun u hu => ?_⟩
    obtain htwo | ⟨v, hv⟩ := h.wakes u (asleep_of_move hgone.2 hu).2
    · obtain hwaking := hq.resolve_right fun hone => hone.1 htwo
      exact .inr ⟨t, .inr (hself.trans hwaking)⟩
    · have hvt : v ≠ t := fun hvt => by
        rw [hvt, hp, hclearing] at hv
        rcases hv with hv | hv <;> cases hv
      exact .inr ⟨v, (hother v hvt).symm ▸ hv⟩

/-- A thread that neither holds the mutex nor is pending, before and after, moves. -/
theorem Sound.pass (h : s.Sound) (hp : ¬ (s.threads t).Holds ∧ ¬ (s.threads t).Pending)
    (hq : ¬ q.Holds ∧ q ≠ .asleep) :
    (s.move t q).Sound :=
  h.access rfl (.pass hp hq)

/-- A thread outside calls `try_lock` or `lock`. -/
theorem Sound.enter (h : s.Sound) {result} (hout : s.threads t = .out result)
    (hq : ¬ q.Holds ∧ q ≠ .asleep) : (s.move t q).Sound := by
  refine h.pass ?_ hq
  rw [hout]
  simp [Point.Holds, Point.Pending, Point.Woken]

/-- The unlocker's duty ends when nobody sleeps or another thread is pending. -/
theorem Sound.retire (h : s.Sound) (ht : s.threads t = .waking)
    (hdone : (∀ u, s.threads u ≠ .asleep) ∨ ∃ u, u ≠ t ∧ (s.threads u).Pending) :
    (s.move t (.out (.ok ()))).Sound := by
  have hsame := holds_move (s := s) (t := t) (q := .out (.ok ())) (by rw [ht]; rfl)
  refine ⟨h.word, h.free.trans (forall_congr' fun u => not_congr (hsame u).symm),
    fun u v hu hv => h.one u v ((hsame u).mp hu) ((hsame v).mp hv), h.sleepers_move t _,
    fun u hu => ?_⟩
  rcases hdone with hnone | ⟨v, hvt, hv⟩
  · exact absurd (asleep_of_move (by decide) hu).2 (hnone u)
  · exact .inr ⟨v, (threads_move_of_ne hvt _ s).symm ▸ hv⟩

/-- The wake of `unlock`: the unlocker's duty passes to the sleeper it wakes. -/
theorem Sound.wake (h : s.Sound) {u} (ht : s.threads t = .waking) (hu : s.threads u = .asleep) :
    ((s.move u (.loading true)).move t (.out (.ok ()))).Sound := by
  have htu : t ≠ u := fun htu => by rw [htu, hu] at ht; cases ht
  have hwoken : (s.move u (.loading true)).Sound := by
    refine h.pass ?_ (by simp [Point.Holds])
    rw [hu]
    simp [Point.Holds, Point.Pending, Point.Woken]
  refine hwoken.retire ?_ (.inr ⟨u, htu.symm, ?_⟩)
  · rw [threads_move_of_ne htu, ht]
  · rw [threads_move_self]
    exact .inl rfl

theorem Sound.step (h : s.Sound) {op} (hstep : step op s = some u) : u.Sound := by
  cases op with
  | callTryLock t | callLock t =>
    simp only [Futex.step] at hstep
    split at hstep
    case h_1 hout =>
      cases hstep
      exact h.enter hout (by simp [Point.Holds])
    case h_2 => cases hstep
  | callUnlock t =>
    simp only [Futex.step] at hstep
    split at hstep
    case isTrue hholding =>
      cases hstep
      exact h.access hholding (.keep Iff.rfl (fun hp => by rcases hp with hp | hp <;> cases hp)
        fun hq => by cases hq)
    case isFalse => cases hstep
  | run t =>
    obtain ⟨⟨q, after⟩, haccess, rfl⟩ := Option.map_eq_some_iff.mp hstep
    exact h.access rfl (access_cases h.word
      (fun hheld hzero => h.free.mp hzero t hheld) haccess)
  | wake t sleeper =>
    simp only [Futex.step] at hstep
    split at hstep
    case isFalse => cases hstep
    case isTrue hwaking =>
      cases sleeper with
      | some v =>
        dsimp only at hstep
        split at hstep
        case isTrue hasleep =>
          cases hstep
          exact h.wake hwaking hasleep
        case isFalse => cases hstep
      -- no sleeper is left to be woken
      | none =>
        dsimp only at hstep
        split at hstep
        case isTrue hnone =>
          cases hstep
          refine h.retire hwaking (.inl fun v hv => ?_)
          have hmem := (h.sleepers v).mpr hv
          rw [hnone] at hmem
          exact List.not_mem_nil hmem
        case isFalse => cases hstep
  | spurious t =>
    simp only [Futex.step] at hstep
    split at hstep
    case isTrue hwaits =>
      cases hstep
      refine h.pass ?_ (by simp [Point.Holds])
      rcases hwaits with hwaits | hwaits
      · rw [hwaits]
        simp [Point.Holds, Point.Pending, Point.Woken]
      · rw [hwaits]
        simp [Point.Holds, Point.Pending, Point.Woken]
    case isFalse => cases hstep

/-- **The mutex excludes and strands no waiter.**  In every state that threads reach, at most one
of them holds the mutex, and while a thread sleeps on a word that is not 2, a thread was woken and
has not marked the word yet, or an unlocker has yet to wake one. -/
theorem excludes_and_wakes (h : Steps step (fun _ _ => True) (new : Futex T) s) :
    (∀ t u, (s.threads t).Holds → (s.threads u).Holds → t = u) ∧
    (∀ t, s.threads t = .asleep → s.word ≠ 2 →
      ∃ u, (s.threads u).Woken ∨ s.threads u = .waking) := by
  have hsound : s.Sound := h.invariant (fun _ _ _ ht _ hstep => ht.step hstep) sound_new
  exact ⟨hsound.one, fun t ht hne => (hsound.wakes t ht).resolve_left hne⟩

/-- One thread locks, the other goes to sleep, and the first one unlocks. -/
def contended : List (FutexOp Bool) :=
  [.callLock false, .run false, .callLock true, .run true, .run true, .run true, .run true,
    .callUnlock false, .run false, .run false]

/-- Before the unlocker's wake there is a sleeper on a word that is 0. -/
theorem excludes_and_wakes_contended :
    ∃ s : Futex Bool, Steps step (fun _ _ => True) new s ∧ s.threads true = .asleep ∧ s.word = 0 ∧
      ∃ u, (s.threads u).Woken ∨ s.threads u = .waking := by
  have hrun : (runAll step (fun _ _ => true) contended new).any
      (fun s : Futex Bool => s.threads true = .asleep ∧ s.word = 0) = true := by
    decide +kernel
  obtain ⟨s, hsteps, hasleep, hword⟩ := exists_steps (fun _ _ => True) contended hrun
  exact ⟨s, hsteps, hasleep, hword,
    (excludes_and_wakes hsteps).2 true hasleep (by rw [hword]; decide)⟩

end Futex

end Bexos
