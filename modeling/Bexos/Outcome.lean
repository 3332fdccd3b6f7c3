/-
State-passing programs that may fail or halt, and the rules to reason about them.

A `Prog σ ε α` runs on a state and ends in one of three ways: it returns a value, it
returns an error *keeping the changes made so far*, or it halts (a failed assertion, an
index out of bounds, an endless loop).  Two judgements are used throughout:

* `wp x Q E s` — if `x` run from `s` returns a value, `Q` holds of it and of the final
  state, and if it returns an error, `E` does; `@[simp]` rules push it through programs;
* `Moves R x` — every run of `x`, failed or not, relates its first and last state by the
  preorder `R`; with `R := Keeps I` it says that `x` preserves the invariant `I`.

`Returns x Q s` says in addition that the run does return a value.

`Steps` and `Steps.invariant` lift one-step facts to runs of any length.
-/
import Mathlib.Logic.Relation
import Mathlib.Order.Defs.Unbundled
import Mathlib.Tactic.Common

namespace Bexos

/-- How a program ends. An error keeps the state reached so far. -/
inductive Outcome (σ ε α : Type) where
  | ok (a : α) (s : σ)
  | err (e : ε) (s : σ)
  | halt

/-- The state in which a program stopped, unless it halted. -/
def Outcome.state? {σ ε α : Type} : Outcome σ ε α → Option σ
  | .ok _ s => some s
  | .err _ s => some s
  | .halt => none

/-- The value a program returned and its state, if it did not fail. -/
def Outcome.returned? {σ ε α : Type} : Outcome σ ε α → Option (α × σ)
  | .ok a s => some (a, s)
  | _ => none

variable {α ε σ : Type} {o : Outcome σ ε α}

theorem Outcome.eq_ok_of_returned? {r} (h : o.returned? = some r) : o = .ok r.1 r.2 := by
  cases o with
  | ok a s => rw [returned?, Option.some_inj] at h; rw [← h]
  | err e s | halt => cases h

/-- The error and the final state of a run that fails. -/
def Outcome.failed? {σ ε α : Type} : Outcome σ ε α → Option (ε × σ)
  | .err e s => some (e, s)
  | _ => none

theorem Outcome.eq_err_of_failed? {r} (h : o.failed? = some r) : o = .err r.1 r.2 := by
  cases o <;> cases h
  rfl

theorem except_bind_eq_ok {β : Type} {x} {f : α → Except ε β} {b} :
    (x >>= f) = .ok b ↔ ∃ a, x = .ok a ∧ f a = .ok b := by
  cases x with
  | error e => exact ⟨fun h => (by cases h), fun ⟨_, h, _⟩ => by cases h⟩
  | ok a =>
    constructor
    · exact fun h => ⟨a, rfl, h⟩
    · rintro ⟨_, h, hf⟩
      cases h
      exact hf

theorem ok_of_toOption {r : Except ε α} {a : α} (h : r.toOption = some a) : r = .ok a := by
  cases r with
  | error e => cases h
  | ok b => rw [Option.some.inj h]

/-- A program on state `σ` with errors `ε`. -/
def Prog (σ ε α : Type) := σ → Outcome σ ε α

namespace Prog

variable {τ δ β : Type}

/-! ### Combinators -/

protected def pure (a : α) : Prog σ ε α := fun s => .ok a s

protected def bind (x : Prog σ ε α) (f : α → Prog σ ε β) : Prog σ ε β := fun s =>
  match x s with
  | .ok a s' => f a s'
  | .err e s' => .err e s'
  | .halt => .halt

instance : Monad (Prog σ ε) where
  pure := Prog.pure
  bind := Prog.bind

def fail (e : ε) : Prog σ ε α := fun s => .err e s

def halt : Prog σ ε α := fun _ => .halt

def get : Prog σ ε σ := fun s => .ok s s

def modify (f : σ → σ) : Prog σ ε Unit := fun s => .ok () (f s)

/-- Go on only if `c` holds. -/
def check (c : Prop) [Decidable c] (e : ε) : Prog σ ε Unit := fun s =>
  if c then .ok () s else .err e s

/-- Run a program if `c` holds. -/
def when (c : Prop) [Decidable c] (x : Prog σ ε Unit) : Prog σ ε Unit :=
  if c then x else Prog.pure ()

/-- The value of an option, or the error. -/
def some? (o : Option α) (e : ε) : Prog σ ε α := fun s =>
  match o with
  | some a => .ok a s
  | none => .err e s

/-- The value of an option, which must be there. -/
def unwrap (o : Option α) : Prog σ ε α := fun s =>
  match o with
  | some a => .ok a s
  | none => .halt

/-- A computation without effects, which may fail. -/
def lift (r : Except ε α) : Prog σ ε α := fun s =>
  match r with
  | .ok a => .ok a s
  | .error e => .err e s

/-- Run a program and keep its result, error or not, as a value. -/
def attempt (x : Prog σ δ α) : Prog σ ε (Except δ α) := fun s =>
  match x s with
  | .ok a s' => .ok (.ok a) s'
  | .err e s' => .ok (.error e) s'
  | .halt => .halt

/-- Run a program on a part of the state. -/
def zoom (part : σ → τ) (put : τ → σ → σ) (x : Prog τ ε α) : Prog σ ε α := fun s =>
  match x (part s) with
  | .ok a t => .ok a (put t s)
  | .err e t => .err e (put t s)
  | .halt => .halt

/-- Run a program from `start`; the state it ends in takes the place of the present one, which an
error leaves as it is. -/
def adopt (start : σ) (x : Prog σ ε α) : Prog σ ε α := fun s =>
  match x start with
  | .ok a t => .ok a t
  | .err e _ => .err e s
  | .halt => .halt

/-- Change the errors of a program. -/
def mapErr (f : δ → ε) (x : Prog σ δ α) : Prog σ ε α := fun s =>
  match x s with
  | .ok a s' => .ok a s'
  | .err e s' => .err (f e) s'
  | .halt => .halt

/-- Run `f` on the members of a list, in order, until one fails. -/
def forEach : List α → (α → Prog σ ε Unit) → Prog σ ε Unit
  | [], _ => pure ()
  | a :: as, f => do
    f a
    forEach as f

/-- Run a program for each element and append what they return. -/
def gather (f : α → Prog σ ε (List β)) : List α → Prog σ ε (List β)
  | [] => pure []
  | a :: as => do
    let bs ← f a
    let rest ← gather f as
    return bs ++ rest

variable {a : α} {f : α → Prog σ ε β} {s t : σ} {x : Prog σ ε α} {e : ε} {part : σ → τ}
  {put : τ → σ → σ} {c : Prop} {E : ε → σ → Prop} {Q : α → σ → Prop} {R : σ → σ → Prop}

theorem bind_of_ok (h : x s = .ok a t) : (x >>= f) s = f a t := by
  show Prog.bind x f s = _
  rw [Prog.bind, h]

theorem bind_of_err (h : x s = .err e t) : (x >>= f) s = .err e t := by
  show Prog.bind x f s = _
  rw [Prog.bind, h]

theorem zoom_of_ok {x : Prog τ ε α} {t : τ} (h : x (part s) = .ok a t) :
    zoom part put x s = .ok a (put t s) := by
  rw [zoom, h]

theorem zoom_of_err {x : Prog τ ε α} {t : τ} (h : x (part s) = .err e t) :
    zoom part put x s = .err e (put t s) := by
  rw [zoom, h]

theorem adopt_of_ok {start} (h : x start = .ok a t) (s) : adopt start x s = .ok a t := by
  rw [adopt, h]

theorem adopt_of_err {start} (h : x start = .err e t) (s) : adopt start x s = .err e s := by
  rw [adopt, h]

theorem check_of_true [Decidable c] (h : c) : check c e s = .ok () s := if_pos h

theorem check_of_false [Decidable c] (h : ¬ c) : check c e s = .err e s := if_neg h

variable {as : List α}

/-- A loop whose steps leave the state alone. -/
theorem forEach_of_ok {f : α → Prog σ ε Unit} (h : ∀ a ∈ as, f a s = .ok () s) :
    forEach as f s = .ok () s := by
  induction as with
  | nil => rfl
  | cons a as ih =>
    rw [forEach, bind_of_ok (h a List.mem_cons_self)]
    exact ih fun b hb => h b (List.mem_cons_of_mem a hb)

/-! ### Weakest preconditions -/

/-- If `x` from `s` returns a value then `Q` holds, if it fails then `E` does. -/
def wp (x : Prog σ ε α) (Q : α → σ → Prop) (E : ε → σ → Prop) (s : σ) : Prop :=
  match x s with
  | .ok a s' => Q a s'
  | .err e s' => E e s'
  | .halt => True

/-- Where `x` ends, whether it returns or fails, `P` holds. -/
abbrev ends (x : Prog σ ε α) (P : σ → Prop) (s : σ) : Prop := wp x (fun _ => P) (fun _ => P) s

section Rules

@[simp] theorem wp_pure (a) : wp (pure a : Prog σ ε α) Q E s ↔ Q a s := Iff.rfl

@[simp] theorem wp_bind (x) (f : β → Prog σ ε α) :
    wp (x >>= f) Q E s ↔ wp x (fun b => wp (f b) Q E) E s := by
  show wp (Prog.bind x f) Q E s ↔ _
  unfold wp Prog.bind
  cases x s <;> rfl

@[simp] theorem wp_bind_pure (x) (f : β → α) :
    wp (x >>= fun b => pure (f b)) Q E s ↔ wp x (fun b => Q (f b)) E s := by
  rw [wp_bind]
  exact Iff.rfl

@[simp] theorem wp_fail (e) : wp (fail e) Q E s ↔ E e s := Iff.rfl

@[simp] theorem wp_halt : wp halt Q E s ↔ True := Iff.rfl

@[simp] theorem wp_get {Q : σ → σ → Prop} : wp get Q E s ↔ Q s s := Iff.rfl

@[simp] theorem wp_modify {Q : Unit → σ → Prop} (f : σ → σ) :
    wp (modify f) Q E s ↔ Q () (f s) := Iff.rfl

@[simp] theorem wp_check {Q : Unit → σ → Prop} (c : Prop) [Decidable c] (e) :
    wp (check c e) Q E s ↔ (c → Q () s) ∧ (¬ c → E e s) := by
  unfold wp check
  by_cases hc : c <;> simp [hc]

@[simp] theorem wp_when {Q : Unit → σ → Prop} (c : Prop) [Decidable c] (x) :
    wp (when c x) Q E s ↔ (c → wp x Q E s) ∧ (¬ c → Q () s) := by
  unfold when
  by_cases hc : c
  · simp [hc]
  · simp only [hc, if_false, false_imp_iff, not_false_eq_true, true_imp_iff, true_and]
    exact Iff.rfl

@[simp] theorem wp_some? (o e) :
    wp (some? o e) Q E s ↔ (∀ a, o = some a → Q a s) ∧ (o = none → E e s) := by
  unfold wp some?
  cases o <;> simp

@[simp] theorem wp_unwrap (o) : wp (unwrap o) Q E s ↔ ∀ a, o = some a → Q a s := by
  unfold wp unwrap
  cases o <;> simp

@[simp] theorem wp_lift (r) :
    wp (lift r) Q E s ↔ (∀ a, r = .ok a → Q a s) ∧ (∀ e, r = .error e → E e s) := by
  unfold wp lift
  cases r <;> simp

theorem wp_lift_ok (a) : wp (lift (.ok a) : Prog σ ε α) Q E s ↔ Q a s := Iff.rfl

theorem wp_lift_error (e) : wp (lift (.error e) : Prog σ ε α) Q E s ↔ E e s := Iff.rfl

@[simp] theorem wp_attempt {Q : Except δ α → σ → Prop} (x) :
    wp (attempt x) Q E s ↔ wp x (fun a => Q (.ok a)) (fun e => Q (.error e)) s := by
  unfold wp attempt
  cases x s <;> rfl

@[simp] theorem wp_zoom (part : σ → τ) (put : τ → σ → σ) (x) :
    wp (zoom part put x) Q E s ↔
      wp x (fun a t => Q a (put t s)) (fun e t => E e (put t s)) (part s) := by
  unfold wp zoom
  cases x (part s) <;> rfl

@[simp] theorem wp_mapErr (f : δ → ε) (x) :
    wp (mapErr f x) Q E s ↔ wp x Q (fun e => E (f e)) s := by
  unfold wp mapErr
  cases x s <;> rfl

@[simp] theorem wp_ite (c : Prop) [Decidable c] (x y) :
    wp (if c then x else y) Q E s ↔ (c → wp x Q E s) ∧ (¬ c → wp y Q E s) := by
  by_cases hc : c <;> simp [hc]

variable {E' : ε → σ → Prop} {Q' : α → σ → Prop} {P : σ → Prop}

theorem wp_mono (h : wp x Q E s) (hQ : ∀ a t, Q a t → Q' a t)
    (hE : ∀ e t, E e t → E' e t := by
      first | exact fun _ _ h => h | exact fun _ _ _ => trivial | exact fun _ _ h => h.elim) :
    wp x Q' E' s := by
  unfold wp at h ⊢
  cases hx : x s with
  | ok a t => rw [hx] at h; exact hQ a t h
  | err e t => rw [hx] at h; exact hE e t h
  | halt => trivial

theorem wp_and (h : wp x Q E s) (h' : wp x Q' E' s) :
    wp x (fun a t => Q a t ∧ Q' a t) (fun e t => E e t ∧ E' e t) s := by
  unfold wp at h h' ⊢
  cases hx : x s <;> simp_all

theorem wp_true (x : Prog σ ε α) : ends x (fun _ => True) s := by
  unfold ends wp
  cases x s <;> trivial

/-- The loop rule: an invariant over what is left to do. -/
theorem wp_forEach {Q : Unit → σ → Prop} {f : β → Prog σ ε Unit} (I : List β → σ → Prop)
    (hstep : ∀ b bs t, I (b :: bs) t → wp (f b) (fun _ => I bs) E t)
    (hend : ∀ t, I [] t → Q () t) :
    ∀ (bs : List β) (s : σ), I bs s → wp (forEach bs f) Q E s := by
  intro bs
  induction bs with
  | nil => intro s hI; exact hend s hI
  | cons b bs ih =>
    intro s hI
    simp only [forEach, wp_bind]
    exact wp_mono (hstep b bs s hI) (fun _ t ht => ih t ht) (fun _ _ h => h)

theorem wp_of_run (hok : ∀ a t, x s = .ok a t → Q a t) (herr : ∀ e t, x s = .err e t → E e t) :
    wp x Q E s := by
  unfold wp
  cases hx : x s with
  | ok a t => exact hok a t hx
  | err e t => exact herr e t hx
  | halt => trivial

/-- What a program does, named by the outcome that tells it. -/
theorem wp_told {ω : Type} {P : ω → σ → Prop} (tell : Outcome σ ε α → ω)
    (h : wp x (fun a t => P (tell (.ok a t)) t) (fun e t => P (tell (.err e t)) t) s) :
    ends x (P (tell (x s))) s := by
  unfold wp at h
  unfold ends wp
  cases hx : x s with
  | ok a t | err e t => rw [hx] at h; exact h
  | halt => trivial

/-- A run that returned a value. -/
theorem of_ok (h : wp x Q E s) (hx : x s = .ok a t) : Q a t := by
  unfold wp at h
  rw [hx] at h
  exact h

/-- A run that failed. -/
theorem of_err (h : wp x Q E s) (hx : x s = .err e t) : E e t := by
  unfold wp at h
  rw [hx] at h
  exact h

/-- A run that did not halt. -/
theorem of_state (h : ends x P s) (hx : (x s).state? = some t) : P t := by
  unfold ends wp at h
  cases hr : x s with
  | ok a u | err e u =>
    rw [hr] at h hx
    rw [← Option.some.inj hx]
    exact h
  | halt => rw [hr] at hx; cases hx

theorem wp_of_state (h : ∀ t, (x s).state? = some t → P t) : ends x P s := by
  unfold ends wp
  cases hr : x s with
  | ok a u | err e u => exact h u (by rw [hr]; rfl)
  | halt => trivial

end Rules

/-! ### Preorders that every run follows -/

/-- Every run of `x`, failed or not, moves the state along `R`. It is a class: the instances
below are the rules of a compositional proof, and programs add their own. -/
class Moves (R : σ → σ → Prop) (x : Prog σ ε α) : Prop where
  run : ∀ s, wp x (fun _ => R s) (fun _ => R s) s

/-- The preorder of an invariant. -/
def Keeps (I : σ → Prop) (s t : σ) : Prop := I s → I t

instance (I : σ → Prop) : Std.Refl (Keeps I) := ⟨fun _ h => h⟩

instance (I : σ → Prop) : IsTrans σ (Keeps I) := ⟨fun _ _ _ h₁ h₂ h => h₂ (h₁ h)⟩

namespace Moves

variable {R' : σ → σ → Prop} {I : σ → Prop}

theorem state (h : Moves R x) (hx : (x s).state? = some t) : R s t :=
  of_state (h.run s) hx

theorem mono (h : Moves R x) (hR : ∀ s t, R s t → R' s t) : Moves R' x :=
  ⟨fun s => wp_mono (h.run s) (fun _ t => hR s t) (fun _ t => hR s t)⟩

theorem both (h : Moves R x) (h' : Moves R' x) : Moves (fun s t => R s t ∧ R' s t) x :=
  ⟨fun s => wp_and (h.run s) (h'.run s)⟩

theorem modify {f : σ → σ} (h : ∀ s, R s (f s)) : Moves R (Prog.modify f : Prog σ ε Unit) :=
  ⟨h⟩

/-- A preorder that holds of runs from states with `P`. -/
theorem of_pre {P : σ → Prop} (h : ∀ s, P s → ends x (R s) s) :
    Moves (fun s t => P s → R s t) x := by
  refine ⟨fun s => ?_⟩
  by_cases hs : P s
  · exact wp_mono (h s hs) (fun _ _ ht _ => ht) (fun _ _ ht _ => ht)
  · unfold wp
    cases x s <;> simp [hs]

theorem of_keeps (h : ∀ s, I s → ends x I s) : Moves (Keeps I) x :=
  of_pre (R := fun _ t => I t) h

theorem keep (h : Moves (Keeps I) x) (hs : I s) : ends x I s :=
  wp_mono (h.run s) (fun _ _ ht => ht hs) (fun _ _ ht => ht hs)

instance halt : Moves R (Prog.halt : Prog σ ε α) := ⟨fun _ => trivial⟩

instance attempt {x} [hx : Moves R x] : Moves R (Prog.attempt x : Prog σ ε (Except δ α)) :=
  ⟨fun s => (wp_attempt x).mpr (hx.run s)⟩

instance mapErr {f : δ → ε} {x : Prog σ δ α} [hx : Moves R x] : Moves R (Prog.mapErr f x) :=
  ⟨fun s => (wp_mapErr f x).mpr (hx.run s)⟩

instance ite {c : Prop} [Decidable c] {x y : Prog σ ε α} [hx : Moves R x] [hy : Moves R y] :
    Moves R (if c then x else y) := by
  split
  · exact hx
  · exact hy

section Refl

variable [Std.Refl R]

instance pure (a) : Moves R (Pure.pure a : Prog σ ε α) := ⟨fun s => refl_of R s⟩

instance fail (e) : Moves R (Prog.fail e : Prog σ ε α) := ⟨fun s => refl_of R s⟩

instance get : Moves R (Prog.get : Prog σ ε σ) := ⟨fun s => refl_of R s⟩

instance check (c : Prop) [Decidable c] (e) : Moves R (Prog.check c e : Prog σ ε Unit) :=
  ⟨fun s => (wp_check c e).mpr ⟨fun _ => refl_of R s, fun _ => refl_of R s⟩⟩

instance when {c : Prop} [Decidable c] {x : Prog σ ε Unit} [hx : Moves R x] :
    Moves R (Prog.when c x) :=
  ⟨fun s => (wp_when c x).mpr ⟨fun _ => hx.run s, fun _ => refl_of R s⟩⟩

instance some? (o e) : Moves R (Prog.some? o e : Prog σ ε α) :=
  ⟨fun s => (wp_some? o e).mpr ⟨fun _ _ => refl_of R s, fun _ => refl_of R s⟩⟩

instance unwrap (o) : Moves R (Prog.unwrap o : Prog σ ε α) :=
  ⟨fun s => (wp_unwrap o).mpr fun _ _ => refl_of R s⟩

instance lift (r) : Moves R (Prog.lift r : Prog σ ε α) :=
  ⟨fun s => (wp_lift r).mpr ⟨fun _ _ => refl_of R s, fun _ _ => refl_of R s⟩⟩

end Refl

section Trans

variable [IsTrans σ R]

/-- A program that goes on from a state already reached. -/
theorem wp_trans (hs : R s t) (hx : ends x (R t) t) : ends x (R s) t :=
  wp_mono hx (fun _ _ ht => trans_of R hs ht) fun _ _ ht => trans_of R hs ht

theorem after (hs : R s t) (hx : Moves R x) : ends x (R s) t :=
  wp_trans hs (hx.run t)

/-- Two programs after each other. -/
theorem seq (hx : ends x (R s) s) (hf : ∀ a t, R s t → ends (f a) (R t) t) :
    ends (x >>= f) (R s) s :=
  (wp_bind x f).mpr <| wp_mono hx fun a t ht => wp_trans ht (hf a t ht)

theorem first [hf : ∀ a, Moves R (f a)] (hx : ends x (R s) s) : ends (x >>= f) (R s) s :=
  seq hx fun a t _ => (hf a).run t

theorem skip [hx : Moves R x] (hf : ∀ a t, R s t → ends (f a) (R t) t) :
    ends (x >>= f) (R s) s :=
  seq (hx.run s) hf

theorem andThen (hx : Moves R x) (hf : ∀ a, Moves R (f a)) : Moves R (x >>= f) :=
  ⟨fun s => seq (hx.run s) fun a t _ => (hf a).run t⟩

theorem next [hx : Moves R x] (hf : ∀ a, Moves R (f a)) : Moves R (x >>= f) :=
  andThen hx hf

instance bind {x} {f : α → Prog σ ε β} [hx : Moves R x] [hf : ∀ a, Moves R (f a)] :
    Moves R (x >>= f) :=
  andThen hx hf

instance forEach [Std.Refl R] {f : α → Prog σ ε Unit} [hf : ∀ a, Moves R (f a)] (as) :
    Moves R (Prog.forEach as f) := by
  induction as with
  | nil => exact pure ()
  | cons a as ih => exact andThen (hf a) fun _ => ih

end Trans

end Moves

/-- Use a frame of `x` in a proof about a program that starts with `x`. -/
theorem wp_of_moves [h : Moves R x] (hQ : ∀ a t, R s t → Q a t)
    (hE : ∀ e t, R s t → E e t := by exact fun _ _ _ => trivial) : wp x Q E s :=
  wp_mono (h.run s) hQ hE

/-! ### Programs that do not fail -/

/-- No run of `x` ends in an error. -/
class NoFail (x : Prog σ ε α) : Prop where
  run : ∀ s, wp x (fun _ _ => True) (fun _ _ => False) s

namespace NoFail

instance halt : NoFail (Prog.halt : Prog σ ε α) := ⟨fun _ => trivial⟩

instance pure (a) : NoFail (Pure.pure a : Prog σ ε α) := ⟨fun _ => trivial⟩

instance get : NoFail (Prog.get : Prog σ ε σ) := ⟨fun _ => trivial⟩

instance modify (f : σ → σ) : NoFail (Prog.modify f : Prog σ ε Unit) := ⟨fun _ => trivial⟩

instance unwrap (o) : NoFail (Prog.unwrap o : Prog σ ε α) :=
  ⟨fun _ => (wp_unwrap o).mpr fun _ _ => trivial⟩

instance attempt (x) : NoFail (Prog.attempt x : Prog σ ε (Except δ α)) :=
  ⟨fun s => (wp_attempt x).mpr (by unfold wp; cases x s <;> trivial)⟩

instance ite {c : Prop} [Decidable c] {x y : Prog σ ε α} [hx : NoFail x] [hy : NoFail y] :
    NoFail (if c then x else y) := by
  split
  · exact hx
  · exact hy

instance when {c : Prop} [Decidable c] {x : Prog σ ε Unit} [hx : NoFail x] :
    NoFail (Prog.when c x) :=
  ⟨fun s => (wp_when c x).mpr ⟨fun _ => hx.run s, fun _ => trivial⟩⟩

theorem andThen (hx : NoFail x) (hf : ∀ a, NoFail (f a)) : NoFail (x >>= f) :=
  ⟨fun s => (wp_bind x f).mpr (wp_mono (hx.run s) fun a t _ => (hf a).run t)⟩

theorem next [hx : NoFail x] (hf : ∀ a, NoFail (f a)) : NoFail (x >>= f) :=
  andThen hx hf

instance bind {x} {f : α → Prog σ ε β} [hx : NoFail x] [hf : ∀ a, NoFail (f a)] :
    NoFail (x >>= f) :=
  andThen hx hf

instance forEach {f : α → Prog σ ε Unit} [hf : ∀ a, NoFail (f a)] (as) :
    NoFail (Prog.forEach as f) := by
  induction as with
  | nil => exact pure ()
  | cons a as ih => exact andThen (hf a) fun _ => ih

end NoFail

/-- A frame of a program that does not fail. -/
theorem wp_of_total [h : Moves R x] [n : NoFail x] (hQ : ∀ a t, R s t → Q a t) : wp x Q E s :=
  wp_mono (wp_and (h.run s) (n.run s)) (fun a t ht => hQ a t ht.1) fun _ _ ht => ht.2.elim

/-! ### Programs that return -/

/-- The run of `x` from `s` returns a value, and `Q` holds of it and of the final state. -/
def Returns (x : Prog σ ε α) (Q : α → σ → Prop) (s : σ) : Prop := ∃ a t, x s = .ok a t ∧ Q a t

theorem bind_eq_ok {x} {f : β → Prog σ ε α} :
    (x >>= f) s = .ok a t ↔ ∃ b u, x s = .ok b u ∧ f b u = .ok a t := by
  show Prog.bind x f s = .ok a t ↔ _
  unfold Prog.bind
  cases x s with
  | ok b u =>
    constructor
    · exact fun h => ⟨b, u, rfl, h⟩
    · rintro ⟨_, _, hx, h⟩
      cases hx
      exact h
  | err e u | halt => simp

theorem pure_eq_ok {b} : (pure a : Prog σ ε α) s = .ok b t ↔ a = b ∧ s = t := by
  show Outcome.ok a s = .ok b t ↔ _
  rw [Outcome.ok.injEq]

theorem check_eq_ok [Decidable c] {a} : (check c e : Prog σ ε Unit) s = .ok a t ↔ c ∧ s = t := by
  unfold check
  by_cases hc : c <;> simp [hc]

/-- What is gathered is what the programs returned. -/
theorem of_gather {f : α → Prog σ ε (List β)} {bs} (h : gather f as s = .ok bs t) :
    (∀ b ∈ bs, ∃ a ∈ as, ∃ s' t' bs', f a s' = .ok bs' t' ∧ b ∈ bs') ∧
      ∀ a ∈ as, ∃ s' t' bs', f a s' = .ok bs' t' ∧ bs' ⊆ bs := by
  induction as generalizing s bs with
  | nil =>
    obtain ⟨rfl, -⟩ := pure_eq_ok.mp h
    exact ⟨fun b hb => absurd hb List.not_mem_nil, fun a ha => absurd ha List.not_mem_nil⟩
  | cons a as ih =>
    obtain ⟨first, u, hfirst, h⟩ := bind_eq_ok.mp h
    obtain ⟨rest, v, hrest, h⟩ := bind_eq_ok.mp h
    obtain ⟨rfl, rfl⟩ := pure_eq_ok.mp h
    obtain ⟨hfrom, hall⟩ := ih hrest
    constructor
    · intro b hb
      rcases List.mem_append.mp hb with hb | hb
      · exact ⟨a, List.mem_cons_self, s, u, first, hfirst, hb⟩
      · obtain ⟨a', ha', hrun⟩ := hfrom b hb
        exact ⟨a', List.mem_cons_of_mem a ha', hrun⟩
    · intro a' ha'
      rcases List.mem_cons.mp ha' with rfl | ha'
      · exact ⟨s, u, first, hfirst, fun b hb => List.mem_append_left _ hb⟩
      · obtain ⟨s', t', bs', hrun, hsub⟩ := hall a' ha'
        exact ⟨s', t', bs', hrun, fun b hb => List.mem_append_right _ (hsub hb)⟩

section Returns

theorem returns_pure (a) : Returns (pure a : Prog σ ε α) Q s ↔ Q a s := by
  constructor
  · rintro ⟨b, t, hrun, hQ⟩
    cases hrun
    exact hQ
  · exact fun hQ => ⟨a, s, rfl, hQ⟩

theorem returns_bind (x) (f : β → Prog σ ε α) :
    Returns (x >>= f) Q s ↔ Returns x (fun b => Returns (f b) Q) s := by
  show Returns (Prog.bind x f) Q s ↔ _
  unfold Returns Prog.bind
  cases x s with
  | ok b t =>
    simp only [Outcome.ok.injEq]
    constructor
    · exact fun h => ⟨b, t, ⟨rfl, rfl⟩, h⟩
    · rintro ⟨_, _, ⟨rfl, rfl⟩, h⟩
      exact h
  | err e t | halt => simp

theorem returns_get {Q : σ → σ → Prop} : Returns (get : Prog σ ε σ) Q s ↔ Q s s := returns_pure s

theorem returns_modify {Q : Unit → σ → Prop} (f : σ → σ) :
    Returns (modify f : Prog σ ε Unit) Q s ↔ Q () (f s) := by
  constructor
  · rintro ⟨b, t, hrun, hQ⟩
    cases hrun
    exact hQ
  · exact fun hQ => ⟨(), f s, rfl, hQ⟩

theorem returns_check {Q : Unit → σ → Prop} (c : Prop) [Decidable c] (e : ε) :
    Returns (check c e) Q s ↔ c ∧ Q () s := by
  unfold Returns check
  by_cases hc : c
  · simp only [hc, if_true, true_and]
    exact returns_pure ()
  · simp [hc]

theorem returns_some? (o : Option α) (e : ε) :
    Returns (some? o e) Q s ↔ ∃ a, o = some a ∧ Q a s := by
  unfold Returns some?
  cases o <;> simp

theorem returns_when {Q : Unit → σ → Prop} (c : Prop) [Decidable c] (x : Prog σ ε Unit) :
    Returns (when c x) Q s ↔ (c → Returns x Q s) ∧ (¬ c → Q () s) := by
  unfold when
  by_cases hc : c
  · simp [hc]
  · simp only [hc, if_false, false_imp_iff, not_false_eq_true, true_imp_iff, true_and]
    exact returns_pure ()

end Returns

/-! ### Programs that do not stop -/

/-- The run of `x` from `s` ends, with a value or an error. -/
def NoHalt (x : Prog σ ε α) (s : σ) : Prop := x s ≠ .halt

section NoHalt

theorem noHalt_bind (x) (f : β → Prog σ ε α) :
    NoHalt (x >>= f) s ↔ NoHalt x s ∧ wp x (fun b t => NoHalt (f b) t) (fun _ _ => True) s := by
  show NoHalt (Prog.bind x f) s ↔ _
  unfold NoHalt wp Prog.bind
  cases x s <;> simp

theorem noHalt_pure (a) : NoHalt (pure a : Prog σ ε α) s := nofun

theorem noHalt_get : NoHalt (get : Prog σ ε σ) s := nofun

theorem noHalt_modify (f : σ → σ) : NoHalt (modify f : Prog σ ε Unit) s := nofun

theorem noHalt_check (c : Prop) [Decidable c] (e) : NoHalt (check c e : Prog σ ε Unit) s := by
  unfold NoHalt check
  split <;> exact nofun

theorem noHalt_some? (o e) : NoHalt (some? o e : Prog σ ε α) s := by
  cases o <;> exact nofun

theorem noHalt_lift (r) : NoHalt (lift r : Prog σ ε α) s := by
  cases r <;> exact nofun

theorem noHalt_unwrap {o} (h : o = some a) : NoHalt (unwrap o : Prog σ ε α) s := by
  rw [h]
  exact nofun

theorem noHalt_forEach {f : β → Prog σ ε Unit} (I : List β → σ → Prop)
    (hstep : ∀ b bs t, I (b :: bs) t →
      NoHalt (f b) t ∧ wp (f b) (fun _ => I bs) (fun _ _ => True) t) :
    ∀ (bs : List β) (s : σ), I bs s → NoHalt (forEach bs f) s := by
  intro bs
  induction bs with
  | nil => exact fun s _ => noHalt_pure ()
  | cons b bs ih =>
    intro s hI
    obtain ⟨hb, hwp⟩ := hstep b bs s hI
    exact (noHalt_bind _ _).mpr ⟨hb, wp_mono hwp fun _ t ht => ih t ht⟩

theorem exists_state_of_noHalt {P : σ → Prop} (h : NoHalt x s)
    (hP : ends x P s) : ∃ t, (x s).state? = some t ∧ P t := by
  unfold NoHalt at h
  unfold ends wp at hP
  cases hx : x s with
  | ok a t | err e t => rw [hx] at hP; exact ⟨t, rfl, hP⟩
  | halt => exact absurd hx h

end NoHalt

/-- `x` ends from every state. -/
class Finishes (x : Prog σ ε α) : Prop where
  run : ∀ s, NoHalt x s

namespace Finishes

variable {x : Prog σ ε β} {f : β → Prog σ ε α}

instance pure (a) : Finishes (Pure.pure a : Prog σ ε α) := ⟨fun _ => noHalt_pure a⟩

instance get : Finishes (Prog.get : Prog σ ε σ) := ⟨fun _ => noHalt_get⟩

instance modify (g : σ → σ) : Finishes (Prog.modify g : Prog σ ε Unit) := ⟨fun _ => noHalt_modify g⟩

instance check (c : Prop) [Decidable c] (e) : Finishes (Prog.check c e : Prog σ ε Unit) :=
  ⟨fun _ => noHalt_check c e⟩

instance some? (o e) : Finishes (Prog.some? o e : Prog σ ε α) :=
  ⟨fun _ => noHalt_some? o e⟩

instance lift (r) : Finishes (Prog.lift r : Prog σ ε α) := ⟨fun _ => noHalt_lift r⟩

instance fail (e) : Finishes (Prog.fail e : Prog σ ε α) := ⟨fun _ => nofun⟩

instance bind [hx : Finishes x] [hf : ∀ b, Finishes (f b)] : Finishes (x >>= f) where
  run s := (noHalt_bind x f).mpr
    ⟨hx.run s, wp_mono (wp_true x) fun b t _ => (hf b).run t⟩

instance ite (c : Prop) [Decidable c] {x y : Prog σ ε α} [hx : Finishes x] [hy : Finishes y] :
    Finishes (if c then x else y) := by
  split
  · exact hx
  · exact hy

instance when (c : Prop) [Decidable c] {x : Prog σ ε Unit} [Finishes x] : Finishes (Prog.when c x) :=
  ite c (y := Pure.pure ())

end Finishes

-- the rules above are the only way to reason about `wp`: unfolding it would run the program
attribute [irreducible] wp

end Prog

/-! ### Runs -/

/-- `Steps step C s t`: a run of `step` leads from `s` to `t`, and each action of the run
meets the condition `C` in the state it starts from. -/
inductive Steps {σ ι : Type} (step : ι → σ → Option σ) (C : σ → ι → Prop) (s : σ) : σ → Prop
  | refl : Steps step C s s
  | tail {t u : σ} {i : ι} : Steps step C s t → C t i → step i t = some u → Steps step C s u

namespace Steps

variable {ι : Type} {step : ι → σ → Option σ} {C : σ → ι → Prop} {s t u : σ}

/-- What every step keeps, every run keeps. -/
theorem invariant {I : σ → Prop} (hstep : ∀ t i u, I t → C t i → step i t = some u → I u)
    (hrun : Steps step C s t) (hs : I s) : I t := by
  induction hrun with
  | refl => exact hs
  | tail _ hc hu ih => exact hstep _ _ _ ih hc hu

theorem trans (h₁ : Steps step C s t) (h₂ : Steps step C t u) : Steps step C s u := by
  induction h₂ with
  | refl => exact h₁
  | tail _ hc hu ih => exact ih.tail hc hu

theorem mono {D : σ → ι → Prop} (hCD : ∀ t i, C t i → D t i) (h : Steps step C s t) :
    Steps step D s t := by
  induction h with
  | refl => exact .refl
  | tail _ hc hu ih => exact ih.tail (hCD _ _ hc) hu

end Steps

/-- A run with an observer, who after a step from `s` to `t` writes down `note w i s t`. -/
def watch {σ ι ω : Type} (step : ι → σ → Option σ) (note : ω → ι → σ → σ → ω) (i : ι)
    (x : σ × ω) : Option (σ × ω) :=
  (step i x.1).map fun t => (t, note x.2 i x.1 t)

/-- Run a list of actions, checking the condition of each. -/
def runAll {σ ι : Type} (step : ι → σ → Option σ) (C : σ → ι → Bool) : List ι → σ → Option σ
  | [], s => some s
  | i :: is, s => if C s i then (step i s).bind (runAll step C is) else none

theorem steps_of_runAll {ι : Type} {step : ι → σ → Option σ} {C : σ → ι → Bool} :
    ∀ (is : List ι) {s t : σ}, runAll step C is s = some t →
      Steps step (fun s i => C s i = true) s t := by
  intro is
  induction is with
  | nil =>
    intro s t h
    rw [runAll, Option.some_inj] at h
    exact h ▸ .refl
  | cons i is ih =>
    intro s t h
    rw [runAll] at h
    split at h
    · rename_i hc
      obtain ⟨u, hu, hrest⟩ := Option.bind_eq_some_iff.mp h
      have hfirst : Steps step (fun s i => C s i = true) s u := Steps.refl.tail hc hu
      exact hfirst.trans (ih hrest)
    · cases h

/-- A run leads to a state that is reached, and what it shows of that state holds. -/
theorem exists_steps {ι : Type} {step : ι → σ → Option σ} (C : σ → ι → Prop)
    [∀ s i, Decidable (C s i)] {P : σ → Prop} [DecidablePred P] {s} (is : List ι)
    (h : (runAll step (fun s i => decide (C s i)) is s).any (fun t => decide (P t)) = true) :
    ∃ t, Steps step C s t ∧ P t := by
  obtain ⟨t, ht, hP⟩ := (Option.any_eq_true _ _).mp h
  exact ⟨t, (steps_of_runAll is ht).mono fun _ _ hc => of_decide_eq_true hc, of_decide_eq_true hP⟩

end Bexos
