/-
Channels that a failed bind leaves behind.

`appd/broker.rs` asks the kernel for one channel for each capability that it binds, and returns at
the first failure.  No path of it closes a channel.

* `createChannel` — a kernel that grants or refuses each channel, with those that are open;
* `demands` — the channels that a bind asks for, up to the failures among them;
* `Smooth` — nothing fails once the first channel is there;
* **`closed_iff_smooth`** — when a failed bind leaves no channel open.
-/
import Bexos.ServiceBroker

namespace Bexos.Appd

open Prog

/-- A channel that a bind asks for, or a failure. -/
abbrev Demand := Except BindError Unit

def demand (client : ClientContext) (consumed : ConsumedService) (c : CapabilityMetadata) :
    List Demand :=
  if checkPermission c.permission client ≠ .allow then []
  else
    match scopedOrdinals consumed c with
    | .error e => [.error e]
    | .ok ordinals => if ordinals.isEmpty then [] else [.ok ()]

def demandsAt (client : ClientContext) (consumed : ConsumedService) (i : PublishedInterface) :
    List Demand :=
  match scopedCapabilities consumed i with
  | .error e => [.error e]
  | .ok cs => cs.flatMap (demand client consumed)

/-- What binding a service asks of the kernel. -/
def demands (r : CapabilityRegistry) (client : ClientContext) (consumed : ConsumedService) :
    List Demand :=
  match requiredMetadata consumed with
  | .error _ => []
  | .ok required => (eligible r client consumed required).flatMap (demandsAt client consumed)

/-- The channel whose ends a binding has. -/
def BoundCapability.channel (b : BoundCapability) : CreatedChannel :=
  ⟨b.clientEndpoint.objectId, b.providerEndpoint.objectId⟩

section Kernel

variable (answers : ℕ → Except KernelError CreatedChannel)

/-- The state is the list of open channels, and the answer is that after so many channels. -/
def createChannel : Prog (List CreatedChannel) KernelError CreatedChannel := fun l =>
  match answers l.length with
  | .ok c => .ok c (l ++ [c])
  | .error e => .err e l

/-- No demand fails, and the kernel grants a channel for each. -/
def Met : ℕ → List Demand → Prop
  | _, [] => True
  | n, d :: rest => d = .ok () ∧ (answers n).isOk ∧ Met (n + 1) rest

/-- Once the first channel is there, the other demands are met. -/
def Smooth (D : List Demand) : Prop :=
  D.head? = some (.ok ()) → (answers 0).isOk → Met answers 1 D.tail

/-- The open channels after some demands, and whether all of them were met. -/
def after : List CreatedChannel → List Demand → List CreatedChannel × Bool
  | l, [] => (l, true)
  | l, .error _ :: _ => (l, false)
  | l, .ok () :: rest =>
    match answers l.length with
    | .ok c => after (l ++ [c]) rest
    | .error _ => (l, false)

variable {answers} {l : List CreatedChannel} {D D' : List Demand}

theorem after_append : after answers l (D ++ D') =
    if (after answers l D).2 then after answers (after answers l D).1 D'
    else after answers l D := by
  fun_induction after answers l D with
  | case1 l => rfl
  | case2 => rfl
  | case3 l rest c hc ih => simpa only [List.cons_append, after, hc] using ih
  | case4 l rest e he => simp [after, he]

theorem met_iff : Met answers l.length D ↔ (after answers l D).2 = true := by
  fun_induction after answers l D with
  | case1 | case2 => simp [Met]
  | case3 l rest c hc ih => simpa [Met, hc, Except.isOk, Except.toBool] using ih
  | case4 l rest e he => simp [Met, he, Except.isOk, Except.toBool]

theorem prefix_after : l <+: (after answers l D).1 := by
  fun_induction after answers l D with
  | case1 | case2 | case4 => exact List.prefix_rfl
  | case3 l rest c hc ih => exact (List.prefix_append _ _).trans ih

/-- Demands that fail leave no channel exactly if they are smooth. -/
theorem smooth_iff : Smooth answers D ↔
    ((after answers [] D).2 = false → (after answers [] D).1 = []) := by
  cases D with
  | nil => simp [Smooth, after]
  | cons d rest =>
    cases d with
    | error e => simp [Smooth, after]
    | ok =>
      cases hanswer : answers 0 with
      | error e => simp [Smooth, after, hanswer, Except.isOk, Except.toBool]
      | ok c =>
        have hopen : (after answers [c] rest).1 ≠ [] := prefix_after.ne_nil (List.cons_ne_nil _ _)
        have hmet : Met answers 1 rest ↔ (after answers [c] rest).2 = true :=
          met_iff (l := [c])
        simpa [Smooth, after, hanswer, Except.isOk, Except.toBool, hopen] using hmet

variable {x y : Prog (List CreatedChannel) BindError (List BoundCapability)}

/-- A program meets its demands and binds the channels of them, or fails at the first that it
cannot meet. -/
def Serves (answers : ℕ → Except KernelError CreatedChannel) (D : List Demand)
    (x : Prog (List CreatedChannel) BindError (List BoundCapability)) : Prop :=
  ∀ l, (∃ bs, x l = .ok bs (l ++ bs.map BoundCapability.channel) ∧
      after answers l D = (l ++ bs.map BoundCapability.channel, true)) ∨
    ∃ e t, x l = .err e t ∧ after answers l D = (t, false)

theorem Serves.append (hx : Serves answers D x) (hy : Serves answers D' y) :
    Serves answers (D ++ D') (do let bs ← x; let rest ← y; return bs ++ rest) := by
  intro l
  rw [after_append]
  rcases hx l with ⟨bs, hbs, hmet⟩ | ⟨e, t, hfail, hstop⟩
  · rw [bind_of_ok hbs, hmet]
    rcases hy _ with ⟨rest, hrest, hmet⟩ | ⟨e, t, hfail, hstop⟩
    · rw [bind_of_ok hrest, List.append_assoc, ← List.map_append] at *
      exact .inl ⟨bs ++ rest, rfl, hmet⟩
    · exact .inr ⟨e, t, bind_of_err hfail, hstop⟩
  · exact .inr ⟨e, t, bind_of_err hfail, by rw [hstop]; rfl⟩

theorem serves_nil : Serves answers [] (pure []) := fun l =>
  .inl ⟨[], congrArg _ (List.append_nil l).symm, congrArg (·, true) (List.append_nil l).symm⟩

theorem Serves.gather {α : Type} {f : α → Prog (List CreatedChannel) BindError (List BoundCapability)}
    {g : α → List Demand} (h : ∀ a, Serves answers (g a) (f a)) (as : List α) :
    Serves answers (as.flatMap g) (gather f as) := by
  induction as with
  | nil => exact serves_nil
  | cons a as ih => exact (h a).append ih

theorem create_of_ok {c : CreatedChannel} (h : answers l.length = .ok c) :
    mapErr BindError.kernel (createChannel answers) l = .ok c (l ++ [c]) := by
  rw [mapErr, createChannel, h]

theorem create_of_error {e : KernelError} (h : answers l.length = .error e) :
    mapErr BindError.kernel (createChannel answers) l = .err (.kernel e) l := by
  rw [mapErr, createChannel, h]

variable (client : ClientContext) (consumed : ConsumedService)

theorem serves_bindEach (i : PublishedInterface) (c : CapabilityMetadata) :
    Serves answers (demand client consumed c)
      (bindEach (createChannel answers) client consumed i c) := by
  unfold demand bindEach
  split
  · exact serves_nil
  cases scopedOrdinals consumed c with
  | error e => exact fun l => .inr ⟨e, l, rfl, rfl⟩
  | ok ordinals =>
    show Serves answers (if ordinals.isEmpty then [] else _) (if ordinals.isEmpty then _ else _)
    split
    · exact serves_nil
    intro l
    cases hanswer : answers l.length with
    | error e => exact .inr ⟨_, l, bind_of_err (create_of_error hanswer), by rw [after, hanswer]⟩
    | ok c => exact .inl ⟨_, bind_of_ok (create_of_ok hanswer), by rw [after, hanswer]; rfl⟩

/-- What binding a service creates, before the check that it bound something. -/
theorem serves_interfaces (is : List PublishedInterface) :
    Serves answers (is.flatMap (demandsAt client consumed))
      (gather
        (fun i => do
          let capabilities ← lift (scopedCapabilities consumed i)
          gather (bindEach (createChannel answers) client consumed i) capabilities)
        is) := by
  refine .gather (fun i => ?_) is
  unfold demandsAt
  cases scopedCapabilities consumed i with
  | error e => exact fun l => .inr ⟨e, l, rfl, rfl⟩
  | ok cs => exact .gather (serves_bindEach client consumed i) cs

/-- A program that meets its demands and must bind something. -/
theorem Serves.closed (hx : Serves answers D x)
    (hy : y = do let bs ← x; check (bs ≠ []) .permissionDenied; return bs) :
    ((∀ e t, y [] = .err e t → t = []) ↔ Smooth answers D) ∧
      ∀ bs t, y [] = .ok bs t → t = bs.map BoundCapability.channel := by
  rw [smooth_iff, hy]
  rcases hx [] with ⟨bs, hbs, hmet⟩ | ⟨e, t, hfail, hstop⟩
  · rw [bind_of_ok hbs, hmet]
    by_cases hbound : bs = []
    · rw [bind_of_err (check_of_false (not_not.mpr hbound))]
      simp [hbound]
    · rw [bind_of_ok (check_of_true hbound)]
      refine ⟨iff_of_true (fun _ _ h => by cases h) (fun h => by cases h), fun bs' t' h => ?_⟩
      cases h
      rfl
  · rw [bind_of_err hfail, hstop]
    simp

/-- **A failed bind of a service leaves no channel open** exactly if nothing fails once its first
channel is created; a failed bind of one capability never does.  The channels of a bind that
succeeds are those of its bindings, one for each. -/
theorem closed_iff_smooth (answers : ℕ → Except KernelError CreatedChannel)
    (r : CapabilityRegistry) (client : ClientContext) (consumed : ConsumedService) :
    ((∀ e t, bindConsumedService (createChannel answers) r client consumed [] = .err e t →
        t = []) ↔ Smooth answers (demands r client consumed)) ∧
    (∀ bs t, bindConsumedService (createChannel answers) r client consumed [] = .ok bs t →
      t = bs.map BoundCapability.channel) ∧
    ∀ name,
      (∀ e t, bindConsumedCapability (createChannel answers) r client consumed name [] =
        .err e t → t = []) ∧
      ∀ b t, bindConsumedCapability (createChannel answers) r client consumed name [] =
        .ok b t → t = [b.channel] := by
  refine and_assoc.mp ⟨?_, fun name => ?_⟩
  · unfold demands bindConsumedService
    cases requiredMetadata consumed with
    | error e => exact ⟨iff_of_true (fun _ _ h => by cases h; rfl) nofun, fun _ _ h => by cases h⟩
    | ok required =>
      rw [bind_of_ok (lift_eq_ok.mpr ⟨rfl, rfl⟩)]
      dsimp only
      by_cases hnone : eligible r client consumed required = []
      · rw [bind_of_err (check_of_false (not_not.mpr hnone)), hnone]
        exact ⟨iff_of_true (fun _ _ h => by cases h; rfl) nofun, fun _ _ h => by cases h⟩
      · rw [bind_of_ok (check_of_true hnone)]
        exact (serves_interfaces client consumed _).closed rfl
  · unfold bindConsumedCapability
    cases chooseCapability r client consumed name with
    | error e => exact ⟨fun _ _ h => by cases h; rfl, fun _ _ h => by cases h⟩
    | ok chosen =>
      obtain ⟨i, provider, ordinals⟩ := chosen
      rw [bind_of_ok (lift_eq_ok.mpr ⟨rfl, rfl⟩)]
      dsimp only
      cases hanswer : answers 0 with
      | error e =>
        rw [bind_of_err (create_of_error hanswer)]
        exact ⟨fun _ _ h => by cases h; rfl, fun _ _ h => by cases h⟩
      | ok c =>
        rw [bind_of_ok (create_of_ok hanswer)]
        exact ⟨fun _ _ h => (by cases h), fun _ _ h => by cases h; rfl⟩

end Kernel

/-- A kernel with room for one channel. -/
def roomForOne (n : ℕ) : Except KernelError CreatedChannel :=
  if n = 0 then .ok ⟨1, 2⟩ else .error .resourceExhausted

/-- **The first channel stays open** when the kernel refuses the second. -/
theorem channel_left_open :
    ∃ e t, bindConsumedService (createChannel roomForOne) logRegistry plainClient twiceDeclared [] =
      .err e t ∧ t ≠ [] := by
  have hrun : (bindConsumedService (createChannel roomForOne) logRegistry plainClient twiceDeclared
      []).failed?.any (!·.2.isEmpty) = true := by
    decide +kernel
  obtain ⟨⟨e, t⟩, hfailed, hopen⟩ := (Option.any_eq_true _ _).mp hrun
  refine ⟨e, t, Outcome.eq_err_of_failed? hfailed, ?_⟩
  rintro rfl
  cases hopen

end Bexos.Appd
