/-
Container images: applying the layers.

`applyImage` hands the operations of each layer's plan to a sink, in the order of the archive.
`treeSink` is an ordinary file tree as a sink.

* `union` — the union of the layers, in which a marker hides what lower layers have;
* `applied_iff_union` — **`applyImage` succeeds and leaves the union just when every operation
  finds what it needs and no layer has a marker behind an entry of its own.**  The code carries
  a marker out where it stands in the archive, so that it also removes what its own layer put
  there before (`marker_removes_own_entry`).

Design notes

* The tree is a function from the parts of a path to what stands there, the root apart.  Owners,
  modes, times and extended attributes are not part of what it contains.
* What an operation leaves at one path is its `effect` there.  A run leaves at a path what its
  last operation with an effect does (`foldlM_effect`).
* The tree of the code is within the union after every operation (`within_applyOperation`), so
  that only what is missing from it has to be found.
-/
import Bexos.OciLayout

namespace Bexos
namespace Oci

/-- `LayerSink`: what a plan is applied to. -/
structure LayerSink (σ ε : Type) where
  ensureDirectory : Bytes → Metadata → σ → Except ε σ
  replaceFile : Bytes → Bytes → Metadata → σ → Except ε σ
  replaceSymlink : Bytes → Bytes → UInt32 → UInt32 → σ → Except ε σ
  replaceHardlink : Bytes → Bytes → σ → Except ε σ
  remove : Bytes → σ → Except ε σ
  removeChildren : Bytes → σ → Except ε σ
  setXattrs : Bytes → List (Bytes × Bytes) → σ → Except ε σ

section Apply

variable {σ ε : Type} (sink : LayerSink σ ε)

def applyOperation (s : σ) : LayerOperation → Except ε σ
  | .directory path metadata => sink.ensureDirectory path metadata s
  | .file path data metadata => sink.replaceFile path data metadata s
  | .symlink path target uid gid => sink.replaceSymlink path target uid gid s
  | .hardlink path target => sink.replaceHardlink path target s
  | .remove path => sink.remove path s
  | .opaqueDirectory path => sink.removeChildren path s
  | .xattrs path values => sink.setXattrs path values s

def applyLayer (s : σ) (operations : List LayerOperation) : Except ε σ :=
  operations.foldlM (applyOperation sink) s

def applyImage (s : σ) (image : Image) : Except ε σ := image.layers.foldlM (applyLayer sink) s

end Apply

/-! ### A file tree -/

abbrev Path := List Bytes

inductive Content
  | directory
  | file (data : Bytes)
  | symlink (target : Bytes)
  deriving DecidableEq

abbrev Tree := Path → Option Content

inductive TreeError
  | invalidArgs
  | notFound
  | notDirectory

namespace Tree

/-- Make a path's parents directories, put a new entry there and drop what was below it. -/
def replace (t : Tree) (path : Path) (content : Content) : Tree := fun p =>
  if p = path then some content
  else if p <+: path ∧ p ≠ [] then some .directory
  else if path <+: p then none
  else t p

/-- Make a path and its parents directories. -/
def makeDirectories (t : Tree) (path : Path) : Tree := fun p =>
  if p <+: path ∧ p ≠ [] then some .directory else t p

/-- Drop the entries strictly below a path. -/
def dropBelow (t : Tree) (path : Path) : Tree := fun p =>
  if path <+: p ∧ p ≠ path then none else t p

def drop (t : Tree) (path : Path) : Tree := fun p => if path <+: p then none else t p

end Tree

/-- The parts of a path that is not the root. -/
def named (path : Bytes) : Except TreeError Path :=
  if path = [] then .error .invalidArgs else .ok (splitSlash path)

/-- The parts of a path; none for the root. -/
def pathParts (path : Bytes) : Path := if path = [] then [] else splitSlash path

def treeSink : LayerSink Tree TreeError where
  ensureDirectory path _ t := do
    let path ← named path
    return t.makeDirectories path
  replaceFile path data _ t := do
    let path ← named path
    return t.replace path (.file data)
  replaceSymlink path target _ _ t := do
    let path ← named path
    return t.replace path (.symlink target)
  replaceHardlink path target t := do
    let path ← named path
    let target ← named target
    -- the parents are made and the old entry is gone before the target is looked up
    match (t.replace path .directory) target with
    | none => .error .notFound
    | some .directory => .error .notFound
    | some content => .ok (t.replace path content)
  remove path t := do
    let path ← named path
    return t.drop path
  removeChildren path t :=
    if pathParts path = [] ∨ t (pathParts path) = some .directory then
      .ok (t.dropBelow (pathParts path))
    else .error .notDirectory
  setXattrs path _ t := do
    let path ← named path
    if (t path).isSome then return t else .error .notFound

/-! ### The union of the layers -/

/-- A replacing entry at a path makes the parents directories and hides what is below it. -/
def replaced (path : Path) (content : Content) (p : Path) : Option (Option Content) :=
  if p = path then some (some content)
  else if p <+: path then some (some .directory)
  else if path <+: p then some none
  else none

/-- What an entry of a layer puts at a path, if it does something there; a hard link puts there what
is seen at its target. -/
def LayerOperation.content (seen : Tree) (p : Path) : LayerOperation → Option (Option Content)
  | directory path _ => if p <+: splitSlash path then some (some .directory) else none
  | file path data _ => replaced (splitSlash path) (.file data) p
  | symlink path target _ _ => replaced (splitSlash path) (.symlink target) p
  | hardlink path target =>
    replaced (splitSlash path) ((seen (splitSlash target)).getD (.file [])) p
  | remove _ | opaqueDirectory _ | xattrs _ _ => none

/-- A marker hides what lower layers have at a path. -/
def LayerOperation.marks (p : Path) : LayerOperation → Bool
  | remove path => splitSlash path <+: p
  | opaqueDirectory path => pathParts path <+: p ∧ p ≠ pathParts path
  | _ => false

/-- What a layer, its last operation first, puts at a path itself. -/
def own (lower : Tree) : List LayerOperation → Path → Option (Option Content)
  | [], _ => none
  | operation :: before, p =>
    (operation.content (fun q => (own lower before q).getD
      (if before.any (·.marks q) then none else lower q)) p).or (own lower before p)

/-- A layer, its last operation first, over a tree: its own last entry to do something at a path
decides, then its markers, wherever they stand. -/
def overlay (lower : Tree) (layer : List LayerOperation) : Tree := fun p =>
  (own lower layer p).getD (if layer.any (·.marks p) then none else lower p)

/-- The union of the layers. -/
def union (layers : List (List LayerOperation)) : Tree :=
  layers.foldl (fun lower layer => overlay lower layer.reverse) fun _ => none

/-! ### What the code makes of a path -/

/-- What stands at a path: a directory (`true`), something else (`false`) or nothing. -/
def kind (t : Tree) (p : Path) : Option Bool := (t p).map (· = .directory)

/-- What an operation leaves at a path, if it does something there. -/
def LayerOperation.effect (p : Path) (operation : LayerOperation) : Option (Option Bool) :=
  if operation.marks p then some none
  else (operation.content (fun _ => none) p).map (·.map (· = .directory))

def lastEffect (p : Path) (operations : List LayerOperation) : Option (Option Bool) :=
  operations.reverse.findSome? (·.effect p)

/-- The last entry of a layer to do something at a path is there (`true`) or hides it. -/
def lastEntry (p : Path) (layer : List LayerOperation) : Option Bool :=
  layer.reverse.findSome? fun operation =>
    (operation.content (fun _ => none) p).map Option.isSome

/-- The highest layer that does something at the path. -/
def highest (p : Path) (layers : List (List LayerOperation)) : Option (List LayerOperation) :=
  layers.reverse.find? fun layer => (lastEffect p layer).isSome

/-- The highest layer to do something at the path has an entry there, and a marker behind it. -/
def Undone (p : Path) (layers : List (List LayerOperation)) : Prop :=
  ∃ layer ∈ highest p layers, lastEntry p layer = some true ∧ lastEffect p layer = some none

/-- What an operation needs to find: a path that is not the root; for a hard link a target that is
no directory and lies neither above nor below its path; the directory of an opaque marker, and the
entry of attributes. -/
def LayerOperation.Needs (found : Path → Option Bool) : LayerOperation → Prop
  | directory path _ | file path _ _ | symlink path _ _ _ | remove path => path ≠ []
  | hardlink path target => path ≠ [] ∧ target ≠ [] ∧ ¬ splitSlash path <+: splitSlash target ∧
      ¬ splitSlash target <+: splitSlash path ∧ found (splitSlash target) = some false
  | opaqueDirectory path => path = [] ∨ found (splitSlash path) = some true
  | xattrs path _ => path ≠ [] ∧ (found (splitSlash path)).isSome

/-- Every operation finds what it needs where the operations before it left it. -/
def Supported (operations : List LayerOperation) : Prop :=
  ∀ before operation, before ++ [operation] <+: operations →
    operation.Needs fun p => (lastEffect p before).join

/-! ### Runs -/

variable {p : Path} {t t' : Tree} {operation : LayerOperation}
  {operations layer : List LayerOperation} {layers : List (List LayerOperation)}

/-- What is seen after a run of steps is what the last step with an effect made of it. -/
theorem foldlM_effect {σ ε α β : Type} {step : σ → α → Except ε σ} {seen : σ → β}
    {effect : α → Option β}
    (hstep : ∀ (s t : σ) (a : α), step s a = .ok t → seen t = (effect a).getD (seen s)) :
    ∀ {steps : List α} {s t : σ}, steps.foldlM step s = .ok t →
      seen t = (steps.reverse.findSome? effect).getD (seen s)
  | [], _, _, h => by
    cases h
    rfl
  | a :: steps, s, t, h => by
    rw [List.foldlM_cons] at h
    obtain ⟨s', hfirst, hrest⟩ := except_bind_eq_ok.mp h
    rw [foldlM_effect hstep hrest, hstep _ _ _ hfirst, List.reverse_cons, List.findSome?_append,
      List.findSome?_singleton]
    cases steps.reverse.findSome? effect <;> rfl

theorem named_eq_ok {path parts} : named path = .ok parts ↔ path ≠ [] ∧ splitSlash path = parts := by
  unfold named
  split <;> simp_all

theorem pathParts_eq_nil {path} : pathParts path = [] ↔ path = [] := by
  unfold pathParts
  split <;> simp_all [splitSlash_ne_nil]

/-- An entry that replaces another one has its effect. -/
theorem replace_eq (hp : p ≠ []) (t : Tree) (path : Path) (c : Content) :
    t.replace path c p = (replaced path c p).getD (t p) := by
  unfold Tree.replace replaced
  by_cases heq : p = path
  · rw [if_pos heq, if_pos heq, Option.getD_some]
  rw [if_neg heq, if_neg heq]
  by_cases hup : p <+: path
  · rw [if_pos ⟨hup, hp⟩, if_pos hup, Option.getD_some]
  rw [if_neg fun h => hup h.1, if_neg hup]
  by_cases hdown : path <+: p
  · rw [if_pos hdown, if_pos hdown, Option.getD_some]
  · rw [if_neg hdown, if_neg hdown, Option.getD_none]

/-- A hard link names what its target does, which is no directory and not in its own way. -/
theorem hardlink_eq_ok {path target} :
    applyOperation treeSink t (.hardlink path target) = .ok t' ↔ path ≠ [] ∧ target ≠ [] ∧
      ¬ splitSlash path <+: splitSlash target ∧ ¬ splitSlash target <+: splitSlash path ∧
      ∃ c, t (splitSlash target) = some c ∧ c ≠ .directory ∧ t' = t.replace (splitSlash path) c := by
  have hlook : ∀ c, c ≠ .directory →
      ((t.replace (splitSlash path) .directory) (splitSlash target) = some c ↔
        ¬ splitSlash path <+: splitSlash target ∧ ¬ splitSlash target <+: splitSlash path ∧
          t (splitSlash target) = some c) := by
    intro c hc
    rw [replace_eq (splitSlash_ne_nil target), replaced]
    split
    · rename_i heq
      exact iff_of_false (fun h => hc (Option.some.inj h).symm) fun h => h.1 (heq ▸ List.prefix_rfl)
    split
    · rename_i hup
      exact iff_of_false (fun h => hc (Option.some.inj h).symm) fun h => h.2.1 hup
    rename_i hup
    split
    · rename_i hdown
      exact iff_of_false nofun fun h => h.1 hdown
    · rename_i hdown
      exact ⟨fun h => ⟨hdown, hup, h⟩, fun h => h.2.2⟩
  simp only [applyOperation, treeSink, except_bind_eq_ok, named_eq_ok, and_assoc, exists_and_left,
    exists_eq_left']
  refine and_congr_right fun _ => and_congr_right fun _ => ?_
  constructor
  · intro h
    split at h
    · cases h
    · cases h
    · rename_i content hother hfound
      obtain ⟨hdown, hup, hcontent⟩ := (hlook content hother).mp hfound
      exact ⟨hdown, hup, content, hcontent, hother, (Except.ok.inj h).symm⟩
  · rintro ⟨hdown, hup, c, hc, hother, rfl⟩
    rw [(hlook c hother).mpr ⟨hdown, hup, hc⟩]
    cases c with
    | directory => exact absurd rfl hother
    | file | symlink => rfl

/-- An operation succeeds if it finds what it needs. -/
theorem applyOperation_isOk : (∃ t', applyOperation treeSink t operation = .ok t') ↔
    operation.Needs (kind t) := by
  cases operation with
  | directory path _ | file path data _ | symlink path target _ _ | remove path =>
    simp [applyOperation, treeSink, except_bind_eq_ok, named_eq_ok, LayerOperation.Needs, pure,
      Except.pure]
  | hardlink path target =>
    simp only [hardlink_eq_ok, LayerOperation.Needs, kind, Option.map_eq_some_iff,
      decide_eq_false_iff_not, exists_and_left]
    refine and_congr_right fun _ => and_congr_right fun _ => and_congr_right fun _ =>
      and_congr_right fun _ => ?_
    exact ⟨fun ⟨_, c, hc, hother, _⟩ => ⟨c, hc, hother⟩, fun ⟨c, hc, hother⟩ => ⟨_, c, hc, hother, rfl⟩⟩
  | opaqueDirectory path =>
    simp only [applyOperation, treeSink, LayerOperation.Needs, pathParts_eq_nil, kind,
      Option.map_eq_some_iff, decide_eq_true_eq]
    by_cases hroot : path = []
    · simp [hroot]
    · simp only [hroot, pathParts, if_false, false_or, exists_eq_right]
      split <;> simp_all
  | xattrs path values =>
    simp only [applyOperation, treeSink, except_bind_eq_ok, named_eq_ok, LayerOperation.Needs, kind,
      and_assoc, exists_and_left, exists_eq_left', Option.isSome_map]
    refine and_congr_right fun _ => ?_
    split <;> simp_all [pure, Except.pure]

/-- What an operation makes of the tree. -/
theorem applyOperation_eq (hp : p ≠ []) (h : applyOperation treeSink t operation = .ok t') :
    t' p = if operation.marks p then none else (operation.content t p).getD (t p) := by
  cases operation with
  | directory path _ =>
    obtain ⟨parts, hname, heq⟩ := except_bind_eq_ok.mp h
    obtain ⟨-, rfl⟩ := named_eq_ok.mp hname
    cases heq
    simp only [Tree.makeDirectories, LayerOperation.marks, LayerOperation.content, hp, ne_eq,
      not_false_eq_true, and_true, Bool.false_eq_true, if_false]
    split <;> rfl
  | file path data _ | symlink path target _ _ =>
    obtain ⟨parts, hname, heq⟩ := except_bind_eq_ok.mp h
    obtain ⟨-, rfl⟩ := named_eq_ok.mp hname
    cases heq
    exact replace_eq hp t _ _
  | hardlink path target =>
    obtain ⟨-, -, -, -, c, hc, -, rfl⟩ := hardlink_eq_ok.mp h
    rw [LayerOperation.content, hc]
    exact replace_eq hp t _ _
  | remove path =>
    obtain ⟨parts, hname, heq⟩ := except_bind_eq_ok.mp h
    obtain ⟨-, rfl⟩ := named_eq_ok.mp hname
    cases heq
    simp only [Tree.drop, LayerOperation.marks, LayerOperation.content, decide_eq_true_eq,
      Option.getD_none]
  | opaqueDirectory path =>
    change (if _ then Except.ok _ else _) = _ at h
    split at h
    · cases h
      simp only [Tree.dropBelow, LayerOperation.marks, LayerOperation.content, decide_eq_true_eq,
        Option.getD_none]
    · cases h
  | xattrs path values =>
    obtain ⟨parts, -, h⟩ := except_bind_eq_ok.mp h
    split at h
    · cases h
      rfl
    · cases h

/-- What stands at a path after an operation is what it leaves there. -/
theorem kind_applyOperation (hp : p ≠ []) (t t' : Tree) (operation)
    (h : applyOperation treeSink t operation = .ok t') :
    kind t' p = (operation.effect p).getD (kind t p) := by
  have hneeds := applyOperation_isOk.mp ⟨t', h⟩
  have hcontent : (operation.content t p).map (·.map fun c => decide (c = .directory)) =
      (operation.content (fun _ => none) p).map (·.map fun c => decide (c = .directory)) := by
    cases operation with
    | hardlink path target =>
      obtain ⟨c, hc, hother⟩ := Option.map_eq_some_iff.mp hneeds.2.2.2.2
      simp only [LayerOperation.content, hc, replaced, Option.getD_some, Option.getD_none]
      split
      · simpa using of_decide_eq_false hother
      · rfl
    | _ => rfl
  rw [kind, applyOperation_eq hp h, LayerOperation.effect]
  split
  · rfl
  · rw [← hcontent]
    cases operation.content t p <;> rfl

/-- What stands at a path after some operations on the empty tree. -/
theorem kind_eq (hp : p ≠ []) (h : operations.foldlM (applyOperation treeSink) (fun _ => none) = .ok t) :
    kind t p = (lastEffect p operations).join := by
  rw [foldlM_effect (kind_applyOperation hp) h, lastEffect]
  cases operations.reverse.findSome? (·.effect p) <;> rfl

/-- Only the kinds at paths other than the root matter. -/
theorem needs_congr {found found' : Path → Option Bool} (h : ∀ p, p ≠ [] → found p = found' p) :
    operation.Needs found ↔ operation.Needs found' := by
  cases operation <;> simp only [LayerOperation.Needs, h _ (splitSlash_ne_nil _)]

/-- The operations succeed if each one finds what it needs. -/
theorem isOk_iff_supported :
    (∃ t, operations.foldlM (applyOperation treeSink) (fun _ => none) = .ok t) ↔
      Supported operations := by
  induction operations using List.reverseRecOn with
  | nil => exact iff_of_true ⟨_, rfl⟩ fun _ _ h => by simp at h
  | append_singleton operations operation ih =>
    have hsnoc : Supported (operations ++ [operation]) ↔ Supported operations ∧
        operation.Needs fun p => (lastEffect p operations).join := by
      refine ⟨fun h => ⟨fun b o hb => h b o (hb.trans (List.prefix_append _ _)),
        h operations operation List.prefix_rfl⟩, fun ⟨h, hlast⟩ b o hb => ?_⟩
      rcases List.prefix_concat_iff.mp hb with heq | hb
      · obtain ⟨rfl, hsame⟩ := List.append_inj' heq rfl
        rwa [List.singleton_inj.mp hsame]
      · exact h b o hb
    have hlast : ∀ {t}, operations.foldlM (applyOperation treeSink) (fun _ => none) = .ok t →
        ((∃ t', applyOperation treeSink t operation = .ok t') ↔
          operation.Needs fun p => (lastEffect p operations).join) := fun ht =>
      applyOperation_isOk.trans (needs_congr fun p hp => kind_eq hp ht)
    rw [hsnoc, ← ih]
    simp only [List.foldlM_append, except_bind_eq_ok, List.foldlM_cons, List.foldlM_nil, pure,
      Except.pure, Except.ok.injEq, exists_eq_right]
    constructor
    · rintro ⟨t', t, ht, h⟩
      exact ⟨⟨t, ht⟩, (hlast ht).mp ⟨t', h⟩⟩
    · rintro ⟨⟨t, ht⟩, h⟩
      obtain ⟨t', h⟩ := (hlast ht).mpr h
      exact ⟨t', t, ht, h⟩

/-! ### The tree and the union -/

/-- What the tree has is also in the other one. -/
def Within (t u : Tree) : Prop := ∀ p, p ≠ [] → ∀ c, t p = some c → u p = some c

/-- One operation of the code keeps within the layer that it belongs to. -/
theorem within_applyOperation {lower : Tree} (h : Within t (overlay lower layer))
    (hstep : applyOperation treeSink t operation = .ok t') :
    Within t' (overlay lower (operation :: layer)) := by
  intro p hp c hc
  rw [applyOperation_eq hp hstep] at hc
  split at hc
  · cases hc
  rename_i hmarks
  have hseen : operation.content (overlay lower layer) p = operation.content t p := by
    cases operation with
    | hardlink path target =>
      obtain ⟨-, -, -, -, c, hc, -, -⟩ := hardlink_eq_ok.mp hstep
      rw [LayerOperation.content, LayerOperation.content, hc, h _ (splitSlash_ne_nil target) c hc]
    | _ => rfl
  rw [overlay, own, List.any_cons, Bool.eq_false_iff.mpr hmarks, Bool.false_or]
  change ((operation.content (overlay lower layer) p).or _).getD _ = _
  rw [hseen]
  cases hown : operation.content t p with
  | some x =>
    rw [hown] at hc
    exact hc
  | none =>
    rw [hown] at hc
    exact h p hp c hc

theorem within_applyLayer {lower : Tree} (hlower : Within t lower)
    (h : applyLayer treeSink t layer = .ok t') : Within t' (overlay lower layer.reverse) := by
  induction layer using List.reverseRecOn generalizing t' with
  | nil =>
    cases h
    exact hlower
  | append_singleton layer operation ih =>
    rw [applyLayer, List.foldlM_append, except_bind_eq_ok] at h
    obtain ⟨u, hu, h⟩ := h
    rw [List.foldlM_cons, except_bind_eq_ok] at h
    obtain ⟨u', hstep, h⟩ := h
    cases h
    rw [List.reverse_append]
    exact within_applyOperation (ih hu) hstep

/-- Whether something stands there does not depend on what a hard link copies. -/
theorem isSome_own (lower : Tree) (operations : List LayerOperation) :
    (own lower operations p).map Option.isSome = operations.findSome? fun operation =>
      (operation.content (fun _ => none) p).map Option.isSome := by
  induction operations with
  | nil => rfl
  | cons operation before ih =>
    have hcontent : ∀ seen, (operation.content seen p).map Option.isSome =
        (operation.content (fun _ => none) p).map Option.isSome := fun seen => by
      cases operation with
      | hardlink path target =>
        simp only [LayerOperation.content, replaced]
        split <;> rfl
      | _ => rfl
    rw [own, Option.map_or, ih, hcontent, List.findSome?_cons]
    cases (operation.content (fun _ => none) p).map Option.isSome <;> rfl

/-- A layer has an effect on the path if it has an entry or a marker for it. -/
theorem isSome_effect (lower : Tree) (operations : List LayerOperation) :
    (operations.findSome? (·.effect p)).isSome =
      ((own lower operations p).isSome || operations.any (·.marks p)) := by
  have hisSome := congrArg Option.isSome (isSome_own (p := p) lower operations)
  rw [Option.isSome_map] at hisSome
  rw [hisSome, Bool.eq_iff_iff]
  simp only [List.findSome?_isSome_iff, Bool.or_eq_true, List.any_eq_true,
    LayerOperation.effect, Option.isSome_map]
  constructor
  · rintro ⟨operation, hmem, h⟩
    by_cases hmarks : operation.marks p = true
    · exact .inr ⟨operation, hmem, hmarks⟩
    · rw [if_neg hmarks, Option.isSome_map] at h
      exact .inl ⟨operation, hmem, h⟩
  · rintro (⟨operation, hmem, h⟩ | ⟨operation, hmem, hmarks⟩)
    · refine ⟨operation, hmem, ?_⟩
      split
      · rfl
      · rwa [Option.isSome_map]
    · exact ⟨operation, hmem, by rw [if_pos hmarks]; rfl⟩

/-- A layer has an entry at a path if its last one to do something there has; one that does nothing
there leaves what is below. -/
theorem isSome_overlay (lower : Tree) : (overlay lower layer.reverse p).isSome =
    if (lastEffect p layer).isSome then decide (lastEntry p layer = some true)
    else (lower p).isSome := by
  rw [lastEffect, isSome_effect lower, lastEntry, ← isSome_own lower, overlay]
  cases own lower layer.reverse p with
  | some x => cases x <;> rfl
  | none =>
    rw [Option.getD_none, Option.isSome_none, Bool.false_or]
    split <;> rfl

theorem lastEffect_append (xs ys : List LayerOperation) :
    lastEffect p (xs ++ ys) = (lastEffect p ys).or (lastEffect p xs) := by
  rw [lastEffect, List.reverse_append, List.findSome?_append]
  rfl

theorem highest_concat (layers layer) : highest p (layers ++ [layer]) =
    if (lastEffect p layer).isSome then some layer else highest p layers := by
  rw [highest, List.reverse_append, List.reverse_singleton, List.singleton_append, List.find?_cons]
  cases (lastEffect p layer).isSome <;> rfl

theorem lastEffect_flatten (layers : List (List LayerOperation)) :
    lastEffect p layers.flatten = (highest p layers).bind (lastEffect p) := by
  induction layers using List.reverseRecOn with
  | nil => rfl
  | append_singleton layers layer ih =>
    rw [List.flatten_append, lastEffect_append, ih, highest_concat, List.flatten_singleton]
    cases heffect : lastEffect p layer with
    | none => rfl
    | some x => exact heffect.symm

theorem isSome_union (layers : List (List LayerOperation)) :
    (union layers p).isSome = (highest p layers).any fun layer => lastEntry p layer = some true := by
  induction layers using List.reverseRecOn with
  | nil => rfl
  | append_singleton layers layer ih =>
    rw [union, List.foldl_append, List.foldl_cons, List.foldl_nil, isSome_overlay, highest_concat]
    split
    · rfl
    · exact ih

theorem applyImage_eq (t : Tree) (image : Image) :
    applyImage treeSink t image = image.layers.flatten.foldlM (applyOperation treeSink) t := by
  unfold applyImage
  induction image.layers generalizing t with
  | nil => rfl
  | cons layer layers ih =>
    rw [List.foldlM_cons, List.flatten_cons, List.foldlM_append]
    exact congrArg _ (funext ih)

theorem within_union (h : layers.foldlM (applyLayer treeSink) (fun _ => none) = .ok t) :
    Within t (union layers) := by
  induction layers using List.reverseRecOn generalizing t with
  | nil =>
    cases h
    exact fun _ _ _ => id
  | append_singleton layers layer ih =>
    rw [List.foldlM_append, except_bind_eq_ok] at h
    obtain ⟨u, hu, h⟩ := h
    rw [List.foldlM_cons, except_bind_eq_ok] at h
    obtain ⟨u', hstep, h⟩ := h
    cases h
    rw [union, List.foldl_append]
    exact within_applyLayer (ih hu) hstep

/-- A run that succeeds leaves the union at a path unless a marker undoes an entry there. -/
theorem eq_union_iff (hp : p ≠ []) {image : Image}
    (h : applyImage treeSink (fun _ => none) image = .ok t) :
    t p = union image.layers p ↔ ¬ Undone p image.layers := by
  have hwithin := within_union h p hp
  rw [applyImage_eq] at h
  have hsame : t p = union image.layers p ↔
      ((union image.layers p).isSome = true → (kind t p).isSome = true) := by
    rw [kind, Option.isSome_map]
    cases ht : t p with
    | some c => exact iff_of_true (hwithin c ht).symm fun _ => rfl
    | none => cases union image.layers p <;> simp
  rw [hsame, kind_eq hp h, lastEffect_flatten, isSome_union, Undone]
  cases hhigh : highest p image.layers with
  | none => simp
  | some layer =>
    have htouched : (lastEffect p layer).isSome = true :=
      List.find?_some (p := fun layer => (lastEffect p layer).isSome) hhigh
    obtain ⟨x, hx⟩ := Option.isSome_iff_exists.mp htouched
    cases x <;> simp [hx]

/-- **The tree is the union of the layers** just when every operation finds what it needs and no
layer, the highest to do something at a path, has a marker behind its own entry there. -/
theorem applied_iff_union (image : Image) :
    (∃ t, applyImage treeSink (fun _ => none) image = .ok t ∧
      ∀ p : Path, p ≠ [] → t p = union image.layers p) ↔
      Supported image.layers.flatten ∧ ∀ p : Path, p ≠ [] → ¬ Undone p image.layers := by
  rw [← isOk_iff_supported, ← applyImage_eq]
  constructor
  · rintro ⟨t, ht, hsame⟩
    exact ⟨⟨t, ht⟩, fun p hp => (eq_union_iff hp ht).mp (hsame p hp)⟩
  · rintro ⟨⟨t, ht⟩, hnone⟩
    exact ⟨t, ht, fun p hp => (eq_union_iff hp ht).mpr (hnone p hp)⟩

/-! ### Markers -/

def imageOf (layers : List (List LayerOperation)) : Image := ⟨⟨[], [], [], []⟩, layers, []⟩

/-- The upper layer hides a directory and puts a file and a hard link to it in there. -/
def relayered : Image :=
  imageOf [[.file (ascii "etc/old") [1] ⟨0o644, 0, 0, 0⟩, .symlink (ascii "etc/link") [2] 0 0],
    [.opaqueDirectory (ascii "etc"), .file (ascii "etc/new") [3] ⟨0o644, 0, 0, 0⟩,
      .hardlink (ascii "etc/copy") (ascii "etc/new")]]

example : (applyImage treeSink (fun _ => none) relayered).toOption.map (fun t =>
    ["old", "link", "new", "copy"].map fun name => t [ascii "etc", ascii name]) =
      some [none, none, some (.file [3]), some (.file [3])] := by decide +kernel

/-- The opaque marker of `etc` stands behind the file `etc/config` of the same layer, which is
not in the tree. -/
theorem marker_removes_own_entry :
    ∃ layer t, layerPlan (sampleLayer ["etc/config", "etc/.wh..wh..opq"]) = .ok layer ∧
      applyImage treeSink (fun _ => none) (imageOf [layer]) = .ok t ∧
      union (imageOf [layer]).layers [ascii "etc", ascii "config"] = some (.file []) ∧
      t [ascii "etc", ascii "config"] = none := by
  refine ⟨[.file (ascii "etc/config") [] ⟨0o755, 0, 0, 1⟩, .opaqueDirectory (ascii "etc")], _,
    ok_of_toOption (by decide +kernel), rfl, by decide +kernel, by decide⟩

end Oci
end Bexos
