/-
Permissions of the application manager.

`appd/policy.rs`: a permission is a plain name that the client must hold, or a conjunction of
clauses about the client.  `checkPermission` decides whether a client satisfies one, and
`permissionScopeName` names the permission whose granted values go with a binding.

* `Reads` — how a conjunction is written, `Reads.unique` — a string has at most one reading;
* `Meant` — what a permission says: that each of its conjuncts holds;
* `splitClauses_loop_iff` — what the loop over the clauses makes of a conjunction;
* **`allowed_iff_meant`** — when `checkPermission` decides what is meant.

Design notes: a string is the list of its characters.  White space is Unicode's, as for
`str::trim`.
-/
import Mathlib.Data.List.TakeWhile

namespace Bexos.Appd

/-- The characters of a string. -/
abbrev Str := List Char

/-! ### Strings -/

/-- The white space of Unicode. -/
def isWhitespace (c : Char) : Bool :=
  let n := c.toNat
  (9 ≤ n && n ≤ 13) || n == 0x20 || n == 0x85 || n == 0xa0 || n == 0x1680 ||
    (0x2000 ≤ n && n ≤ 0x200a) || n == 0x2028 || n == 0x2029 || n == 0x202f || n == 0x205f ||
    n == 0x3000

def trim (s : Str) : Str := ((s.dropWhile isWhitespace).reverse.dropWhile isWhitespace).reverse

def stripPrefix (p s : Str) : Option Str := if p.isPrefixOf s then some (s.drop p.length) else none

def stripSuffix (p s : Str) : Option Str :=
  if p.isSuffixOf s then some (s.take (s.length - p.length)) else none

/-- The parts between the occurrences of `&&`, taken from the left. -/
def splitClauses : Str → List Str
  | '&' :: '&' :: s => [] :: splitClauses s
  | c :: s =>
    match splitClauses s with
    | [] => [[c]]
    | part :: parts => (c :: part) :: parts
  | [] => [[]]

/-- The parts before and after the first occurrence of a string. -/
def splitOnce (p : Str) : Str → Option (Str × Str)
  | [] => if p.isEmpty then some ([], []) else none
  | c :: s =>
    if p.isPrefixOf (c :: s) then some ([], (c :: s).drop p.length)
    else (splitOnce p s).map fun (before, after) => (c :: before, after)

/-! ### Clients -/

structure PermissionValueGrant where
  permission : Str
  values : List Str
  deriving DecidableEq

structure ClientContext where
  packageName : Str
  permissions : List Str
  permissionValues : List PermissionValueGrant
  isForeground : Bool
  userId : Option UInt64
  deriving DecidableEq

namespace ClientContext

def hasPermission (client : ClientContext) (permission : Str) : Bool :=
  client.permissions.any (· == permission)

def grantedValues (client : ClientContext) (permission : Str) : List Str :=
  ((client.permissionValues.find? (·.permission == permission)).map (·.values)).getD []

end ClientContext

/-! ### Permissions -/

inductive PermissionDecision where
  | allow
  | deny
  deriving DecidableEq

def isPlainPermission (permission : Str) : Bool :=
  permission.all fun c => c.isAlphanum || c ∈ ['_', '.', ':', '-', '=']

/-- A value between two quotes that is not empty. -/
def parseQuoted (value : Str) (quote : Char) : Option Str := do
  let value ← stripPrefix [quote] value
  let value ← stripSuffix [quote] value
  if value.isEmpty then none else some value

def CONTAINS : Str := "request.permissions.contains(".toList

def FOREGROUND : Str := "client.is_foreground".toList

def MANAGE_USER_PREFERENCES : Str := "bexos.permission.MANAGE_USER_PREFERENCES".toList

def parseContainsClause (clause : Str) : Option Str := do
  let inner ← stripPrefix CONTAINS clause
  let inner ← stripSuffix [')'] inner
  -- an apostrophe, or a quotation mark
  parseQuoted (trim inner) (Char.ofNat 0x27) <|> parseQuoted (trim inner) (Char.ofNat 0x22)

/-- The clauses hold of the client. -/
def checkClauses (client : ClientContext) : List Str → PermissionDecision
  | [] => .allow
  | clause :: rest =>
    match parseContainsClause clause with
    | some required => if client.hasPermission required then checkClauses client rest else .deny
    | none =>
      if clause = FOREGROUND then
        if client.isForeground then checkClauses client rest else .deny
      else .deny

def checkPermission (permission : Option Str) (client : ClientContext) : PermissionDecision :=
  match (permission.map trim).filter (!·.isEmpty) with
  | none => .allow
  | some permission =>
    -- preference management is reserved for the platform broker and debugger
    if permission = MANAGE_USER_PREFERENCES ∧
        client.packageName ∉ ["bexos.platform.appd".toList, "bexos.driver.debugd".toList] then .deny
    else if isPlainPermission permission then
      if client.hasPermission permission then .allow else .deny
    else checkClauses client ((splitClauses permission).map trim)

def permissionScopeName (permission : Option Str) : Option Str := do
  let permission := trim (← permission)
  if permission.isEmpty then none
  else if isPlainPermission permission then some permission
  else ((splitClauses permission).map trim).findSome? parseContainsClause

/-! ### The meaning of a permission -/

/-- The packages that may manage preferences. -/
abbrev PLATFORM : List Str := ["bexos.platform.appd".toList, "bexos.driver.debugd".toList]

/-- What one conjunct of a permission asks for. -/
inductive Conjunct where
  | name (permission : Str)
  | contains (permission : Str)
  | foreground

def Blank (s : Str) : Prop := ∀ c ∈ s, isWhitespace c = true

/-- Two ampersands stand next to each other. -/
def Splits (s : Str) : Prop := ['&', '&'] <:+: s
  deriving Decidable

/-- An apostrophe or a quotation mark. -/
def isQuote (c : Char) : Bool := c ∈ [Char.ofNat 0x27, Char.ofNat 0x22]

/-- How a conjunct is written.  A name between quotes ends at the next quote, or, if it has no
`&&`, at the last one. -/
inductive Spells : Str → Conjunct → Prop
  | name {n} (hne : n ≠ []) (hplain : isPlainPermission n = true) (hn : n ≠ FOREGROUND) :
      Spells n (.name n)
  | contains {n q before after} (hq : isQuote q = true) (hbefore : Blank before)
      (hafter : Blank after) (hne : n ≠ []) (hends : q ∉ n ∨ ¬ Splits n) :
      Spells (CONTAINS ++ (before ++ q :: (n ++ q :: (after ++ [')'])))) (.contains n)
  | foreground : Spells FOREGROUND .foreground

/-- How a conjunct is written, with white space around it. -/
def Segment (s : Str) (c : Conjunct) : Prop :=
  ∃ before body after, Blank before ∧ Blank after ∧ Spells body c ∧ s = before ++ body ++ after

/-- How a conjunction is written. -/
inductive Reads : Str → List Conjunct → Prop
  | last {s c} (h : Segment s c) : Reads s [c]
  | and {s c rest e} (h : Segment s c) (hrest : Reads rest e) :
      Reads (s ++ '&' :: '&' :: rest) (c :: e)

namespace ClientContext

/-- The client has a permission, and belongs to the platform if that is reserved. -/
def holds (client : ClientContext) (name : Str) : Prop :=
  client.hasPermission name ∧ (name = MANAGE_USER_PREFERENCES → client.packageName ∈ PLATFORM)

/-- What a conjunct says of a client. -/
def satisfies (client : ClientContext) : Conjunct → Prop
  | .name n | .contains n => client.holds n
  | .foreground => client.isForeground

/-- The client has what a conjunct asks for, reserved or not. -/
def has (client : ClientContext) : Conjunct → Prop
  | .name n | .contains n => client.hasPermission n
  | .foreground => client.isForeground

end ClientContext

/-- A permission is blank, or a conjunction and each of its conjuncts holds. -/
def Meant (client : ClientContext) (permission : Str) : Prop :=
  Blank permission ∨ ∃ e, Reads permission e ∧ ∀ c ∈ e, client.satisfies c

/-- The conjuncts that the loop over the clauses does not know. -/
def Conjunct.Unknown : Conjunct → Prop
  | .name _ => True
  | .contains n => Splits n
  | .foreground => False

/-- The conjuncts that ask for the reserved permission. -/
def Conjunct.Reserved (c : Conjunct) : Prop :=
  c = .name MANAGE_USER_PREFERENCES ∨ c = .contains MANAGE_USER_PREFERENCES

/-- The conjunctions that `checkPermission` reads as they are meant: the foreground alone only if
the client is in the foreground exactly when it has a permission of that name; any other one that
is no plain name only if the client lacks something it asks for, or it has an unknown conjunct
exactly when it asks for the reserved permission of a package outside the platform. -/
def ReadAsMeant (client : ClientContext) : List Conjunct → Prop
  | [.name _] => True
  | [.foreground] => client.hasPermission FOREGROUND ↔ client.isForeground
  | e => (∀ c ∈ e, client.has c) →
      ((∃ c ∈ e, c.Unknown) ↔ client.packageName ∉ PLATFORM ∧ ∃ c ∈ e, c.Reserved)

/-! ### White space around a conjunct -/

/-- The first and the last character are no white space. -/
def Tight (s : Str) : Prop :=
  (∃ c r, s = c :: r ∧ isWhitespace c = false) ∧ ∃ r c, s = r ++ [c] ∧ isWhitespace c = false

variable {client : ClientContext} {s t before after body rest clause n : Str} {c d : Conjunct}
  {e e' : List Conjunct} {x q : Char}

theorem trim_of_tight (hbefore : Blank before) (hafter : Blank after) (h : Tight body) :
    trim (before ++ body ++ after) = body := by
  obtain ⟨⟨x, r, hfirst, hx⟩, r', y, hlast, hy⟩ := h
  have hleft : (before ++ body ++ after).dropWhile isWhitespace = body ++ after := by
    rw [List.append_assoc, List.dropWhile_append_of_pos hbefore, hfirst, List.cons_append,
      List.dropWhile_cons_of_neg (by rw [hx]; exact Bool.false_ne_true)]
  have hright : (body ++ after).reverse.dropWhile isWhitespace = body.reverse := by
    rw [List.reverse_append, List.dropWhile_append_of_pos fun z hz => hafter z (List.mem_reverse.mp hz),
      hlast, List.reverse_concat, List.dropWhile_cons_of_neg (by rw [hy]; exact Bool.false_ne_true)]
  rw [trim, hleft, hright, List.reverse_reverse]

/-- What is trimmed is white space. -/
theorem exists_trim (s) : ∃ before after, Blank before ∧ Blank after ∧
    s = before ++ trim s ++ after := by
  refine ⟨s.takeWhile isWhitespace,
    ((s.dropWhile isWhitespace).reverse.takeWhile isWhitespace).reverse,
    fun x hx => List.mem_takeWhile_imp hx,
    fun x hx => List.mem_takeWhile_imp (List.mem_reverse.mp hx), ?_⟩
  rw [trim, List.append_assoc, ← List.reverse_append, List.takeWhile_append_dropWhile,
    List.reverse_reverse, List.takeWhile_append_dropWhile]

/-- White space around a string is trimmed. -/
theorem trim_append (hbefore : Blank before) (hafter : Blank after) :
    trim (before ++ s ++ after) = trim s := by
  rw [trim, List.append_assoc, List.dropWhile_append_of_pos hbefore, List.dropWhile_append, trim]
  split
  · rename_i h
    rw [List.isEmpty_iff.mp h, List.dropWhile_eq_nil_iff.mpr hafter]
  · rw [List.reverse_append,
      List.dropWhile_append_of_pos fun z hz => hafter z (List.mem_reverse.mp hz)]

theorem blank_nil : Blank [] := nofun

theorem blank_append : Blank (s ++ t) ↔ Blank s ∧ Blank t := List.forall_mem_append

theorem trim_eq_nil : trim s = [] ↔ Blank s := by
  constructor
  · intro h
    obtain ⟨before, after, hbefore, hafter, hs⟩ := exists_trim s
    rw [h, List.append_nil] at hs
    exact hs ▸ blank_append.mpr ⟨hbefore, hafter⟩
  · intro h
    rw [trim, List.dropWhile_eq_nil_iff.mpr h]
    rfl

theorem isWhitespace_of_range (hlow : 33 ≤ x.toNat) (hhigh : x.toNat ≤ 126) :
    isWhitespace x = false := by
  unfold isWhitespace
  grind

/-- The characters of a plain name. -/
theorem plain_char (h : isPlainPermission s = true) (hx : x ∈ s) :
    isWhitespace x = false ∧ x ≠ '&' ∧ x ≠ '(' := by
  rcases Bool.or_eq_true_iff.mp (List.all_eq_true.mp h x hx) with h | h
  · unfold Char.isAlphanum Char.isAlpha Char.isUpper Char.isLower Char.isDigit at h
    simp only [Bool.or_eq_true, Bool.and_eq_true, decide_eq_true_eq, ge_iff_le,
      UInt32.le_iff_toNat_le, Char.reduceVal, UInt32.reduceToNat, Char.toNat_val] at h
    refine ⟨isWhitespace_of_range (by omega) (by omega), ?_, ?_⟩ <;>
    · rintro rfl
      revert h
      decide
  · have hmem : x ∈ ['_', '.', ':', '-', '='] := of_decide_eq_true h
    simp only [List.mem_cons, List.not_mem_nil, or_false] at hmem
    rcases hmem with rfl | rfl | rfl | rfl | rfl <;> decide

theorem isWhitespace_of_quote (h : isQuote q = true) : isWhitespace q = false := by
  have hmem : q ∈ [Char.ofNat 0x27, Char.ofNat 0x22] := of_decide_eq_true h
  simp only [List.mem_cons, List.not_mem_nil, or_false] at hmem
  rcases hmem with rfl | rfl <;> decide

theorem Spells.tight (h : Spells body c) : Tight body := by
  cases h with
  | name hne hplain _ =>
    refine ⟨?_, body.dropLast, body.getLast hne, (List.dropLast_concat_getLast hne).symm,
      (plain_char hplain (List.getLast_mem hne)).1⟩
    obtain ⟨x, r, rfl⟩ := List.exists_cons_of_ne_nil hne
    exact ⟨x, r, rfl, (plain_char hplain List.mem_cons_self).1⟩
  | @contains n q before after _ _ _ _ _ =>
    refine ⟨⟨'r', _, rfl, by decide⟩, CONTAINS ++ (before ++ q :: (n ++ q :: after)), ')', ?_,
      by decide⟩
    simp
  | foreground => exact ⟨⟨_, _, rfl, by decide⟩, "client.is_foregroun".toList, 'd', rfl, by decide⟩

theorem Segment.spells_trim (h : Segment s c) : Spells (trim s) c := by
  obtain ⟨before, body, after, hbefore, hafter, hbody, rfl⟩ := h
  rwa [trim_of_tight hbefore hafter hbody.tight]

theorem segment_iff : Segment s c ↔ Spells (trim s) c := by
  refine ⟨Segment.spells_trim, fun h => ?_⟩
  obtain ⟨before, after, hbefore, hafter, hs⟩ := exists_trim s
  exact ⟨before, trim s, after, hbefore, hafter, h, hs⟩

/-! ### The clause for a permission -/

theorem stripPrefix_eq_some {p r} : stripPrefix p s = some r ↔ s = p ++ r := by
  unfold stripPrefix
  split
  · rename_i h
    obtain ⟨r', rfl⟩ := List.isPrefixOf_iff_prefix.mp h
    rw [List.drop_left, Option.some_inj, List.append_right_inj]
  · rename_i h
    refine iff_of_false nofun ?_
    rintro rfl
    exact h (List.isPrefixOf_iff_prefix.mpr (List.prefix_append p r))

theorem stripSuffix_eq_some {p r} : stripSuffix p s = some r ↔ s = r ++ p := by
  unfold stripSuffix
  split
  · rename_i h
    obtain ⟨r', rfl⟩ := List.isSuffixOf_iff_suffix.mp h
    rw [List.length_append, Nat.add_sub_cancel, List.take_left, Option.some_inj,
      List.append_left_inj]
  · rename_i h
    refine iff_of_false nofun ?_
    rintro rfl
    exact h (List.isSuffixOf_iff_suffix.mpr (List.suffix_append r p))

theorem parseQuoted_eq_some : parseQuoted s q = some n ↔ s = q :: (n ++ [q]) ∧ n ≠ [] := by
  simp only [parseQuoted, Option.bind_eq_bind, Option.bind_eq_some_iff, stripPrefix_eq_some,
    stripSuffix_eq_some, List.isEmpty_iff, Option.ite_none_left_eq_some, Option.some_inj]
  constructor
  · rintro ⟨_, rfl, _, rfl, hne, rfl⟩
    exact ⟨rfl, hne⟩
  · rintro ⟨rfl, hne⟩
    exact ⟨_, rfl, _, rfl, hne, rfl⟩

theorem parseContainsClause_eq_some : parseContainsClause s = some n ↔ n ≠ [] ∧
    ∃ q before after, isQuote q = true ∧ Blank before ∧ Blank after ∧
      s = CONTAINS ++ (before ++ q :: (n ++ q :: (after ++ [')']))) := by
  have hquoted : ∀ inner, (parseQuoted inner (Char.ofNat 0x27) <|>
      parseQuoted inner (Char.ofNat 0x22)) = some n ↔
        n ≠ [] ∧ ∃ q, isQuote q = true ∧ inner = q :: (n ++ [q]) := fun inner => by
    have hcases : (∃ q, isQuote q = true ∧ inner = q :: (n ++ [q])) ↔
        inner = Char.ofNat 0x27 :: (n ++ [Char.ofNat 0x27]) ∨
          inner = Char.ofNat 0x22 :: (n ++ [Char.ofNat 0x22]) := by simp [isQuote]
    rw [hcases, and_or_left, ← and_comm (a := inner = _), ← and_comm (a := inner = _),
      ← parseQuoted_eq_some, ← parseQuoted_eq_some]
    cases hfirst : parseQuoted inner (Char.ofNat 0x27) with
    | none => simp
    | some m =>
      have hsecond : parseQuoted inner (Char.ofNat 0x22) ≠ some n := fun h => by
        have hhead := (parseQuoted_eq_some.mp hfirst).1.symm.trans (parseQuoted_eq_some.mp h).1
        exact absurd (List.cons.inj hhead).1 (by decide)
      simp [hsecond]
  simp only [parseContainsClause, Option.bind_eq_bind, Option.bind_eq_some_iff, stripPrefix_eq_some,
    stripSuffix_eq_some, hquoted]
  constructor
  · rintro ⟨_, rfl, inner, rfl, hne, q, hq, hinner⟩
    obtain ⟨before, after, hbefore, hafter, hs⟩ := exists_trim inner
    refine ⟨hne, q, before, after, hq, hbefore, hafter, ?_⟩
    rw [hs, hinner]
    simp
  · rintro ⟨hne, q, before, after, hq, hbefore, hafter, rfl⟩
    refine ⟨_, rfl, before ++ q :: (n ++ [q]) ++ after, by simp, hne, q, hq, ?_⟩
    have hquote := isWhitespace_of_quote hq
    exact trim_of_tight hbefore hafter ⟨⟨q, _, rfl, hquote⟩, q :: n, q, rfl, hquote⟩

/-! ### Splitting -/

/-- The first clause ends at the first pair of ampersands. -/
theorem splitClauses_append (h : ¬ Splits (s ++ ['&'])) :
    splitClauses (s ++ '&' :: '&' :: rest) = s :: splitClauses rest := by
  induction s with
  | nil => rfl
  | cons x s ih =>
    have hrest : ¬ Splits (s ++ ['&']) := fun hs => h (hs.trans (List.suffix_cons x _).isInfix)
    rw [List.cons_append, splitClauses, ih hrest]
    rintro r rfl hr
    cases s with
    | nil => exact h List.infix_rfl
    | cons y s =>
      obtain rfl := (List.cons.inj hr).1
      exact h (List.prefix_append ['&', '&'] _).isInfix

theorem splitClauses_of_not (h : ¬ Splits s) : splitClauses s = [s] := by
  induction s with
  | nil => rfl
  | cons x s ih =>
    have hrest : ¬ Splits s := fun hs => h (hs.trans (List.suffix_cons x _).isInfix)
    rw [splitClauses, ih hrest]
    rintro r rfl rfl
    exact h (List.prefix_append ['&', '&'] r).isInfix

/-- A string is cut at its first pair of ampersands, then the rest is. -/
theorem splits_induction {P : Str → Prop} (hlast : ∀ s, ¬ Splits s → P s)
    (hcons : ∀ t rest, ¬ Splits (t ++ ['&']) → P rest → P (t ++ '&' :: '&' :: rest)) (s) : P s := by
  have hfirst : ∀ s, ¬ Splits s ∨
      ∃ t rest, s = t ++ '&' :: '&' :: rest ∧ ¬ Splits (t ++ ['&']) := by
    intro s
    induction s with
    | nil => exact .inl (by decide)
    | cons x s ih =>
      by_cases hpair : ['&', '&'] <+: x :: s
      · obtain ⟨rest, hs⟩ := hpair
        exact .inr ⟨[], rest, hs.symm, by decide⟩
      have hnot : ∀ {t}, t <+: s → ¬ Splits t → ¬ Splits (x :: t) := fun ht hsplits h => by
        rcases List.infix_cons_iff.mp h with h | h
        · exact hpair (h.trans (List.cons_prefix_cons.mpr ⟨rfl, ht⟩))
        · exact hsplits h
      rcases ih with hsplits | ⟨t, rest, rfl, hsplits⟩
      · exact .inl (hnot List.prefix_rfl hsplits)
      · exact .inr ⟨x :: t, rest, rfl, hnot ⟨'&' :: rest, by simp⟩ hsplits⟩
  induction hlen : s.length using Nat.strong_induction_on generalizing s with
  | _ len ih =>
    rcases hfirst s with h | ⟨t, rest, rfl, h⟩
    · exact hlast s h
    · refine hcons t rest h (ih rest.length ?_ rest rfl)
      rw [← hlen, List.length_append, List.length_cons, List.length_cons]
      omega

/-! ### The shape of a conjunct -/

theorem two_le_count (h : Splits s) : 2 ≤ s.count '&' := h.sublist.count_le '&'

theorem splits_append_cons {u v : Str} (hx : x ≠ '&') (h : Splits (u ++ x :: v)) :
    Splits u ∨ Splits v := by
  induction u with
  | nil =>
    rcases List.infix_cons_iff.mp h with h | h
    · exact absurd (List.cons_prefix_cons.mp h).1.symm hx
    · exact .inr h
  | cons y u ih =>
    rcases List.infix_cons_iff.mp h with h | h
    · obtain ⟨rfl, htail⟩ := List.cons_prefix_cons.mp h
      cases u with
      | nil => exact absurd (List.cons_prefix_cons.mp htail).1.symm hx
      | cons z u =>
        obtain ⟨rfl, -⟩ := List.cons_prefix_cons.mp htail
        exact .inl (List.prefix_append ['&', '&'] u).isInfix
    · exact (ih h).imp_left fun h => h.trans (List.suffix_cons y u).isInfix

theorem not_splits_of_append (h : ¬ Splits (s ++ t)) : ¬ Splits s :=
  fun hs => h (hs.trans (List.prefix_append s t).isInfix)

/-- A pair of ampersands is not in the white space around a string. -/
theorem splits_of_blank (hbefore : Blank before) (hafter : Blank after)
    (h : Splits (before ++ s ++ after)) : Splits s := by
  have hne : ∀ {x}, isWhitespace x = true → x ≠ '&' := by
    rintro x hx rfl
    exact absurd hx (by decide)
  have hblank : ∀ {u}, Blank u → ¬ Splits u := fun hu hs =>
    hne (hu '&' (hs.subset List.mem_cons_self)) rfl
  have hright : ∀ {u}, Splits (u ++ after) → Splits u := fun {u} hs => by
    cases after with
    | nil => rwa [List.append_nil] at hs
    | cons x after =>
      obtain ⟨hx, hrest⟩ := List.forall_mem_cons.mp hafter
      exact (splits_append_cons (hne hx) hs).resolve_right (hblank hrest)
  have h := hright h
  rcases before.eq_nil_or_concat with rfl | ⟨b, x, rfl⟩
  · exact h
  · rw [List.concat_eq_append] at hbefore h
    obtain ⟨hb, hx⟩ := blank_append.mp hbefore
    rw [List.append_assoc] at h
    exact (splits_append_cons (hne (hx x List.mem_cons_self)) h).resolve_left (hblank hb)

/-- Characters that neither separate nor quote. -/
def Dull (s : Str) : Prop := ∀ x ∈ s, x ≠ '&' ∧ isQuote x = false

theorem dull_of_all (h : s.all (fun x => x != '&' && !isQuote x) = true) : Dull s := fun x hx => by
  simpa using List.all_eq_true.mp h x hx

theorem dull_append : Dull (s ++ t) ↔ Dull s ∧ Dull t := List.forall_mem_append

theorem Blank.dull (h : Blank s) : Dull s := by
  intro x hx
  have hx := h x hx
  refine ⟨?_, Bool.eq_false_iff.mpr fun hq => ?_⟩
  · rintro rfl
    exact absurd hx (by decide)
  · rw [isWhitespace_of_quote hq] at hx
    cases hx

theorem ne_amp_of_quote (h : isQuote q = true) : q ≠ '&' := by
  rintro rfl
  exact absurd h (by decide)

/-- A clause for a permission has its name between two quotes, and a bracket before them. -/
theorem Segment.shape (h : Segment s (.contains n)) : ∃ q p r, isQuote q = true ∧
    s = p ++ q :: (n ++ q :: r) ∧ Dull p ∧ Dull r ∧ '(' ∈ p ∧ (q ∉ n ∨ ¬ Splits n) := by
  obtain ⟨before, _, after, hbefore, hafter, hbody, rfl⟩ := h
  cases hbody with
  | @contains _ q before' after' hq hbefore' hafter' _ hends =>
    have hfirst : Dull CONTAINS := dull_of_all (by decide +kernel)
    have hlast : Dull [')'] := dull_of_all (by decide +kernel)
    refine ⟨q, before ++ (CONTAINS ++ before'), after' ++ ([')'] ++ after), hq, by simp, ?_, ?_, ?_,
      hends⟩
    · exact dull_append.mpr ⟨hbefore.dull, dull_append.mpr ⟨hfirst, hbefore'.dull⟩⟩
    · exact dull_append.mpr ⟨hafter'.dull, dull_append.mpr ⟨hlast, hafter.dull⟩⟩
    · exact List.mem_append_right _ (List.mem_append_left _ (by decide +kernel))

/-- No other conjunct has a bracket or an ampersand. -/
theorem Segment.flat (h : Segment s c) (hc : ∀ n, c ≠ .contains n) : '&' ∉ s ∧ '(' ∉ s := by
  obtain ⟨before, body, after, hbefore, hafter, hbody, rfl⟩ := h
  have hblank : ∀ {u}, Blank u → '&' ∉ u ∧ '(' ∉ u := fun hu =>
    ⟨fun h => absurd (hu _ h) (by decide), fun h => absurd (hu _ h) (by decide)⟩
  have hmid : '&' ∉ body ∧ '(' ∉ body := by
    cases hbody with
    | name _ hplain _ => exact ⟨fun h => (plain_char hplain h).2.1 rfl,
        fun h => (plain_char hplain h).2.2 rfl⟩
    | @contains n _ _ _ _ _ _ _ _ => exact absurd rfl (hc n)
    | foreground => decide +kernel
  simp only [List.mem_append, hblank hbefore, hblank hafter, hmid, or_self, not_false_eq_true,
    and_self]

/-- What the loop knows is not split. -/
theorem Segment.not_splits (h : Segment s c) (hc : ¬ c.Unknown) : ¬ Splits (s ++ ['&']) := by
  intro hsplits
  cases c with
  | name _ => exact hc trivial
  | foreground =>
    have hcount := two_le_count hsplits
    rw [List.count_append, List.count_eq_zero.mpr (h.flat nofun).1] at hcount
    exact absurd hcount (by decide)
  | contains n =>
    obtain ⟨q, p, r, hq, rfl, hp, hr, -, -⟩ := h.shape
    have hnone : ∀ {u}, Dull u → u.count '&' = 0 := fun hu =>
      List.count_eq_zero.mpr fun hmem => (hu _ hmem).1 rfl
    rw [List.append_assoc, List.cons_append, List.append_assoc, List.cons_append] at hsplits
    rcases splits_append_cons (ne_amp_of_quote hq) hsplits with h | h
    · have hcount := two_le_count h
      rw [hnone hp] at hcount
      exact absurd hcount (by decide)
    rcases splits_append_cons (ne_amp_of_quote hq) h with h | h
    · exact hc h
    · have hcount := two_le_count h
      rw [List.count_append, hnone hr] at hcount
      exact absurd hcount (by decide)

/-! ### A string has one reading -/

theorem Spells.parse (h : Spells s c) : parseContainsClause s = some n ↔ c = .contains n := by
  have hflat : (∀ m, c ≠ .contains m) → parseContainsClause s ≠ some n := fun hc hparse => by
    obtain ⟨-, q, before, after, -, -, -, hs⟩ := parseContainsClause_eq_some.mp hparse
    have hbracket := (Segment.flat ⟨[], s, [], nofun, nofun, h, (List.append_nil s).symm⟩ hc).2
    rw [hs] at hbracket
    exact hbracket (List.mem_append_left _ (by decide +kernel))
  cases h with
  | name => exact iff_of_false (hflat nofun) nofun
  | @contains m q before after hq hbefore hafter hne hends =>
    rw [parseContainsClause_eq_some.mpr ⟨hne, q, before, after, hq, hbefore, hafter, rfl⟩,
      Option.some_inj, Conjunct.contains.injEq]
  | foreground => exact iff_of_false (hflat nofun) nofun

theorem Spells.unique (h : Spells s c) (h' : Spells s d) : c = d := by
  by_cases hc : ∃ n, c = .contains n ∨ d = .contains n
  · obtain ⟨n, hc | hd⟩ := hc
    · rw [hc, h'.parse.mp (h.parse.mpr hc)]
    · rw [hd, h.parse.mp (h'.parse.mpr hd)]
  · cases h with
    | name _ _ hn =>
      cases h' with
      | name => rfl
      | contains => exact absurd ⟨_, .inr rfl⟩ hc
      | foreground => exact absurd rfl hn
    | contains => exact absurd ⟨_, .inl rfl⟩ hc
    | foreground =>
      generalize hs : FOREGROUND = s at h'
      cases h' with
      | name _ _ hn => exact absurd hs.symm hn
      | contains => exact absurd ⟨_, .inr rfl⟩ hc
      | foreground => rfl

theorem Segment.unique (h : Segment s c) (h' : Segment s d) : c = d :=
  h.spells_trim.unique h'.spells_trim

/-- Of two ways to cut a string, one cuts at a character that the other has before its cut. -/
theorem append_cons_of_not_mem {p u v : Str} (h : t ++ x :: u = p ++ v) (hx : x ∉ p) :
    ∃ z, t = p ++ z ∧ v = z ++ x :: u := by
  rcases List.append_eq_append_iff.mp h with ⟨z, hp, hz⟩ | ⟨z, ht, hz⟩
  · cases z with
    | nil => exact ⟨[], by rw [hp, List.append_nil, List.append_nil], hz.symm⟩
    | cons y z =>
      obtain ⟨rfl, -⟩ := List.cons.inj hz
      exact absurd (hp ▸ List.mem_append_right _ List.mem_cons_self) hx
  · exact ⟨z, ht, hz⟩

/-- No conjunct goes on after another one and a pair of ampersands. -/
theorem Segment.not_across (h : Segment t c) (h' : Segment (t ++ '&' :: '&' :: rest) d) :
    False := by
  have hamp : '&' ∈ t ++ '&' :: '&' :: rest := List.mem_append_right _ List.mem_cons_self
  cases d with
  | name => exact (h'.flat nofun).1 hamp
  | foreground => exact (h'.flat nofun).1 hamp
  | contains m =>
    obtain ⟨q, p, r, hq, hs, hp, hr, hbracket, hends⟩ := h'.shape
    have hm : q ∉ m := hends.resolve_right fun hm =>
      h'.not_splits hm ⟨t, rest ++ ['&'], by simp⟩
    have hdull : ∀ {u}, Dull u → '&' ∉ u ∧ q ∉ u := fun hu =>
      ⟨fun h => (hu _ h).1 rfl, fun h => absurd ((hu _ h).2.symm.trans hq) nofun⟩
    -- the first quote is before the ampersands, and the second one after them
    obtain ⟨z, rfl, hz⟩ := append_cons_of_not_mem hs (hdull hp).1
    cases z with
    | nil => exact ne_amp_of_quote hq (List.cons.inj hz).1
    | cons y z =>
      obtain ⟨rfl, hname⟩ := List.cons.inj hz
      have hqz : q ∉ z := fun hqz => by
        rcases List.append_eq_append_iff.mp hname with ⟨k, rfl, hk⟩ | ⟨k, rfl, -⟩
        · have hmem : '&' ∈ q :: r := hk ▸ List.mem_append_right _ List.mem_cons_self
          rcases List.mem_cons.mp hmem with h | h
          · exact ne_amp_of_quote hq h.symm
          · exact (hdull hr).1 h
        · exact hm (List.mem_append_left _ hqz)
      -- but a clause that has a bracket has its first quote twice
      cases c with
      | name => exact (h.flat nofun).2 (List.mem_append_left _ hbracket)
      | foreground => exact (h.flat nofun).2 (List.mem_append_left _ hbracket)
      | contains n =>
        obtain ⟨q', p', r', hq', hs', hp', hr', -, -⟩ := h.shape
        obtain ⟨w, rfl, hw⟩ := append_cons_of_not_mem hs' (hdull hp').2
        cases w with
        | nil =>
          obtain ⟨rfl, rfl⟩ := List.cons.inj hw
          exact hqz (List.mem_append_right _ List.mem_cons_self)
        | cons y w =>
          obtain ⟨rfl, -⟩ := List.cons.inj hw
          have hy := (hp _ (List.mem_append_right _ List.mem_cons_self)).2
          exact absurd (hy.symm.trans hq') nofun

theorem Segment.getLast_ne (h : Segment s c) : s.getLast? ≠ some '&' := by
  intro hlast
  cases c with
  | name => exact (h.flat nofun).1 (List.mem_of_getLast? hlast)
  | foreground => exact (h.flat nofun).1 (List.mem_of_getLast? hlast)
  | contains n =>
    obtain ⟨q, p, r, hq, rfl, -, hr, -, -⟩ := h.shape
    have hend : (q :: r).getLast? = some '&' := by
      simpa [List.getLast?_append, List.getLast?_cons] using hlast
    rcases List.mem_cons.mp (List.mem_of_getLast? hend) with h | h
    · exact ne_amp_of_quote hq h.symm
    · exact (hr _ h).1 rfl

/-- A conjunction has one first conjunct. -/
theorem Segment.first_eq {rest' : Str} (h : Segment t c) (h' : Segment s d)
    (heq : t ++ '&' :: '&' :: rest = s ++ '&' :: '&' :: rest') : t = s := by
  have hnil : ∀ {t s c d rest rest' z}, Segment t c → Segment s d → s = t ++ z →
      '&' :: '&' :: rest = z ++ '&' :: '&' :: rest' → z = [] := by
    intro t s c d rest rest' z h h' hs hz
    match z, hz with
    | [], _ => rfl
    | [x], hz =>
      obtain ⟨rfl, -⟩ := List.cons.inj hz
      exact absurd (hs ▸ List.getLast?_concat) h'.getLast_ne
    | x :: y :: z, hz =>
      obtain ⟨rfl, htail⟩ := List.cons.inj hz
      obtain ⟨rfl, -⟩ := List.cons.inj htail
      exact (h.not_across (hs ▸ h')).elim
  rcases List.append_eq_append_iff.mp heq with ⟨z, hs, hz⟩ | ⟨z, ht, hz⟩
  · rw [hs, hnil h h' hs hz, List.append_nil]
  · rw [ht, hnil h' h ht hz, List.append_nil]

theorem Reads.unique (h : Reads s e) (h' : Reads s e') : e = e' := by
  induction h generalizing e' with
  | last h =>
    cases h' with
    | last h' => rw [h.unique h']
    | and h' _ => exact (h'.not_across h).elim
  | @and t c rest e h hrest ih =>
    generalize hs : t ++ '&' :: '&' :: rest = s at h'
    cases h' with
    | last h' => exact (h.not_across (hs ▸ h')).elim
    | @and t' d rest' e' h' hrest' =>
      obtain rfl := h.first_eq h' hs
      obtain rfl : rest = rest' := by simpa using hs
      rw [h.unique h', ih hrest']

theorem Reads.not_blank (h : Reads s e) : ¬ Blank s := by
  have hsegment : ∀ {s c}, Segment s c → ¬ Blank s := fun h hblank => by
    obtain ⟨⟨_, _, hs, _⟩, -⟩ := h.spells_trim.tight
    rw [trim_eq_nil.mpr hblank] at hs
    cases hs
  cases h with
  | last h => exact hsegment h
  | and h _ => exact fun hblank => hsegment h (blank_append.mp hblank).1

/-! ### The loop over the clauses -/

/-- What the loop over the clauses asks of a conjunct. -/
def ClientContext.passes (client : ClientContext) (c : Conjunct) : Prop :=
  ¬ c.Unknown ∧ client.has c

/-- What one turn of the loop asks of a clause. -/
def ClientContext.meets (client : ClientContext) (clause : Str) : Prop :=
  match parseContainsClause clause with
  | some required => client.hasPermission required
  | none => clause = FOREGROUND ∧ client.isForeground

theorem checkClauses_iff {clauses} :
    checkClauses client clauses = .allow ↔ ∀ clause ∈ clauses, client.meets clause := by
  induction clauses with
  | nil => exact iff_of_true rfl nofun
  | cons clause rest ih =>
    rw [List.forall_mem_cons, checkClauses, ClientContext.meets]
    cases parseContainsClause clause with
    | some name => by_cases h : client.hasPermission name <;> simp [h, ih]
    | none =>
      by_cases hf : clause = FOREGROUND <;> by_cases h : client.isForeground <;> simp [hf, h, ih]

/-- A clause without a pair of ampersands is met if it is a conjunct that passes. -/
theorem meets_trim_iff (h : ¬ Splits s) :
    client.meets (trim s) ↔ ∃ c, Segment s c ∧ client.passes c := by
  simp only [segment_iff]
  constructor
  · intro hmeets
    unfold ClientContext.meets at hmeets
    split at hmeets
    · rename_i n hparse
      obtain ⟨hne, q, before, after, hq, hbefore, hafter, hs⟩ :=
        parseContainsClause_eq_some.mp hparse
      have hn : ¬ Splits n := fun hn => by
        obtain ⟨b, a, -, -, hb⟩ := exists_trim s
        refine h (hn.trans ⟨b ++ (CONTAINS ++ before ++ [q]), q :: (after ++ [')']) ++ a, ?_⟩)
        rw [hb, hs]
        simp
      exact ⟨.contains n, hs ▸ .contains hq hbefore hafter hne (.inr hn), hn, hmeets⟩
    · exact ⟨.foreground, hmeets.1 ▸ .foreground, id, hmeets.2⟩
  · rintro ⟨c, hspells, hknown, hhas⟩
    unfold ClientContext.meets
    cases c with
    | name => exact absurd trivial hknown
    | contains n => rwa [hspells.parse.mpr rfl]
    | foreground =>
      generalize trim s = s at hspells
      cases hspells
      exact ⟨rfl, hhas⟩

theorem splitClauses_loop_iff (s) : (∀ clause ∈ (splitClauses s).map trim, client.meets clause) ↔
    ∃ e, Reads s e ∧ ∀ c ∈ e, client.passes c := by
  constructor
  · -- the code splits off one clause, which is one conjunct
    induction s using splits_induction with
    | hlast s h =>
      rw [splitClauses_of_not h, List.map_singleton, List.forall_mem_singleton, meets_trim_iff h]
      rintro ⟨c, hc, hpasses⟩
      exact ⟨[c], .last hc, List.forall_mem_singleton.mpr hpasses⟩
    | hcons t rest h ih =>
      rw [splitClauses_append h, List.map_cons, List.forall_mem_cons,
        meets_trim_iff (not_splits_of_append h)]
      rintro ⟨⟨c, hc, hpasses⟩, hrest⟩
      obtain ⟨e, he, hall⟩ := ih hrest
      exact ⟨c :: e, .and hc he, List.forall_mem_cons.mpr ⟨hpasses, hall⟩⟩
  · rintro ⟨e, he, hall⟩
    -- a conjunct that passes has no pair of ampersands, so the code splits where it ends
    have hnot : ∀ {s c}, Segment s c → client.passes c → ¬ Splits s := fun hs hc =>
      not_splits_of_append (hs.not_splits hc.1)
    induction he with
    | last hs =>
      have hpasses := List.forall_mem_singleton.mp hall
      rw [splitClauses_of_not (hnot hs hpasses), List.map_singleton, List.forall_mem_singleton]
      exact (meets_trim_iff (hnot hs hpasses)).mpr ⟨_, hs, hpasses⟩
    | and hs _ ih =>
      obtain ⟨hpasses, hall⟩ := List.forall_mem_cons.mp hall
      rw [splitClauses_append (hs.not_splits hpasses.1), List.map_cons, List.forall_mem_cons]
      exact ⟨(meets_trim_iff (hnot hs hpasses)).mpr ⟨_, hs, hpasses⟩, ih hall⟩

/-- White space around a permission changes no clause. -/
theorem map_trim_splitClauses (hbefore : Blank before) (hafter : Blank after) :
    (splitClauses (before ++ s ++ after)).map trim = (splitClauses s).map trim := by
  induction s using splits_induction generalizing before with
  | hlast s h =>
    rw [splitClauses_of_not h, splitClauses_of_not (mt (splits_of_blank hbefore hafter) h),
      List.map_singleton, List.map_singleton, trim_append hbefore hafter]
  | hcons t rest h ih =>
    have hfirst : ¬ Splits (before ++ t ++ ['&']) := fun hs => h (by
      refine splits_of_blank hbefore blank_nil ?_
      rwa [List.append_nil, ← List.append_assoc])
    have heq : before ++ (t ++ '&' :: '&' :: rest) ++ after =
        before ++ t ++ '&' :: '&' :: ([] ++ rest ++ after) := by simp
    have htrim : trim (before ++ t) = trim t := by
      simpa using trim_append hbefore blank_nil
    rw [heq, splitClauses_append hfirst, splitClauses_append h, List.map_cons, List.map_cons,
      ih blank_nil, htrim]

/-! ### What is decided -/

/-- What `checkPermission` asks of a conjunction. -/
def Asked (client : ClientContext) : List Conjunct → Prop
  | [.name n] => client.holds n
  | [.foreground] => client.hasPermission FOREGROUND
  | e => ∀ c ∈ e, client.passes c

theorem reads_of_spells (h : Spells (trim s) c) : Reads s e ↔ e = [c] := by
  have hs := Reads.last (segment_iff.mpr h)
  exact ⟨fun he => he.unique hs, fun he => he ▸ hs⟩

theorem allowed_iff (permission : Option Str) : checkPermission permission client = .allow ↔
    Blank (permission.getD []) ∨ ∃ e, Reads (permission.getD []) e ∧ Asked client e := by
  cases permission with
  | none => exact iff_of_true rfl (.inl nofun)
  | some p =>
    rw [Option.getD_some, checkPermission, Option.map_some]
    by_cases hblank : trim p = []
    · rw [hblank]
      exact iff_of_true rfl (.inl (trim_eq_nil.mp hblank))
    rw [Option.filter_some_pos (by simpa using hblank), or_iff_right (mt trim_eq_nil.mpr hblank)]
    dsimp only
    cases hplain : isPlainPermission (trim p) with
    | true =>
      -- one name, which may be spelled as the test for the foreground
      rw [if_pos rfl]
      by_cases hname : trim p = FOREGROUND
      · have hspells : Spells (trim p) .foreground := hname ▸ .foreground
        have hother : trim p ≠ MANAGE_USER_PREFERENCES := hname ▸ by decide +kernel
        simp only [reads_of_spells hspells, exists_eq_left, Asked]
        rw [if_neg fun h => hother h.1, hname]
        split <;> simp_all
      · simp only [reads_of_spells (.name hblank hplain hname), exists_eq_left, Asked,
          ClientContext.holds]
        by_cases hreserved : trim p = MANAGE_USER_PREFERENCES ∧ client.packageName ∉ PLATFORM
        · rw [if_pos hreserved]
          exact iff_of_false nofun fun h => hreserved.2 (h.2 hreserved.1)
        · rw [if_neg hreserved, and_iff_left fun h => by_contra fun hp => hreserved ⟨h, hp⟩]
          split <;> simp_all
    | false =>
      -- the loop reads the clauses of the trimmed string, which are those of the whole string
      have hother : trim p ≠ MANAGE_USER_PREFERENCES := fun h => by
        rw [h] at hplain
        exact absurd hplain (by decide +kernel)
      obtain ⟨b, a, hb, ha, hp⟩ := exists_trim p
      have hloop : (splitClauses (trim p)).map trim = (splitClauses p).map trim := by
        have hclauses := map_trim_splitClauses (s := trim p) hb ha
        rw [← hp] at hclauses
        exact hclauses.symm
      rw [if_neg fun h => hother h.1, if_neg Bool.false_ne_true, checkClauses_iff, hloop,
        splitClauses_loop_iff]
      refine exists_congr fun e => and_congr_right fun he => ?_
      -- no plain conjunct stands alone
      have halone : ∀ {c}, e = [c] → ∃ n, c = .contains n := fun {c} hc => by
        subst hc
        cases he with
        | last h =>
          have hspells := h.spells_trim
          generalize trim p = s at hspells hplain
          cases hspells with
          | name _ hs _ => exact absurd (hplain.symm.trans hs) Bool.false_ne_true
          | contains => exact ⟨_, rfl⟩
          | foreground => exact absurd hplain (by decide +kernel)
        | and _ hrest => cases hrest
      match e with
      | [] | [.contains _] => rfl
      | _ :: _ :: _ => simp only [Asked]
      | [.name _] | [.foreground] =>
        obtain ⟨n, hn⟩ := halone rfl
        cases hn

/-- A conjunction says that the client has what it asks for, and is no request for the reserved
permission by a package outside the platform. -/
theorem satisfies_all_iff : (∀ c ∈ e, client.satisfies c) ↔ (∀ c ∈ e, client.has c) ∧
    ¬ (client.packageName ∉ PLATFORM ∧ ∃ c ∈ e, c.Reserved) := by
  have hone : ∀ c, client.satisfies c ↔
      client.has c ∧ (c.Reserved → client.packageName ∈ PLATFORM) := by
    intro c
    cases c <;> simp [ClientContext.satisfies, ClientContext.has, ClientContext.holds,
      Conjunct.Reserved]
  simp only [hone, not_and, not_exists]
  constructor
  · exact fun h => ⟨fun c hc => (h c hc).1, fun hp c hc hr => hp ((h c hc).2 hr)⟩
  · exact fun h c hc => ⟨h.1 c hc, fun hr => by_contra fun hp => h.2 hp c hc hr⟩

/-- **A permission means the conjunction of its clauses** for the conjunctions that are read as
they are meant, and for no others. -/
theorem allowed_iff_meant (permission : Option Str) (client : ClientContext) :
    (checkPermission permission client = .allow ↔ Meant client (permission.getD [])) ↔
      ∀ e, Reads (permission.getD []) e → ReadAsMeant client e := by
  rw [allowed_iff, Meant]
  generalize permission.getD [] = s
  by_cases hread : ∃ e, Reads s e
  · obtain ⟨e, he⟩ := hread
    have hone : ∀ {P : List Conjunct → Prop}, (∃ e', Reads s e' ∧ P e') ↔ P e := fun {P} =>
      ⟨fun ⟨e', he', h⟩ => he.unique he' ▸ h, fun h => ⟨e, he, h⟩⟩
    have hall : ∀ {P : List Conjunct → Prop}, (∀ e', Reads s e' → P e') ↔ P e := fun {P} =>
      ⟨fun h => h e he, fun h e' he' => he.unique he' ▸ h⟩
    rw [or_iff_right he.not_blank, or_iff_right he.not_blank, hone, hone, hall]
    have hmany : ((∀ c ∈ e, client.passes c) ↔ ∀ c ∈ e, client.satisfies c) ↔
        ((∀ c ∈ e, client.has c) →
          ((∃ c ∈ e, c.Unknown) ↔ client.packageName ∉ PLATFORM ∧ ∃ c ∈ e, c.Reserved)) := by
      have hpasses : (∀ c ∈ e, client.passes c) ↔
          (∀ c ∈ e, client.has c) ∧ ¬ ∃ c ∈ e, c.Unknown := by
        simp only [ClientContext.passes, forall_and, not_exists, not_and]
        exact and_comm
      rw [satisfies_all_iff, hpasses, and_congr_right_iff, not_iff_not]
    match e with
    | [] | [.contains _] => exact hmany
    | _ :: _ :: _ => simpa only [Asked, ReadAsMeant] using hmany
    | [.name _] => simp [Asked, ReadAsMeant, ClientContext.satisfies]
    | [.foreground] => simp [Asked, ReadAsMeant, ClientContext.satisfies]
  · have hnone : ∀ {P : List Conjunct → Prop}, ¬ ∃ e, Reads s e ∧ P e :=
      fun ⟨e, he, _⟩ => hread ⟨e, he⟩
    refine iff_of_true ?_ fun e he => absurd ⟨e, he⟩ hread
    rw [or_iff_left hnone, or_iff_left hnone]

/-- An ordinary package that declares the reserved permission. -/
def declaring : ClientContext := ⟨"bexos.shell".toList, [MANAGE_USER_PREFERENCES], [], true, none⟩

def reservedClause : Str :=
  "request.permissions.contains('bexos.permission.MANAGE_USER_PREFERENCES')".toList

/-- **The reserved permission is obtained** by writing it as an expression. -/
theorem reserved_by_expression : checkPermission (some reservedClause) declaring = .allow ∧
    ¬ Meant declaring reservedClause := by
  refine ⟨by decide +kernel, ?_⟩
  rintro (hblank | ⟨e, he, hall⟩)
  · exact absurd (trim_eq_nil.mpr hblank) (by decide +kernel)
  · have hspells : Spells (trim reservedClause) (.contains MANAGE_USER_PREFERENCES) := by
      have hs := Spells.contains (n := MANAGE_USER_PREFERENCES) (q := Char.ofNat 0x27)
        (by decide) blank_nil blank_nil (by decide +kernel) (.inr (by decide +kernel))
      exact (by decide +kernel : CONTAINS ++ ([] ++ Char.ofNat 0x27 :: (MANAGE_USER_PREFERENCES ++
        Char.ofNat 0x27 :: ([] ++ [')']))) = trim reservedClause) ▸ hs
    obtain rfl := (reads_of_spells hspells).mp he
    exact absurd ((hall _ List.mem_cons_self).2 rfl) (by decide +kernel)

end Bexos.Appd
