/-
Path resolution in BexFS (`bexfs/src/fs.rs`).

`walk` puts the target of a symbolic link in front of the rest of the path and starts again;
`resolve_parent` resolves one component after the other.  What both compute is one relation,
`Leads`, which counts the symbolic links on the way.

* `walk_eq_ok` — `walk` ends where the path leads, if it may follow that many links;
* `Leads.append`, `Leads.split` — a path leads where its parts lead after each other;
* `resolveNoFollow_eq_ok` — a path is found if and only if its directory is found and has an
  entry of its last name;
* **`operations_on_entry`** — the operations act on that entry; `rename` moves the inode of
  another one if the entry is a symbolic link.

Design notes: `resolve_parent` counts the links of each component on its own, `walk` those of
the whole path, so they agree on paths with at most 40 links.
-/
import Bexos.BexfsNamespace

namespace Bexos

open Prog

/-- The name of a file. -/
def Bexfs.fileName : Text := ⟨ascii "f", by decide⟩

namespace Namespace

variable {ns : Namespace} {i : UInt64} {key : DentryKey} {cs : List Text}

/-- An inode is a directory. -/
def IsDir (ns : Namespace) (i : UInt64) : Prop := ∃ n, ns.nodes[i]? = some n ∧ n.kind = .directory

theorem isDirectory_eq_true : ns.isDirectory i = true ↔ ns.IsDir i := by
  unfold isDirectory IsDir
  rw [Option.any_eq_true]
  simp

theorem isSome_of_isDir (h : ns.IsDir i) : ns.nodes[i]?.isSome := by
  obtain ⟨n, hn, -⟩ := h
  rw [hn]
  rfl

theorem entryOf_eq_some (h : ns.entryOf i = some key) : ns.dentries[key]? = some i := by
  unfold entryOf at h
  obtain ⟨e, he, rfl⟩ := Option.map_eq_some_iff.mp h
  have hi := List.find?_some he
  rw [← OrdMap.mem_toList, ← beq_iff_eq.mp hi]
  exact List.mem_of_find?_eq_some he

theorem requireDirectory_eq_ok : ns.requireDirectory i = .ok () ↔ ns.IsDir i := by
  unfold requireDirectory IsDir
  cases ns.nodes[i]? with
  | none => simp
  | some n => by_cases hkind : n.kind = .directory <;> simp [hkind]

/-! ### Components -/

theorem validateAll_eq_ok : validateAll cs = .ok () ↔ ∀ c ∈ cs, validateComponent c = .ok () := by
  induction cs with
  | nil => simp [validateAll]
  | cons c cs ih =>
    rw [validateAll, except_bind_eq_ok, List.forall_mem_cons, ← ih]
    constructor
    · rintro ⟨⟨⟩, hc, hcs⟩
      exact ⟨hc, hcs⟩
    · exact fun ⟨hc, hcs⟩ => ⟨(), hc, hcs⟩

theorem validateRelativePath_eq_ok {path} (h : validateRelativePath path = .ok cs) :
    cs = path.split ∧ ∀ c ∈ cs, validateComponent c = .ok () := by
  unfold validateRelativePath at h
  split at h
  · cases h
  · obtain ⟨_, hall, hcs⟩ := except_bind_eq_ok.mp h
    obtain rfl := Except.ok.inj hcs
    exact ⟨rfl, validateAll_eq_ok.mp hall⟩

variable {c : Text}

theorem validateRelativePath_component (h : validateComponent c = .ok ()) :
    validateRelativePath c = .ok [c] := by
  have hvalid := h
  unfold validateComponent at h
  split at h
  · cases h
  rename_i hnot
  simp only [not_or] at hnot
  obtain ⟨hne, -, -, -, hslash⟩ := hnot
  have hsplit := Text.split_of_not_mem hslash
  unfold validateRelativePath
  rw [if_neg, hsplit]
  · rw [validateAll_eq_ok.mpr (by simpa using hvalid)]
    rfl
  · rintro (hnil | hhead | hlast)
    · exact hne hnil
    · exact hslash (List.mem_of_mem_head? hhead)
    · exact hslash (List.mem_of_getLast? hlast)

/-- A component is not a dot or two. -/
theorem component_ne_dots (h : validateComponent c = .ok ()) :
    c.bytes ≠ ascii "." ∧ c.bytes ≠ ascii ".." := by
  unfold validateComponent at h
  split at h
  · cases h
  rename_i hnot
  simp only [not_or] at hnot
  exact ⟨hnot.2.1, hnot.2.2.1⟩

/-- The directory of a new entry is a directory, and its name is one. -/
theorem resolveParent_eq_ok {base path} (h : ns.resolveParent base path = .ok key) :
    ns.IsDir key.parent ∧ validateComponent key.name = .ok () ∧
      ∃ cs, validateRelativePath path = .ok (cs ++ [key.name]) ∧
        ns.resolveAll base cs = .ok key.parent := by
  unfold resolveParent at h
  obtain ⟨components, hpath, h⟩ := except_bind_eq_ok.mp h
  split at h
  · cases h
  · rename_i name hname
    obtain ⟨parent, hparent, h⟩ := except_bind_eq_ok.mp h
    obtain ⟨_, hdir, h⟩ := except_bind_eq_ok.mp h
    obtain rfl := Except.ok.inj h
    have hcut : components.dropLast ++ [name] = components :=
      List.dropLast_append_getLast? name hname
    refine ⟨requireDirectory_eq_ok.mp hdir, ?_, components.dropLast, by rw [hcut]; exact hpath,
      hparent⟩
    exact (validateRelativePath_eq_ok hpath).2 name (List.mem_of_getLast? hname)

/-! ### Where a path leads -/

/-- The directory `current` has an entry `c`, for the inode `child`. -/
structure Enters (ns : Namespace) (current : UInt64) (c : Text) (child : UInt64) (node : Node) :
    Prop where
  dot : c.bytes ≠ ascii "."
  up : c.bytes ≠ ascii ".."
  dir : ns.IsDir current
  entry : ns.dentries[(⟨current, c⟩ : DentryKey)]? = some child
  node : ns.nodes[child]? = some node

/-- A component leads from `current` to an inode; a symbolic link that is to be followed does
not. -/
inductive Goes (ns : Namespace) (follow : Prop) (current : UInt64) (c : Text) : UInt64 → Prop
  | dot (hdot : c.bytes = ascii ".") : Goes ns follow current c current
  | up {parent} (hup : c.bytes = ascii "..") (hdir : ns.IsDir current)
      (hparent : ns.directoryParent current = .ok parent) : Goes ns follow current c parent
  | enter {child node} (hc : ns.Enters current c child node)
      (hkind : ¬ (node.kind = .symlink ∧ follow)) : Goes ns follow current c child

/-- A path leads from one inode to another, over so many symbolic links. -/
inductive Leads (ns : Namespace) (followFinal : Bool) : ℕ → UInt64 → List Text → UInt64 → Prop
  | done {current} : Leads ns followFinal 0 current [] current
  | go {k current next c rest r} (hgo : ns.Goes (rest ≠ [] ∨ followFinal = true) current c next)
      (h : Leads ns followFinal k next rest r) : Leads ns followFinal k current (c :: rest) r
  | link {k current c child node start components rest r} (hc : ns.Enters current c child node)
      (hkind : node.kind = .symlink ∧ (rest ≠ [] ∨ followFinal = true))
      (htarget : linkTarget current node = .ok (start, components))
      (h : Leads ns followFinal k start (components ++ rest) r) :
      Leads ns followFinal (k + 1) current (c :: rest) r

/-- What path resolution needs of a namespace. -/
structure Walkable (ns : Namespace) : Prop where
  root : ns.IsDir ROOT_INODE
  child : ∀ (key : DentryKey) (i : UInt64), ns.dentries[key]? = some i → ∃ n, ns.nodes[i]? = some n
  parent : ∀ (key : DentryKey) (i : UInt64), ns.dentries[key]? = some i → ns.IsDir key.parent

variable {followFinal : Bool} {k n : ℕ} {current m r : UInt64} {xs ys : List Text}

theorem Goes.imp {follow follow' : Prop} (h : ns.Goes follow current c m)
    (himp : follow' → follow) : ns.Goes follow' current c m := by
  cases h with
  | dot hdot => exact .dot hdot
  | up hup hdir hparent => exact .up hup hdir hparent
  | enter hc hkind => exact .enter hc fun hlink => hkind ⟨hlink.1, himp hlink.2⟩

theorem Walkable.directoryParent (h : ns.Walkable) {parent}
    (hparent : ns.directoryParent i = .ok parent) : ns.IsDir parent := by
  unfold Namespace.directoryParent at hparent
  split at hparent
  · rw [← Except.ok.inj hparent]
    exact h.root
  · split at hparent
    · rename_i key hkey
      rw [← Except.ok.inj hparent]
      exact h.parent key i (entryOf_eq_some hkey)
    · cases hparent

/-- The target of a link is resolved from the root or from the directory of the link. -/
theorem Walkable.linkTarget (h : ns.Walkable) {node components} (hdir : ns.IsDir current)
    (htarget : Namespace.linkTarget current node = .ok (m, components)) : ns.IsDir m := by
  unfold Namespace.linkTarget at htarget
  split at htarget
  · cases htarget
  · rw [← (Prod.mk.inj (Except.ok.inj htarget)).1]
    split
    · exact h.root
    · exact hdir

theorem Goes.isSome {follow : Prop} (h : ns.Goes follow current c m) (hns : ns.Walkable)
    (hcurrent : ns.nodes[current]?.isSome) : ns.nodes[m]?.isSome := by
  cases h with
  | dot _ => exact hcurrent
  | up _ _ hparent => exact isSome_of_isDir (hns.directoryParent hparent)
  | enter hc _ =>
    rw [hc.node]
    rfl

theorem Leads.isSome (h : ns.Leads followFinal k current cs r) (hns : ns.Walkable)
    (hcurrent : ns.nodes[current]?.isSome) : ns.nodes[r]?.isSome := by
  induction h with
  | done => exact hcurrent
  | go hgo _ ih => exact ih (hgo.isSome hns hcurrent)
  | link hc _ htarget _ ih => exact ih (isSome_of_isDir (hns.linkTarget hc.dir htarget))

theorem leads_of_walk (h : ns.walk followFinal n current cs = .ok r) :
    ns.nodes[current]?.isSome ∧ ∃ k < n, ns.Leads followFinal k current cs r := by
  induction n generalizing current cs with
  | zero => cases h
  | succ n ih =>
    rw [walk] at h
    split at h
    · cases h
    rename_i hsome
    refine ⟨by simpa using hsome, ?_⟩
    clear hsome
    -- the components up to the first link
    induction cs generalizing current with
    | nil => exact ⟨0, Nat.succ_pos n, Except.ok.inj h ▸ .done⟩
    | cons c rest ihrest =>
      rw [walkLoop] at h
      split at h
      · rename_i hdot
        obtain ⟨k, hk, h⟩ := ihrest h
        exact ⟨k, hk, .go (.dot hdot) h⟩
      rename_i hdot
      split at h
      · rename_i hup
        obtain ⟨_, hdir, h⟩ := except_bind_eq_ok.mp h
        obtain ⟨parent, hparent, h⟩ := except_bind_eq_ok.mp h
        obtain ⟨k, hk, h⟩ := ihrest h
        exact ⟨k, hk, .go (.up hup (requireDirectory_eq_ok.mp hdir) hparent) h⟩
      rename_i hup
      obtain ⟨_, hdir, h⟩ := except_bind_eq_ok.mp h
      split at h
      · cases h
      rename_i child hchild
      split at h
      · cases h
      rename_i node hnode
      have hc : ns.Enters current c child node :=
        ⟨hdot, hup, requireDirectory_eq_ok.mp hdir, hchild, hnode⟩
      split at h
      · rename_i hkind
        obtain ⟨⟨start, components⟩, htarget, h⟩ := except_bind_eq_ok.mp h
        obtain ⟨-, k, hk, h⟩ := ih h
        exact ⟨k + 1, Nat.succ_lt_succ hk, .link hc hkind htarget h⟩
      · rename_i hkind
        obtain ⟨k, hk, h⟩ := ihrest h
        exact ⟨k, hk, .go (.enter hc hkind) h⟩

theorem walk_succ (h : ns.nodes[current]?.isSome) : ns.walk followFinal (n + 1) current cs =
      ns.walkLoop (ns.walk followFinal n) followFinal current cs := by
  rw [walk, if_neg (by simpa using h)]

theorem Enters.walkLoop {child node} (hc : ns.Enters current c child node)
    (follow : UInt64 → List Text → Except BexFsError UInt64) (rest) :
    ns.walkLoop follow followFinal current (c :: rest) =
      if node.kind = .symlink ∧ (rest ≠ [] ∨ followFinal = true) then
        Namespace.linkTarget current node >>= fun x => follow x.1 (x.2 ++ rest)
      else ns.walkLoop follow followFinal child rest := by
  rw [Namespace.walkLoop, if_neg hc.dot, if_neg hc.up, requireDirectory_eq_ok.mpr hc.dir]
  simp only [bind, Except.bind, hc.entry, hc.node]

theorem Goes.walkLoop {rest} (h : ns.Goes (rest ≠ [] ∨ followFinal = true) current c m)
    (follow : UInt64 → List Text → Except BexFsError UInt64) :
    ns.walkLoop follow followFinal current (c :: rest) =
      ns.walkLoop follow followFinal m rest := by
  cases h with
  | dot hdot => rw [Namespace.walkLoop, if_pos hdot]
  | up hup hdir hparent =>
    have hdot : ascii ".." ≠ ascii "." := by decide
    rw [Namespace.walkLoop, if_neg (hup ▸ hdot), if_pos hup, requireDirectory_eq_ok.mpr hdir,
      hparent]
    rfl
  | enter hc hkind => rw [hc.walkLoop, if_neg hkind]

theorem Leads.walk (h : ns.Leads followFinal k current cs r) (hns : ns.Walkable) (hk : k ≤ n)
    (hcurrent : ns.nodes[current]?.isSome) : ns.walk followFinal (n + 1) current cs = .ok r := by
  rw [walk_succ hcurrent]
  induction h generalizing n with
  | done => rfl
  | go hgo _ ih =>
    rw [hgo.walkLoop]
    exact ih hk (hgo.isSome hns hcurrent)
  | link hc hkind htarget _ ih =>
    obtain ⟨n, rfl⟩ := Nat.exists_eq_add_one.mpr (Nat.zero_lt_of_lt hk)
    have hstart := isSome_of_isDir (hns.linkTarget hc.dir htarget)
    rw [hc.walkLoop, if_pos hkind, htarget]
    exact (walk_succ hstart).trans (ih (Nat.le_of_succ_le_succ hk) hstart)

/-- **`walk` ends where the path leads**, if it may follow as many links. -/
theorem walk_eq_ok (hns : ns.Walkable) : ns.walk followFinal (n + 1) current cs = .ok r ↔
    ns.nodes[current]?.isSome ∧ ∃ k ≤ n, ns.Leads followFinal k current cs r := by
  constructor
  · intro h
    obtain ⟨hcurrent, k, hk, h⟩ := leads_of_walk h
    exact ⟨hcurrent, k, Nat.le_of_lt_succ hk, h⟩
  · rintro ⟨hcurrent, k, hk, h⟩
    exact h.walk hns hk hcurrent

/-- **A path leads where its parts lead after each other**, over the links of both. -/
theorem Leads.append (hxs : ns.Leads true k current xs m) (hys : ys ≠ [] ∨ followFinal = true)
    (h : ns.Leads followFinal n m ys r) : ns.Leads followFinal (k + n) current (xs ++ ys) r := by
  have hmore : ∀ rest : List Text, rest ++ ys ≠ [] ∨ followFinal = true := fun rest =>
    hys.imp_left (List.append_ne_nil_of_right_ne_nil rest)
  induction hxs with
  | done => rwa [Nat.zero_add]
  | go hgo _ ih => exact .go (hgo.imp fun _ => .inr rfl) (ih h)
  | @link k _ _ _ _ _ _ rest _ hc hkind htarget _ ih =>
    rw [Nat.add_right_comm]
    have h := ih h
    rw [List.append_assoc] at h
    exact .link hc ⟨hkind.1, hmore rest⟩ htarget h

theorem Leads.split (h : ns.Leads followFinal n current (xs ++ ys) r) (hys : ys ≠ []) :
    ∃ m k l, k + l = n ∧ ns.Leads true k current xs m ∧ ns.Leads followFinal l m ys r := by
  generalize hcs : xs ++ ys = cs at h
  have hmore : ∀ rest : List Text, rest ++ ys ≠ [] ∨ followFinal = true := fun rest =>
    .inl (List.append_ne_nil_of_right_ne_nil rest hys)
  induction h generalizing xs with
  | done => exact absurd (List.append_eq_nil_iff.mp hcs).2 hys
  | @go n _ _ _ _ _ hgo h ih =>
    rcases List.append_eq_cons_iff.mp hcs with ⟨rfl, rfl⟩ | ⟨xs, rfl, rfl⟩
    · exact ⟨_, 0, n, Nat.zero_add n, .done, .go hgo h⟩
    · obtain ⟨m, k, l, hkl, hxs, hys⟩ := ih rfl
      exact ⟨m, k, l, hkl, .go (hgo.imp fun _ => hmore xs) hxs, hys⟩
  | @link n _ _ _ _ _ components _ _ hc hkind htarget h ih =>
    rcases List.append_eq_cons_iff.mp hcs with ⟨rfl, rfl⟩ | ⟨xs, rfl, rfl⟩
    · exact ⟨_, 0, n + 1, Nat.zero_add _, .done, .link hc hkind htarget h⟩
    · obtain ⟨m, k, l, hkl, hxs, hys⟩ := ih (List.append_assoc components xs ys)
      exact ⟨m, k + 1, l, by omega, .link hc ⟨hkind.1, .inr rfl⟩ htarget hxs, hys⟩

/-! ### Component by component -/

variable {base parent : UInt64} {path name : Text}

theorem resolve_component_eq_ok (hns : ns.Walkable) (hc : validateComponent c = .ok ()) :
    ns.resolve base c = .ok m ↔
      ns.nodes[base]?.isSome ∧ ∃ k ≤ 40, ns.Leads true k base [c] m := by
  unfold resolve resolvePath
  rw [if_neg (component_ne_dots hc).1, validateRelativePath_component hc]
  exact walk_eq_ok hns

theorem leads_of_resolveAll (hns : ns.Walkable) (hcs : ∀ c ∈ cs, validateComponent c = .ok ())
    (hparent : ns.nodes[parent]?.isSome) (h : ns.resolveAll base cs = .ok parent) :
    ns.nodes[base]?.isSome ∧ ∃ k, ns.Leads true k base cs parent := by
  induction cs generalizing base with
  | nil =>
    obtain rfl := Except.ok.inj h
    exact ⟨hparent, 0, .done⟩
  | cons c cs ih =>
    obtain ⟨hc, hcs⟩ := List.forall_mem_cons.mp hcs
    obtain ⟨m, hresolve, h⟩ := except_bind_eq_ok.mp h
    obtain ⟨hbase, k, -, hm⟩ := (resolve_component_eq_ok hns hc).mp hresolve
    obtain ⟨-, l, h⟩ := ih hcs h
    exact ⟨hbase, k + l, hm.append (.inr rfl) h⟩

theorem resolveAll_of_leads (hns : ns.Walkable) (hcs : ∀ c ∈ cs, validateComponent c = .ok ())
    (hbase : ns.nodes[base]?.isSome) (hk : k ≤ 40)
    (h : ns.Leads followFinal k base (cs ++ [name]) r) :
    ∃ parent, ns.resolveAll base cs = .ok parent ∧ ∃ k, ns.Leads followFinal k parent [name] r := by
  induction cs generalizing base k with
  | nil => exact ⟨base, rfl, k, h⟩
  | cons c cs ih =>
    obtain ⟨hc, hcs⟩ := List.forall_mem_cons.mp hcs
    have h : ns.Leads followFinal k base ([c] ++ (cs ++ [name])) r := h
    obtain ⟨m, k, l, rfl, hm, h⟩ := h.split (by simp)
    obtain ⟨parent, hparent, h⟩ := ih hcs (hm.isSome hns hbase) (by omega) h
    refine ⟨parent, except_bind_eq_ok.mpr ⟨m, ?_, hparent⟩, h⟩
    exact (resolve_component_eq_ok hns hc).mpr ⟨hbase, k, by omega, hm⟩

/-- The last component, if it is not followed, is an entry of its directory. -/
theorem Leads.enters (h : ns.Leads followFinal k parent [name] r)
    (hname : validateComponent name = .ok ()) :
    ∃ child node, ns.Enters parent name child node ∧
      (node.kind ≠ .symlink ∨ followFinal = false → child = r) := by
  cases h with
  | go hgo h =>
    cases h
    cases hgo with
    | dot hdot => exact absurd hdot (component_ne_dots hname).1
    | up hup _ _ => exact absurd hup (component_ne_dots hname).2
    | enter hc _ => exact ⟨_, _, hc, fun _ => rfl⟩
  | link hc hkind _ _ =>
    obtain ⟨hlink, hnil | hfollow⟩ := hkind
    · exact absurd rfl hnil
    · exact ⟨_, _, hc, fun h => h.elim (absurd hlink) fun hnot => by simp [hfollow] at hnot⟩

/-! ### The two resolvers -/

theorem walkable_of_validate (h : ns.validateNamespace = .ok ()) : ns.Walkable := by
  unfold validateNamespace at h
  split at h
  · rename_i hvalid
    obtain ⟨-, hroot, -, hentries, -⟩ := hvalid
    have hentry : ∀ (key : DentryKey) (i : UInt64), ns.dentries[key]? = some i →
        ns.entryOk key i := fun key i hi =>
      List.all_eq_true.mp hentries (key, i) ((OrdMap.mem_toList _).mpr hi)
    simp only [entryOk, Bool.and_eq_true, isDirectory_eq_true] at hentry
    exact ⟨isDirectory_eq_true.mp hroot,
      fun key i hi => Option.isSome_iff_exists.mp (hentry key i hi).1.2,
      fun key i hi => (hentry key i hi).2⟩
  · cases h

/-- Wherever the path leads, it crosses at most 40 symbolic links. -/
def FewLinks (ns : Namespace) (base : UInt64) (path : Text) : Prop :=
  ∀ follow k r, ns.Leads follow k base path.split r →
    ∃ k ≤ 40, ns.Leads follow k base path.split r

theorem fewLinks_of_walk (hns : ns.Walkable)
    (h : ∀ follow, ∃ r, ns.walk follow 41 base path.split = .ok r) : ns.FewLinks base path := by
  intro follow k r hr
  obtain ⟨r', hwalk⟩ := h follow
  obtain ⟨hbase, n, hn, hleads⟩ := (walk_eq_ok hns).mp hwalk
  -- with enough steps, a walk ends where both lead
  have hmore := (hleads.walk hns (le_max_left n k) hbase).symm.trans
    (hr.walk hns (le_max_right n k) hbase)
  exact ⟨n, hn, Except.ok.inj hmore ▸ hleads⟩

/-- The walk along a path ends at its entry, unless it has to follow that. -/
theorem Walkable.walk_of_entry (hns : ns.Walkable) (hlinks : ns.FewLinks base path) {node}
    (followFinal : Bool)
    (hkey : ns.resolveParent base path = .ok key) (hi : ns.dentries[key]? = some i)
    (hnode : ns.nodes[i]? = some node) (hkind : ¬ (node.kind = .symlink ∧ followFinal = true)) :
    ∃ cs, validateRelativePath path = .ok cs ∧ ns.walk followFinal 41 base cs = .ok i := by
  obtain ⟨hdir, hname, cs, hpath, hparent⟩ := resolveParent_eq_ok hkey
  obtain ⟨hsplit, hcs⟩ := validateRelativePath_eq_ok hpath
  obtain ⟨hbase, k, hlead⟩ := leads_of_resolveAll hns
    (fun c hc => hcs c (List.mem_append_left _ hc)) (isSome_of_isDir hdir) hparent
  have hentry : ns.Enters key.parent key.name i node :=
    ⟨(component_ne_dots hname).1, (component_ne_dots hname).2, hdir, hi, hnode⟩
  have hlast : ns.Leads followFinal 0 key.parent [key.name] i :=
    .go (.enter hentry fun h => hkind ⟨h.1, h.2.resolve_left fun hnil => hnil rfl⟩) .done
  have hall := hlead.append (.inl (List.cons_ne_nil _ _)) hlast
  rw [hsplit] at hall hpath
  exact ⟨_, hpath, (walk_eq_ok hns).mpr ⟨hbase, hlinks _ _ _ hall⟩⟩

/-- **Both resolvers find one entry**: a path that crosses at most 40 symbolic links is found if
and only if its directory is, and has the entry. -/
theorem Walkable.resolveNoFollow_eq_ok (hns : ns.Walkable) (hlinks : ns.FewLinks base path) :
    ns.resolveNoFollow base path = .ok i ↔
      ∃ key, ns.resolveParent base path = .ok key ∧ ns.dentries[key]? = some i := by
  constructor
  · intro h
    obtain ⟨cs, hpath, h⟩ := except_bind_eq_ok.mp h
    obtain ⟨hsplit, hcs⟩ := validateRelativePath_eq_ok hpath
    obtain ⟨hbase, k, hk, h⟩ := (walk_eq_ok hns).mp h
    rcases List.eq_nil_or_concat cs with rfl | ⟨parents, name, rfl⟩
    · exact absurd hsplit.symm path.split_ne_nil
    rw [List.concat_eq_append] at *
    obtain ⟨hparents, hname⟩ := List.forall_mem_append.mp hcs
    obtain ⟨parent, hparent, k, h⟩ := resolveAll_of_leads hns hparents hbase hk h
    obtain ⟨child, node, hc, hi⟩ := h.enters (hname name (by simp))
    obtain rfl := hi (.inr rfl)
    refine ⟨⟨parent, name⟩, ?_, hc.entry⟩
    unfold resolveParent
    rw [hpath]
    simp only [bind, Except.bind, List.getLast?_concat, List.dropLast_concat, hparent,
      requireDirectory_eq_ok.mpr hc.dir]
    rfl
  · rintro ⟨key, hkey, hi⟩
    obtain ⟨n, hn⟩ := hns.child key i hi
    obtain ⟨cs, hpath, hwalk⟩ := hns.walk_of_entry hlinks false hkey hi hn
      fun h => Bool.false_ne_true h.2
    exact except_bind_eq_ok.mpr ⟨cs, hpath, hwalk⟩

/-- A path with a directory is not a dot. -/
theorem resolve_of_resolveParent (hkey : ns.resolveParent base path = .ok key) :
    ns.resolve base path = ns.resolvePath base path true := by
  unfold resolve
  rw [if_neg]
  intro hdot
  obtain ⟨-, -, cs, hpath, -⟩ := resolveParent_eq_ok hkey
  obtain ⟨hsplit, hcs⟩ := validateRelativePath_eq_ok hpath
  rw [Text.split_of_not_mem (by rw [hdot]; decide)] at hsplit
  exact (component_ne_dots (hcs path (hsplit ▸ List.mem_cons_self))).1 hdot

/-- An inode is no symbolic link. -/
def NoLink (ns : Namespace) (i : UInt64) : Prop := ∀ n, ns.nodes[i]? = some n → n.kind ≠ .symlink

theorem IsDir.noLink (h : ns.IsDir i) : ns.NoLink i := by
  obtain ⟨m, hm, hkind⟩ := h
  intro n hn
  rw [← Option.some.inj (hm.symm.trans hn), hkind]
  exact nofun

/-- A path whose links are followed does not lead to one. -/
theorem Leads.noLink (h : ns.Leads true k current cs r) (hns : ns.Walkable)
    (hcurrent : ns.NoLink current) : ns.NoLink r := by
  induction h with
  | done => exact hcurrent
  | go hgo _ ih =>
    refine ih ?_
    cases hgo with
    | dot => exact hcurrent
    | up _ _ hparent => exact (hns.directoryParent hparent).noLink
    | enter hc hkind =>
      intro n hn hlink
      rw [← Option.some.inj (hc.node.symm.trans hn)] at hlink
      exact hkind ⟨hlink, .inr rfl⟩
  | link hc _ htarget _ ih => exact ih (hns.linkTarget hc.dir htarget).noLink

/-- What a path resolves to is what its entry names, unless that is a symbolic link. -/
theorem Walkable.entry_of_resolve (hns : ns.Walkable) (hresolve : ns.resolve base path = .ok i)
    (hkey : ns.resolveParent base path = .ok key) :
    ∃ x n, ns.dentries[key]? = some x ∧ ns.nodes[x]? = some n ∧ (n.kind ≠ .symlink ↔ x = i) := by
  rw [resolve_of_resolveParent hkey] at hresolve
  obtain ⟨hdir, hname, cs, hpath, hparent⟩ := resolveParent_eq_ok hkey
  have hvalid := (validateRelativePath_eq_ok hpath).2
  unfold resolvePath at hresolve
  rw [hpath] at hresolve
  obtain ⟨hbase, k, hk, hleads⟩ := (walk_eq_ok hns).mp hresolve
  obtain ⟨parent, hparent', k, hleads⟩ := resolveAll_of_leads hns
    (fun c hc => hvalid c (List.mem_append_left _ hc)) hbase hk hleads
  obtain rfl : parent = key.parent := Except.ok.inj (hparent'.symm.trans hparent)
  obtain ⟨x, n, hc, hx⟩ := hleads.enters hname
  refine ⟨x, n, hc.entry, hc.node, fun hkind => hx (.inl hkind), ?_⟩
  rintro rfl
  exact hleads.noLink hns hdir.noLink n hc.node

/-! ### The entry of a path -/

end Namespace

namespace Bexfs

open Namespace

variable {ns : Namespace} {base : UInt64} {path : Text} {key : DentryKey}

/-- The entry that a path names is a symbolic link. -/
def namesLink (ns : Namespace) (base : UInt64) (path : Text) : Bool :=
  match ns.resolveParent base path with
  | .ok key => (ns.dentries[key]?.bind fun i => ns.nodes[i]?).any (·.kind = .symlink)
  | .error _ => false

/-- `resolve` finds the inode of the entry unless that is a symbolic link. -/
theorem resolve_eq_entry_iff (hns : ns.Walkable) (hlinks : ns.FewLinks base path)
    (hkey : ns.resolveParent base path = .ok key) :
    (∀ i, ns.resolve base path = .ok i ↔ ns.dentries[key]? = some i) ↔
      namesLink ns base path = false := by
  have hlink : namesLink ns base path = true ↔ ∃ x n, ns.dentries[key]? = some x ∧
      ns.nodes[x]? = some n ∧ n.kind = .symlink := by
    simp only [namesLink, hkey, Option.any_eq_true, Option.bind_eq_some_iff, decide_eq_true_eq]
    constructor
    · rintro ⟨n, ⟨x, hx, hn⟩, hkind⟩
      exact ⟨x, n, hx, hn, hkind⟩
    · rintro ⟨x, n, hx, hn, hkind⟩
      exact ⟨n, ⟨x, hx, hn⟩, hkind⟩
  rw [← Bool.not_eq_true, hlink]
  constructor
  · rintro hsame ⟨x, n, hx, hn, hkind⟩
    obtain ⟨x', n', hx', hn', hother⟩ := hns.entry_of_resolve ((hsame x).mpr hx) hkey
    obtain rfl := Option.some.inj (hx.symm.trans hx')
    obtain rfl := Option.some.inj (hn.symm.trans hn')
    exact hother.mpr rfl hkind
  · refine fun hfile i => ⟨fun h => ?_, fun hi => ?_⟩
    · obtain ⟨x, n, hx, hn, hsame⟩ := hns.entry_of_resolve h hkey
      exact hsame.mp (fun hkind => hfile ⟨x, n, hx, hn, hkind⟩) ▸ hx
    · obtain ⟨n, hn⟩ := hns.child key i hi
      obtain ⟨cs, hpath, hwalk⟩ := hns.walk_of_entry hlinks true hkey hi hn
        fun h => hfile ⟨i, n, hi, hn, h.1⟩
      rw [resolve_of_resolveParent hkey]
      exact except_bind_eq_ok.mpr ⟨cs, hpath, hwalk⟩

/-- Whatever the program returns, the entries are then so. -/
abbrev entriesAfter {α : Type} (x : NsM α) (ns : Namespace)
    (P : α → OrdMap DentryKey UInt64 → Prop) : Prop :=
  wp x (fun a t => P a t.dentries) (fun _ _ => True) ns

/-- What the operations do to the entries, where `key` is the entry of the path. -/
structure ActsOn (ns : Namespace) (base : UInt64) (path : Text) (key : DentryKey) : Prop where
  create : ∀ directory, entriesAfter (createPath base path directory) ns fun i dentries =>
    ns.dentries[key]? = none ∧ dentries = ns.dentries.insert key i
  linkTo : ∀ readOnly source, entriesAfter (link readOnly base source path) ns fun _ dentries =>
    ns.dentries[key]? = none ∧
      ∃ i, ns.resolveNoFollow base source = .ok i ∧ dentries = ns.dentries.insert key i
  linkFrom : ∀ readOnly target, entriesAfter (link readOnly base path target) ns fun _ dentries =>
    ∃ i other, ns.dentries[key]? = some i ∧ ns.resolveParent base target = .ok other ∧
      dentries = ns.dentries.insert other i
  unlink : ∀ readOnly, entriesAfter (unlink readOnly key.parent key.name) ns fun _ dentries =>
    ns.dentries[key]?.isSome ∧ dentries = ns.dentries.erase key
  removeTree : ∀ readOnly, entriesAfter (removeTree readOnly base path) ns fun _ dentries =>
    ns.dentries[key]?.isSome ∧ dentries[key]? = none
  rename : ∀ readOnly target, entriesAfter (rename readOnly base path target) ns fun _ dentries =>
    ∃ i other, ns.resolve base path = .ok i ∧ ns.resolveParent base target = .ok other ∧
      ∀ k, dentries[k]? = if k = other then some i else if k = key then none else ns.dentries[k]?

theorem dentries_detach (key i ns) : (detach key i ns).dentries = ns.dentries.erase key := by
  unfold detach removeUnlinkedInode
  split <;> rfl

theorem entriesAfter_link (readOnly) {source target} :
    entriesAfter (link readOnly base source target) ns fun _ dentries => ∃ i other,
      ns.resolveNoFollow base source = .ok i ∧ ns.resolveParent base target = .ok other ∧
        ns.dentries[other]? = none ∧ dentries = ns.dentries.insert other i := by
  simp only [Bexfs.link, wp_bind, wp_get, wp_lift, wp_check, wp_modify, implies_true, and_true]
  exact fun _ i hi _ other hother hfree =>
    ⟨i, other, hi, hother, Option.isNone_iff_eq_none.mp hfree, rfl⟩

theorem entriesAfter_replaceEntry (source target : DentryKey) (i kind) :
    entriesAfter (replaceEntry source target i kind) ns fun _ dentries => ∀ k,
      dentries[k]? = if k = target then some i else if k = source then none else ns.dentries[k]? := by
  have hmove : ∀ u : Namespace, (∀ k, k ≠ target → u.dentries[k]? = ns.dentries[k]?) →
      entriesAfter (moveEntry source target i) u fun _ dentries => ∀ k, dentries[k]? =
        if k = target then some i else if k = source then none else ns.dentries[k]? := by
    intro u hu
    simp only [moveEntry, wp_bind, wp_get, wp_check, wp_modify, implies_true, and_true]
    intro _ k
    rw [OrdMap.get_insert, OrdMap.get_erase]
    by_cases hk : k = target
    · rw [if_pos hk, if_pos hk]
    · rw [if_neg hk, if_neg hk, hu k hk]
  unfold entriesAfter replaceEntry
  rw [wp_bind, wp_get]
  split
  · exact hmove ns fun _ _ => rfl
  · rename_i replaced _ hreplaced
    rw [wp_ite]
    refine ⟨fun hstays => (wp_pure _).mpr fun k => ?_, fun _ => ?_⟩
    · -- the entry stays where it is
      obtain ⟨rfl, rfl⟩ := hstays
      obtain ⟨r, hr, hkind⟩ := Option.bind_eq_some_iff.mp hreplaced
      obtain ⟨n, -, heq⟩ := Option.map_eq_some_iff.mp hkind
      split
      · rename_i hk
        rw [hk, hr, (Prod.mk.inj heq).1]
      · rfl
    · simp only [wp_bind (check _ _ : NsM _), wp_check, implies_true, and_true]
      intro _ _ _
      rw [wp_bind, wp_modify]
      refine hmove _ fun k hk => ?_
      rw [dentries_detach, OrdMap.get_erase, if_neg hk]

theorem checkAncestors_state (ns source fuel a) (s : Namespace) :
    ends (checkAncestors ns source fuel a) (· = s) s := by
  induction fuel generalizing a with
  | zero => exact wp_halt.mpr trivial
  | succ fuel ih =>
    simp only [ends, checkAncestors, wp_ite, wp_fail, wp_pure, wp_bind, wp_lift, implies_true,
      true_and, and_true]
    exact fun _ _ parent _ => ih parent

theorem actsOn (hns : ns.Walkable) (hlinks : ns.FewLinks base path)
    (hkey : ns.resolveParent base path = .ok key) : ActsOn ns base path key := by
  constructor
  case create =>
    intro directory
    simp only [entriesAfter, createPath, addNode, hkey, wp_bind, wp_get, wp_lift_ok, wp_check,
      wp_some?, wp_modify, wp_pure, implies_true, and_true]
    exact fun hfree _ _ => Option.isNone_iff_eq_none.mp hfree
  case linkTo =>
    intro readOnly source
    refine wp_mono (entriesAfter_link readOnly) ?_ fun _ _ _ => trivial
    rintro _ t ⟨i, other, hi, hother, hfree, ht⟩
    obtain rfl := Except.ok.inj (hkey.symm.trans hother)
    exact ⟨hfree, i, hi, ht⟩
  -- the source of a hard link is looked up without following, so it is the entry
  case linkFrom =>
    intro readOnly target
    refine wp_mono (entriesAfter_link readOnly) ?_ fun _ _ _ => trivial
    rintro _ t ⟨i, other, hi, hother, -, ht⟩
    obtain ⟨key', hkey', hentry⟩ := (hns.resolveNoFollow_eq_ok hlinks).mp hi
    obtain rfl := Except.ok.inj (hkey.symm.trans hkey')
    exact ⟨i, other, hentry, hother, ht⟩
  case unlink =>
    intro readOnly
    simp only [Bexfs.unlink, wp_bind, wp_get, wp_lift, wp_check, wp_some?, wp_modify, implies_true,
      and_true]
    exact fun _ _ _ _ _ i hi _ => ⟨Option.isSome_of_eq_some hi, dentries_detach key i ns⟩
  case removeTree =>
    intro readOnly
    simp only [Bexfs.removeTree, removeTreeEntry, hkey, wp_bind, wp_get, wp_lift_ok, wp_check,
      wp_some?, implies_true, and_true]
    intro _ i hi
    refine wp_mono (wp_true _) (fun _ u _ => (wp_modify _).mpr ?_) fun _ _ _ => trivial
    rw [dentries_detach, OrdMap.get_erase, if_pos rfl]
    exact ⟨Option.isSome_of_eq_some hi, rfl⟩
  -- what is moved is what `resolve` finds, which may be the end of a symbolic link
  case rename =>
    intro readOnly target
    simp only [Bexfs.rename, wp_bind, wp_get, wp_lift, wp_check, wp_some?, wp_when, implies_true,
      and_true]
    intro _ i hi _ key' hkey' other hother n _
    obtain rfl := Except.ok.inj (hkey.symm.trans hkey')
    have hmoved : ∀ u : Namespace, u = ns → entriesAfter (replaceEntry key other i n.kind) u
        fun _ dentries => ∃ i other, ns.resolve base path = .ok i ∧
          ns.resolveParent base target = .ok other ∧ ∀ k, dentries[k]? =
            if k = other then some i else if k = key then none else ns.dentries[k]? := by
      rintro _ rfl
      exact wp_mono (entriesAfter_replaceEntry key other i n.kind)
        (fun _ _ h => ⟨i, other, hi, hother, h⟩) fun _ _ _ => trivial
    exact ⟨fun _ => wp_mono (checkAncestors_state _ _ _ _ _) (fun _ => hmoved) fun _ _ _ => trivial,
      fun _ => hmoved ns rfl⟩

/-- **The operations act on the entry of the path**, and `resolve`, which tells `rename` what to
move, finds what that entry names if and only if the entry is no symbolic link. -/
theorem operations_on_entry (hvalid : ns.validateNamespace = .ok ())
    (hlinks : ns.FewLinks base path) :
    (∀ i, ns.resolveNoFollow base path = .ok i ↔
      ∃ key, ns.resolveParent base path = .ok key ∧ ns.dentries[key]? = some i) ∧
    ∀ key, ns.resolveParent base path = .ok key → ActsOn ns base path key ∧
      ((∀ i, ns.resolve base path = .ok i ↔ ns.dentries[key]? = some i) ↔
        namesLink ns base path = false) := by
  have hns := walkable_of_validate hvalid
  exact ⟨fun i => hns.resolveNoFollow_eq_ok hlinks,
    fun key hkey => ⟨actsOn hns hlinks hkey, resolve_eq_entry_iff hns hlinks hkey⟩⟩

/-- A symbolic link to the file, and another name. -/
def linkName : Text := ⟨ascii "l", by decide⟩
def newName : Text := ⟨ascii "m", by decide⟩

def linkedFile : List FsOp :=
  [.openFile ROOT_INODE fileName 0x8, .symlink ROOT_INODE fileName linkName]

/-- A run leads to a reachable namespace, and what it shows of it holds. -/
theorem exists_reaches_of_run (C : Namespace → FsOp → Prop) [∀ ns op, Decidable (C ns op)]
    (P : Namespace → Prop) [DecidablePred P] (ops : List FsOp)
    (h : (runAll (step false) (fun ns op => decide (C ns op)) ops Namespace.empty).any
      (fun ns => decide (P ns)) = true) :
    ∃ ns, Reaches false C ns ∧ P ns :=
  exists_steps C ops h

/-- The link has inode 3 and leads to the file, inode 2; its new name is one of the file. -/
theorem renamed_link_names_file : ∃ ns, Reaches false (fun _ _ => True) ns ∧
    ns.validateNamespace = .ok () ∧ ns.resolveNoFollow ROOT_INODE linkName = .ok 3 ∧
    ((rename false ROOT_INODE linkName newName ns).returned?.any fun r =>
      r.2.resolveNoFollow ROOT_INODE newName = .ok 2 ∧
        r.2.resolveNoFollow ROOT_INODE linkName = .error .notFound) = true :=
  exists_reaches_of_run _ _ linkedFile (by decide +kernel)

/-- A file in a directory, and a symbolic link to that directory. -/
def linkedDirectory : List FsOp :=
  [.openFile ROOT_INODE newName 0x28, .openFile ROOT_INODE ⟨ascii "m/f", by decide⟩ 0x8,
    .symlink ROOT_INODE newName linkName]

/-- The path of the file over the link. -/
def throughLink : Text := ⟨ascii "l/f", by decide⟩

/-- The entry found over a link is that of the directory it leads to. -/
theorem operations_on_entry_through_link : ∃ ns : Namespace,
    ns.resolveNoFollow ROOT_INODE throughLink = .ok 3 ∧ ActsOn ns ROOT_INODE throughLink ⟨2, fileName⟩ ∧
      ∀ i, ns.resolve ROOT_INODE throughLink = .ok i ↔
        ns.dentries[(⟨2, fileName⟩ : DentryKey)]? = some i := by
  obtain ⟨ns, -, hvalid, hfound, hparent, hlink, hwalk⟩ := exists_reaches_of_run (fun _ _ => True)
    (fun ns => ns.validateNamespace = .ok () ∧
      ns.resolveNoFollow ROOT_INODE throughLink = .ok 3 ∧
      ns.resolveParent ROOT_INODE throughLink = .ok ⟨2, fileName⟩ ∧
      namesLink ns ROOT_INODE throughLink = false ∧
      ∀ follow, ns.walk follow 41 ROOT_INODE throughLink.split = .ok 3)
    linkedDirectory (by decide +kernel)
  have hlinks := fewLinks_of_walk (walkable_of_validate hvalid) fun follow => ⟨3, hwalk follow⟩
  obtain ⟨hacts, hsame⟩ := (operations_on_entry hvalid hlinks).2 _ hparent
  exact ⟨ns, hfound, hacts, hsame.mpr hlink⟩

end Bexfs

end Bexos
