/-
Which BexFS namespaces can be mounted again.

`mount` refuses a namespace that does not pass `validate_namespace`.  The operations keep a
stronger invariant, `WellFormed`: the directory entries form a hierarchy below the root
inode, every inode has an entry, and each inode's record is in order.

* `WellFormed.validate` — a well-formed namespace passes;
* `wf_addNode`, `wf_detach`, `wf_addLink`, `wf_move` — what the operations do to entries keeps
  the invariant;
* `wp_rename` — so does `rename`, unless its source is a symbolic link;
* `reached_valid` — every namespace reached without a rename of a symbolic link is valid.

Design notes: `rename` follows a symbolic link in its source to find the inode and takes the
entry of the link itself, so the link's inode is left without an entry.
-/
import Bexos.BexfsPaths
import Bexos.Hierarchy

namespace Bexos

open Prog

/-! ### The invariant -/

/-- What the operations keep of an inode's record. -/
structure Node.Tidy (n : Node) (inode : UInt64) : Prop where
  inode_eq : n.inode = inode
  size : n.attributes.sizeBytes = n.data.len
  allocated : n.attributes.storageAllocatedBytes = n.data.allocatedBytes
  directory : n.kind = .directory → n.data.extents = ∅
  xattr : ∀ name value, n.xattrs[name]? = some value →
    validateXattrName name = .ok () ∧ value.length ≤ 65536

namespace Namespace

variable {ns : Namespace} {i : UInt64} {key : DentryKey} {cs : List Text}

/-- An entry of the directory `p` names `i`. -/
def Holds (ns : Namespace) (p i : UInt64) : Prop :=
  ∃ name, ns.dentries[(⟨p, name⟩ : DentryKey)]? = some i

/-- Directory entries form a hierarchy, and inodes have entries. -/
structure WellFormed (ns : Namespace) : Prop where
  next : ROOT_INODE < ns.nextInode
  root : ns.IsDir ROOT_INODE
  node : ∀ i n, ns.nodes[i]? = some n → n.Tidy i ∧ i < ns.nextInode
  name : ∀ (key : DentryKey) (i : UInt64), ns.dentries[key]? = some i →
    validateComponent key.name = .ok ()
  child : ∀ (key : DentryKey) (i : UInt64), ns.dentries[key]? = some i →
    i ≠ ROOT_INODE ∧ ∃ n, ns.nodes[i]? = some n
  parent : ∀ (key : DentryKey) (i : UInt64), ns.dentries[key]? = some i → ns.IsDir key.parent
  linked : ∀ i n, ns.nodes[i]? = some n → i ≠ ROOT_INODE →
    ∃ key : DentryKey, ns.dentries[key]? = some i
  single : ∀ i, ns.IsDir i → ∀ k k' : DentryKey, ns.dentries[k]? = some i →
    ns.dentries[k']? = some i → k = k'
  grounded : ∀ i, ns.IsDir i → ∃ k, Depth ns.Holds ROOT_INODE i k

/-- The directories below the root. -/
theorem WellFormed.hierarchy (h : ns.WellFormed) : Hierarchy ns.Holds ROOT_INODE ns.IsDir where
  top := fun _ ⟨_, hentry⟩ => (h.child _ _ hentry).1 rfl
  inner_of_edge := fun _ _ ⟨_, hentry⟩ => h.parent _ _ hentry
  unique := fun i hi _ _ ⟨_, hp⟩ ⟨_, hq⟩ => congrArg DentryKey.parent (h.single i hi _ _ hp hq)

variable {k : ℕ} {nodes : OrdMap UInt64 Node}

/-- Every inode is less deep than there are inodes. -/
theorem WellFormed.depth_lt (h : ns.WellFormed) (hi : Depth ns.Holds ROOT_INODE i k) :
    k < ns.nodes.size := by
  have hmem : ∀ {i n}, ns.nodes[i]? = some n → i ∈ ns.nodes.keys := fun {i n} hn => by
    rw [Std.ExtTreeMap.mem_keys, ← Std.ExtTreeMap.isSome_getElem?_iff_mem, hn]
    rfl
  rw [← Std.ExtTreeMap.length_keys]
  refine h.hierarchy.depth_lt ?_ ?_ hi
  · obtain ⟨n, hn, -⟩ := h.root
    exact hmem hn
  · rintro p i ⟨name, hentry⟩
    obtain ⟨-, n, hn⟩ := h.child _ _ hentry
    exact hmem hn

/-! ### A well-formed namespace is valid -/

theorem exists_entryOf (h : ns.dentries[key]? = some i) : ∃ key', ns.entryOf i = some key' := by
  unfold entryOf
  cases hfind : ns.dentries.toList.find? fun e => e.2 == i with
  | some e => exact ⟨e.1, rfl⟩
  | none =>
    have hnot := List.find?_eq_none.mp hfind (key, i) ((OrdMap.mem_toList _).mpr h)
    exact absurd (beq_self_eq_true i) hnot

/-- The climb from a directory ends at the root, if it may take as many steps as it is
deep. -/
theorem WellFormed.climb (h : ns.WellFormed) {steps} (hi : Depth ns.Holds ROOT_INODE i k)
    (hdir : ns.IsDir i) (hk : k ≤ steps) : ns.climb steps i = some ROOT_INODE := by
  induction hi generalizing steps with
  | root => cases steps <;> simp [Namespace.climb]
  | @step p i k hedge hp ih =>
    obtain ⟨steps, rfl⟩ := Nat.exists_eq_succ_of_ne_zero (show steps ≠ 0 by omega)
    obtain ⟨name, hentry⟩ := hedge
    obtain ⟨key, hkey⟩ := exists_entryOf hentry
    have hsame := h.single i hdir _ _ (entryOf_eq_some hkey) hentry
    rw [Namespace.climb, if_neg (h.child _ _ hentry).1, hkey, hsame]
    exact ih (h.parent _ _ hentry) (Nat.le_of_succ_le_succ hk)

theorem links_pos (h : ns.dentries[key]? = some i) : ns.links i ≠ 0 := by
  unfold links
  rw [Ne, List.countP_eq_zero]
  exact fun hall => hall (key, i) ((OrdMap.mem_toList _).mpr h) (beq_self_eq_true i)

/-- An inode with one entry has one link. -/
theorem links_eq_one (h : ns.dentries[key]? = some i)
    (hsingle : ∀ key' : DentryKey, ns.dentries[key']? = some i → key' = key) :
    ns.links i = 1 := by
  have hnodup : ns.dentries.toList.Nodup :=
    Std.ExtTreeMap.distinct_keys_toList.imp fun hne heq => hne (by rw [heq, Std.compare_self])
  have hcount : ns.links i = ns.dentries.toList.count (key, i) := by
    unfold links
    refine List.countP_congr fun e he => ?_
    obtain ⟨key', j⟩ := e
    constructor
    · intro hj
      obtain rfl := beq_iff_eq.mp hj
      obtain rfl := hsingle key' ((OrdMap.mem_toList _).mp he)
      exact beq_self_eq_true _
    · intro heq
      rw [← (Prod.mk.inj (beq_iff_eq.mp heq)).2]
      exact beq_self_eq_true _
  rw [hcount]
  exact List.count_eq_one_of_mem hnodup ((OrdMap.mem_toList _).mpr h)

/-- **A well-formed namespace is valid.** -/
theorem WellFormed.validate (h : ns.WellFormed) : ns.validateNamespace = .ok () := by
  unfold validateNamespace
  refine if_pos ⟨h.next, isDirectory_eq_true.mpr h.root, ?_, ?_, ?_, ?_⟩
  · rw [List.all_eq_true]
    rintro ⟨i, n⟩ hmem
    obtain ⟨htidy, hlt⟩ := h.node i n ((OrdMap.mem_toList _).mp hmem)
    simp only [nodeOk, htidy.inode_eq, htidy.size, hlt, decide_true, Bool.or_true, Bool.and_self]
  · rw [List.all_eq_true]
    rintro ⟨key, i⟩ hmem
    have hentry := (OrdMap.mem_toList _).mp hmem
    obtain ⟨hne, n, hn⟩ := h.child key i hentry
    have hdir := isDirectory_eq_true.mpr (h.parent key i hentry)
    simp only [entryOk, h.name key i hentry, hn, hdir, hne, ne_eq, not_false_eq_true, decide_true,
      Option.isSome_some, Bool.and_self, Except.isOk, Except.toBool]
  · rw [List.all_eq_true]
    rintro ⟨i, n⟩ hmem
    have hn := (OrdMap.mem_toList _).mp hmem
    by_cases hroot : i = ROOT_INODE
    · simp [linksOk, hroot]
    · obtain ⟨key, hentry⟩ := h.linked i n hn hroot
      have hpos := links_pos hentry
      by_cases hdir : n.kind = .directory
      · have hone := links_eq_one hentry fun key' h' =>
          h.single i ⟨n, hn, hdir⟩ key' key h' hentry
        simp [linksOk, hone]
      · simp [linksOk, hpos, hdir]
  · rw [List.all_eq_true]
    rintro ⟨i, n⟩ hmem
    have hn := (OrdMap.mem_toList _).mp hmem
    obtain ⟨htidy, -⟩ := h.node i n hn
    by_cases hdir : n.kind = .directory
    · obtain ⟨k, hk⟩ := h.grounded i ⟨n, hn, hdir⟩
      have hclimb := h.climb hk ⟨n, hn, hdir⟩ (h.depth_lt hk).le
      simp [htidy.inode_eq, hclimb]
    · simp [hdir]

/-! ### Changes of a namespace -/

theorem isDir_iff : ns.IsDir i ↔ (ns.nodes[i]?).map Node.kind = some .directory := by
  unfold IsDir
  rw [Option.map_eq_some_iff]

/-- Records of inodes may change as long as their kinds stay. -/
theorem WellFormed.of_nodes (h : ns.WellFormed)
    (hkind : ∀ j : UInt64, (nodes[j]?).map Node.kind = (ns.nodes[j]?).map Node.kind)
    (htidy : ∀ (j : UInt64) (n : Node), nodes[j]? = some n → n.Tidy j) :
    { ns with nodes := nodes : Namespace }.WellFormed := by
  have hdir : ∀ i, { ns with nodes := nodes : Namespace }.IsDir i ↔ ns.IsDir i := fun i => by
    rw [isDir_iff, isDir_iff]
    exact iff_of_eq (congrArg (· = _) (hkind i))
  have hnode : ∀ i : UInt64, (∃ n, nodes[i]? = some n) ↔ ∃ n, ns.nodes[i]? = some n := fun i => by
    have := hkind i
    cases hnew : nodes[i]? <;> cases hold : ns.nodes[i]? <;> simp_all
  refine ⟨h.next, (hdir _).mpr h.root, fun i n hn => ⟨htidy i n hn, ?_⟩, h.name,
    fun key i hentry => ⟨(h.child key i hentry).1, (hnode i).mpr (h.child key i hentry).2⟩,
    fun key i hentry => (hdir _).mpr (h.parent key i hentry), fun i n hn hroot => ?_,
    fun i hi => h.single i ((hdir i).mp hi), fun i hi => h.grounded i ((hdir i).mp hi)⟩
  · obtain ⟨m, hm⟩ := (hnode i).mp ⟨n, hn⟩
    exact (h.node i m hm).2
  · obtain ⟨m, hm⟩ := (hnode i).mp ⟨n, hn⟩
    exact h.linked i m hm hroot

theorem wf_modifyNode (h : ns.WellFormed) {f : Node → Node}
    (hf : ∀ n, ns.nodes[i]? = some n → n.Tidy i → (f n).Tidy i ∧ (f n).kind = n.kind) :
    (Bexfs.modifyNode i f ns).WellFormed := by
  unfold Bexfs.modifyNode
  cases hn : ns.nodes[i]? with
  | none => exact h
  | some n =>
    obtain ⟨htidy, hkind⟩ := hf n hn (h.node i n hn).1
    refine h.of_nodes (fun j => ?_) fun j m hm => ?_
    · rw [OrdMap.get_insert]
      split
      · rename_i hji
        rw [hji, hn, Option.map_some, Option.map_some, hkind]
      · rfl
    · rcases OrdMap.get_insert_eq_some.mp hm with ⟨rfl, rfl⟩ | ⟨-, hm⟩
      · exact htidy
      · exact (h.node j m hm).1

/-- A new inode with its entry. -/
theorem wf_addNode (h : ns.WellFormed) {next n} (hfree : ns.dentries[key]? = none)
    (hparent : ns.IsDir key.parent) (hname : validateComponent key.name = .ok ())
    (hnext : ns.nextInode < next) (htidy : n.Tidy ns.nextInode) :
    { nextInode := next
      nodes := ns.nodes.insert ns.nextInode n
      dentries := ns.dentries.insert key ns.nextInode : Namespace }.WellFormed := by
  have hfresh : ns.nodes[ns.nextInode]? = none := by
    cases hm : ns.nodes[ns.nextInode]? with
    | none => rfl
    | some m => exact absurd (h.node _ m hm).2 (UInt64.lt_irrefl _)
  have hold : ∀ {i m}, ns.nodes[i]? = some m → (ns.nodes.insert ns.nextInode n)[i]? = some m :=
    OrdMap.get_insert_of_get n hfresh
  have hkept : ∀ {k : DentryKey} {i}, ns.dentries[k]? = some i →
      (ns.dentries.insert key ns.nextInode)[k]? = some i := OrdMap.get_insert_of_get _ hfree
  have hadded := OrdMap.get_insert_eq_some (m := ns.dentries) (k := key).mpr
    (.inl ⟨rfl, rfl⟩ : key = key ∧ ns.nextInode = ns.nextInode ∨ _)
  -- the only entry of the new inode is the new one
  have hnew : ∀ {k : DentryKey}, ns.dentries[k]? ≠ some ns.nextInode := fun {k} hk => by
    obtain ⟨-, m, hm⟩ := h.child k _ hk
    rw [hfresh] at hm
    cases hm
  refine ⟨UInt64.lt_trans h.next hnext, ?_, fun i m hm => ?_, fun k i hk => ?_, fun k i hk => ?_,
    fun k i hk => ?_, fun i m hm hroot => ?_, fun i hi k k' hk hk' => ?_, fun i hi => ?_⟩
  · obtain ⟨m, hm, hkind⟩ := h.root
    exact ⟨m, hold hm, hkind⟩
  · rcases OrdMap.get_insert_eq_some.mp hm with ⟨rfl, rfl⟩ | ⟨-, hm⟩
    · exact ⟨htidy, hnext⟩
    · exact ⟨(h.node i m hm).1, UInt64.lt_trans (h.node i m hm).2 hnext⟩
  · rcases OrdMap.get_insert_eq_some.mp hk with ⟨rfl, -⟩ | ⟨-, hk⟩
    · exact hname
    · exact h.name k i hk
  · rcases OrdMap.get_insert_eq_some.mp hk with ⟨-, rfl⟩ | ⟨-, hk⟩
    · exact ⟨(UInt64.ne_of_lt h.next).symm, n, OrdMap.get_insert_eq_some.mpr (.inl ⟨rfl, rfl⟩)⟩
    · obtain ⟨hne, m, hm⟩ := h.child k i hk
      exact ⟨hne, m, hold hm⟩
  · have hdir : ns.IsDir k.parent := by
      rcases OrdMap.get_insert_eq_some.mp hk with ⟨rfl, -⟩ | ⟨-, hk⟩
      · exact hparent
      · exact h.parent k i hk
    obtain ⟨m, hm, hkind⟩ := hdir
    exact ⟨m, hold hm, hkind⟩
  · rcases OrdMap.get_insert_eq_some.mp hm with ⟨rfl, -⟩ | ⟨-, hm⟩
    · exact ⟨key, hadded⟩
    · obtain ⟨k, hk⟩ := h.linked i m hm hroot
      exact ⟨k, hkept hk⟩
  · rcases OrdMap.get_insert_eq_some.mp hk with ⟨rfl, rfl⟩ | ⟨-, hk⟩
    · rcases OrdMap.get_insert_eq_some.mp hk' with ⟨rfl, -⟩ | ⟨-, hk'⟩
      · rfl
      · exact absurd hk' hnew
    · rcases OrdMap.get_insert_eq_some.mp hk' with ⟨-, rfl⟩ | ⟨-, hk'⟩
      · exact absurd hk hnew
      · obtain ⟨m, hm, hkind⟩ := hi
        rcases OrdMap.get_insert_eq_some.mp hm with ⟨rfl, -⟩ | ⟨-, hm⟩
        · exact absurd hk hnew
        · exact h.single i ⟨m, hm, hkind⟩ k k' hk hk'
  · have hedge : ∀ p i, ns.Holds p i →
        ∃ name, (ns.dentries.insert key ns.nextInode)[(⟨p, name⟩ : DentryKey)]? = some i :=
      fun p i ⟨name, hk⟩ => ⟨name, hkept hk⟩
    obtain ⟨m, hm, hkind⟩ := hi
    rcases OrdMap.get_insert_eq_some.mp hm with ⟨rfl, -⟩ | ⟨-, hm⟩
    · obtain ⟨d, hd⟩ := h.grounded _ hparent
      exact ⟨d + 1, .step ⟨key.name, hadded⟩ (hd.mono hedge)⟩
    · obtain ⟨d, hd⟩ := h.grounded i ⟨m, hm, hkind⟩
      exact ⟨d, hd.mono hedge⟩

/-- Entries may change as long as every inode keeps one, a directory has no second one, and
directories stay below the root. -/
theorem WellFormed.of_dentries (h : ns.WellFormed) {dentries : OrdMap DentryKey UInt64}
    (hnew : ∀ (key : DentryKey) (i : UInt64), dentries[key]? = some i →
      ns.dentries[key]? = some i ∨ validateComponent key.name = .ok () ∧ ns.IsDir key.parent ∧
        i ≠ ROOT_INODE ∧ ∃ n, ns.nodes[i]? = some n)
    (hlinked : ∀ (key : DentryKey) (i : UInt64), ns.dentries[key]? = some i →
      ∃ key' : DentryKey, dentries[key']? = some i)
    (hsingle : ∀ i, ns.IsDir i → ∀ k k' : DentryKey, dentries[k]? = some i →
      dentries[k']? = some i → k = k')
    (hgrounded : ∀ i k, ns.IsDir i → Depth ns.Holds ROOT_INODE i k →
      ∃ k', Depth { ns with dentries := dentries : Namespace }.Holds ROOT_INODE i k') :
    { ns with dentries := dentries : Namespace }.WellFormed := by
  refine ⟨h.next, h.root, h.node, fun key i hk => ?_, fun key i hk => ?_, fun key i hk => ?_,
    fun i n hn hroot => ?_, hsingle, fun i hi => ?_⟩
  · rcases hnew key i hk with hold | ⟨hname, -, -, -⟩
    · exact h.name key i hold
    · exact hname
  · rcases hnew key i hk with hold | ⟨-, -, hchild⟩
    · exact h.child key i hold
    · exact hchild
  · rcases hnew key i hk with hold | ⟨-, hparent, -, -⟩
    · exact h.parent key i hold
    · exact hparent
  · obtain ⟨key, hk⟩ := h.linked i n hn hroot
    exact hlinked key i hk
  · obtain ⟨k, hk⟩ := h.grounded i hi
    exact hgrounded i k hi hk

/-- Another entry for an inode that is not a directory. -/
theorem wf_addLink (h : ns.WellFormed) {n} (hfree : ns.dentries[key]? = none)
    (hparent : ns.IsDir key.parent) (hname : validateComponent key.name = .ok ())
    (hn : ns.nodes[i]? = some n) (hkind : n.kind ≠ .directory) :
    { ns with dentries := ns.dentries.insert key i : Namespace }.WellFormed := by
  have hnot : ¬ ns.IsDir i := fun ⟨m, hm, hdir⟩ => by
    rw [hn] at hm
    exact hkind (Option.some.inj hm ▸ hdir)
  have hkept : ∀ {k : DentryKey} {j}, ns.dentries[k]? = some j →
      (ns.dentries.insert key i)[k]? = some j := OrdMap.get_insert_of_get i hfree
  refine h.of_dentries (fun k j hk => ?_) (fun k j hk => ⟨k, hkept hk⟩)
    (fun j hj k k' hk hk' => ?_) fun j d _ hd => ⟨d, hd.mono fun p x ⟨name, hk⟩ => ⟨name, hkept hk⟩⟩
  · rcases OrdMap.get_insert_eq_some.mp hk with ⟨rfl, rfl⟩ | ⟨-, hk⟩
    · exact .inr ⟨hname, hparent, fun hroot => hnot (hroot ▸ h.root), n, hn⟩
    · exact .inl hk
  · have hback : ∀ {k : DentryKey}, (ns.dentries.insert key i)[k]? = some j →
        ns.dentries[k]? = some j := fun {k} hk => by
      rcases OrdMap.get_insert_eq_some.mp hk with ⟨-, rfl⟩ | ⟨-, hk⟩
      · exact absurd hj hnot
      · exact hk
    exact h.single j hj k k' (hback hk) (hback hk')

/-- A directory without entries. -/
def Childless (ns : Namespace) (i : UInt64) : Prop :=
  ∀ (key : DentryKey) (x : UInt64), ns.dentries[key]? = some x → key.parent ≠ i

theorem hasChildren_eq_false : ns.hasChildren i = false ↔ ns.Childless i := by
  unfold hasChildren Childless
  rw [List.any_eq_false]
  constructor
  · intro hall key x hx heq
    exact hall (key, x) ((OrdMap.mem_toList _).mpr hx) (beq_iff_eq.mpr heq)
  · rintro hall ⟨key, x⟩ hmem heq
    exact hall key x ((OrdMap.mem_toList _).mp hmem) (beq_iff_eq.mp heq)

/-- The way to other inodes does not lead along the entry of an inode without children. -/
theorem depth_erase (hentry : ns.dentries[key]? = some i) (hchildless : ns.Childless i) {j}
    (hj : Depth ns.Holds ROOT_INODE j k) (hne : j ≠ i) :
    Depth { ns with nodes := nodes, dentries := ns.dentries.erase key : Namespace }.Holds
      ROOT_INODE j k := by
  refine hj.mono_on (P := fun x => x ≠ i) (fun p x hx hxi => ?_) hne
  obtain ⟨name, hx⟩ := hx
  exact ⟨⟨name, OrdMap.get_erase_of_ne hentry hx hxi⟩, hchildless _ _ hx⟩

/-- An entry is removed, with its inode if it has no other entry. -/
theorem wf_detach (h : ns.WellFormed) (hentry : ns.dentries[key]? = some i)
    (hchildless : ns.Childless i) :
    (Bexfs.detach key i ns).WellFormed := by
  have hback : ∀ {k : DentryKey} {j}, (ns.dentries.erase key)[k]? = some j →
      k ≠ key ∧ ns.dentries[k]? = some j := OrdMap.get_erase_eq_some.mp
  have hkept : ∀ {k : DentryKey} {j}, ns.dentries[k]? = some j → j ≠ i →
      (ns.dentries.erase key)[k]? = some j := OrdMap.get_erase_of_ne hentry
  unfold Bexfs.detach Bexfs.removeUnlinkedInode
  by_cases hother : (ns.dentries.erase key).toList.any (fun e => e.2 == i) = true
  · -- another entry names the inode, so it is not a directory
    rw [if_pos (.inr hother)]
    obtain ⟨⟨key', x⟩, hmem, hx⟩ := List.any_eq_true.mp hother
    obtain rfl : x = i := beq_iff_eq.mp hx
    have hkey' := (OrdMap.mem_toList _).mp hmem
    obtain ⟨hne, hold⟩ := hback hkey'
    have hnot : ¬ ns.IsDir x := fun hdir => hne (h.single x hdir key' key hold hentry)
    refine h.of_dentries (fun k j hk => .inl (hback hk).2) (fun k j hk => ?_)
      (fun j hj k k' hk hk' => h.single j hj k k' (hback hk).2 (hback hk').2) fun j d hj hd =>
        ⟨d, depth_erase hentry hchildless hd fun heq => hnot (heq ▸ hj)⟩
    by_cases hj : j = x
    · exact ⟨key', hj ▸ hkey'⟩
    · exact ⟨k, hkept hk hj⟩
  · -- the inode goes with its last entry
    have hroot : i ≠ ROOT_INODE := (h.child key i hentry).1
    rw [if_neg fun hor => hor.elim hroot hother]
    have hnone : ∀ {k : DentryKey}, (ns.dentries.erase key)[k]? ≠ some i := fun {k} hk =>
      hother (List.any_eq_true.mpr ⟨(k, i), (OrdMap.mem_toList _).mpr hk, beq_self_eq_true i⟩)
    have hnode : ∀ {j m}, (ns.nodes.erase i)[j]? = some m ↔ j ≠ i ∧ ns.nodes[j]? = some m :=
      OrdMap.get_erase_eq_some
    have hdir : ∀ {j}, ns.IsDir j → j ≠ i →
        { ns with nodes := ns.nodes.erase i, dentries := ns.dentries.erase key : Namespace }.IsDir j :=
      fun {j} ⟨m, hm, hkind⟩ hne => ⟨m, hnode.mpr ⟨hne, hm⟩, hkind⟩
    refine ⟨h.next, hdir h.root (Ne.symm hroot), fun j m hm => h.node j m (hnode.mp hm).2,
      fun k j hk => h.name k j (hback hk).2, fun k j hk => ?_,
      fun k j hk => hdir (h.parent k j (hback hk).2) (hchildless k j (hback hk).2),
      fun j m hm hjroot => ?_,
      fun j ⟨m, hm, hkind⟩ k k' hk hk' =>
        h.single j ⟨m, (hnode.mp hm).2, hkind⟩ k k' (hback hk).2 (hback hk').2,
      fun j ⟨m, hm, hkind⟩ => ?_⟩
    · obtain ⟨hne, m, hm⟩ := h.child k j (hback hk).2
      exact ⟨hne, m, hnode.mpr ⟨fun heq => hnone (heq ▸ hk), hm⟩⟩
    · obtain ⟨hne, hm⟩ := hnode.mp hm
      obtain ⟨k, hk⟩ := h.linked j m hm hjroot
      exact ⟨k, hkept hk hne⟩
    · obtain ⟨hne, hm⟩ := hnode.mp hm
      obtain ⟨d, hd⟩ := h.grounded j ⟨m, hm, hkind⟩
      exact ⟨d, depth_erase hentry hchildless hd hne⟩

/-- The way from the root to a directory does not lead through an inode. -/
def Avoids (ns : Namespace) (i directory : UInt64) : Prop :=
  ∃ j, Depth (fun p x => ns.Holds p x ∧ x ≠ i) ROOT_INODE directory j

/-- An entry is replaced by one elsewhere, for a directory not below itself. -/
theorem wf_move (h : ns.WellFormed) {source target} (hsource : ns.dentries[source]? = some i)
    (hfree : ns.dentries[target]? = none) (hparent : ns.IsDir target.parent)
    (hname : validateComponent target.name = .ok ())
    (habove : ns.IsDir i → ns.Avoids i target.parent) :
    { ns with dentries := (ns.dentries.erase source).insert target i : Namespace }.WellFormed := by
  have hget : ∀ {k : DentryKey} {j}, ((ns.dentries.erase source).insert target i)[k]? = some j ↔
      k = target ∧ i = j ∨ k ≠ target ∧ k ≠ source ∧ ns.dentries[k]? = some j := fun {k j} => by
    rw [OrdMap.get_insert_eq_some, OrdMap.get_erase_eq_some]
  have hkept : ∀ {k : DentryKey} {j}, ns.dentries[k]? = some j → j ≠ i →
      ((ns.dentries.erase source).insert target i)[k]? = some j := fun {k j} hk hne => by
    refine OrdMap.get_insert_of_get i ?_ (OrdMap.get_erase_of_ne hsource hk hne)
    rw [OrdMap.get_erase, hfree, ite_self]
  have hnew : ((ns.dentries.erase source).insert target i)[target]? = some i :=
    hget.mpr (.inl ⟨rfl, rfl⟩)
  have hedge : ∀ p x, ns.Holds p x → x ≠ i → Namespace.Holds
      { ns with dentries := (ns.dentries.erase source).insert target i } p x :=
    fun p x ⟨name, hx⟩ hne => ⟨name, hkept hx hne⟩
  refine h.of_dentries (fun k j hk => ?_) (fun k j hk => ?_) (fun j hj k k' hk hk' => ?_)
    fun j d hj hd => ?_
  · rcases hget.mp hk with ⟨rfl, rfl⟩ | ⟨-, -, hold⟩
    · exact .inr ⟨hname, hparent, h.child source i hsource⟩
    · exact .inl hold
  · by_cases hji : j = i
    · exact ⟨target, hji ▸ hnew⟩
    · exact ⟨k, hkept hk hji⟩
  · -- a directory had one entry, so `source` was that of `i`
    have hone : ∀ {k : DentryKey}, ((ns.dentries.erase source).insert target i)[k]? = some j →
        k = target ∧ i = j ∨ j ≠ i ∧ ns.dentries[k]? = some j := fun {k} hk => by
      rcases hget.mp hk with hnew | ⟨-, hne, hold⟩
      · exact .inl hnew
      · refine .inr ⟨fun hji => ?_, hold⟩
        subst hji
        exact hne (h.single j hj k source hold hsource)
    rcases hone hk with ⟨rfl, hji⟩ | ⟨hji, hold⟩
    · rcases hone hk' with ⟨rfl, -⟩ | ⟨hne, -⟩
      · rfl
      · exact absurd hji.symm hne
    · rcases hone hk' with ⟨-, heq⟩ | ⟨-, hold'⟩
      · exact absurd heq.symm hji
      · exact h.single j hj k k' hold hold'
  · by_cases hdir : ns.IsDir i
    · obtain ⟨d', hd'⟩ := habove hdir
      exact Depth.moved hedge ⟨target.name, hnew⟩ hd' hd
    · refine ⟨d, hd.mono_on (P := fun x => x ≠ i) (fun p x hx hne => ⟨hedge p x hx hne, ?_⟩)
        fun heq => hdir (heq ▸ hj)⟩
      rintro rfl
      exact hdir (h.hierarchy.inner_of_edge p x hx)

/-! ### Paths -/

theorem WellFormed.walkable (h : ns.WellFormed) : ns.Walkable :=
  ⟨h.root, fun key i hi => (h.child key i hi).2, h.parent⟩

end Namespace

/-! ### The operations -/

namespace Bexfs

open Namespace

variable {ns : Namespace} {i : UInt64} {key : DentryKey} {kind : NodeKind} {data : SparseData}

theorem tidy_new {mode} (hdata : kind = .directory → data.extents = ∅) :
    (Node.new i kind mode data).Tidy i := by
  refine ⟨rfl, rfl, rfl, hdata, fun name value hx => ?_⟩
  have hempty : (∅ : OrdMap Text Bytes)[name]? = some value := hx
  rw [Std.ExtTreeMap.getElem?_empty] at hempty
  cases hempty

theorem truncate_zero_extents (d : SparseData) : (d.truncate 0).extents = ∅ := by
  refine Std.ExtTreeMap.ext_getElem? fun k => ?_
  rw [Std.ExtTreeMap.getElem?_empty]
  unfold SparseData.truncate
  show (ite _ _ _ : OrdMap UInt64 Extent)[k]? = none
  rw [if_neg (by decide), OrdMap.get_filter]
  cases d.extents[k]? <;> simp [SPARSE_EXTENT_SIZE]

/-- New contents keep a record in order. -/
theorem Tidy.setData {n : Node} (h : n.Tidy i) (hdata : n.kind = .directory → data.extents = ∅) :
    ({ n with data := data }.updateSize).Tidy i ∧
      ({ n with data := data }.updateSize).kind = n.kind :=
  ⟨⟨h.inode_eq, rfl, rfl, hdata, h.xattr⟩, rfl⟩

/-- The file of a handle that may be written to. -/
theorem wp_writableNode {readOnly handle} {Q : Node → Namespace → Prop}
    {E : BexFsError → Namespace → Prop}
    (hQ : ∀ n, ns.nodes[handle.inode]? = some n → n.kind ≠ .directory → Q n ns) (hE : ∀ e, E e ns) :
    wp (writableNode readOnly handle) Q E ns := by
  simp only [writableNode, wp_bind, wp_check, wp_get, wp_some?, wp_pure, hE, implies_true,
    and_true]
  exact fun _ _ => hQ

section Operations

variable (h : ns.WellFormed) (readOnly : Bool)

include h

theorem wp_addNode {mode} (hparent : ns.IsDir key.parent)
    (hname : validateComponent key.name = .ok ()) (hdata : kind = .directory → data.extents = ∅) :
    ends (addNode key kind mode data) WellFormed ns := by
  simp only [addNode, wp_bind, wp_get, wp_check, wp_some?, wp_modify, wp_pure]
  refine ⟨fun hfree => ⟨fun next hnext => ?_, fun _ => h⟩, fun _ => h⟩
  refine wf_addNode h (Option.isNone_iff_eq_none.mp hfree) hparent hname ?_ (tidy_new hdata)
  have hsum := UInt64.checkedAdd_eq_some.mp hnext
  rw [UInt64.lt_iff_toNat_lt, hsum]
  exact Nat.lt_succ_self _

theorem wp_createPath (base path directory) :
    ends (createPath base path directory) WellFormed ns := by
  unfold ends createPath
  rw [wp_bind, wp_get, wp_bind, wp_lift]
  refine ⟨fun key hkey => ?_, fun _ _ => h⟩
  obtain ⟨hparent, hname, -⟩ := resolveParent_eq_ok hkey
  exact wp_addNode h hparent hname fun _ => rfl

theorem wp_openFile (base path flags) : ends (openFile readOnly base path flags) WellFormed ns := by
  unfold openFile
  dsimp only
  unfold ends
  rw [wp_bind, wp_check]
  refine ⟨fun _ => ?_, fun _ => h⟩
  rw [wp_bind]
  have hopen : ends (openInode base path flags) WellFormed ns := by
    unfold ends openInode
    rw [wp_bind, wp_get]
    split
    · exact (wp_pure _).mpr h
    · rw [wp_ite]
      exact ⟨fun _ => wp_createPath h base path _, fun _ => (wp_fail _).mpr h⟩
  refine wp_mono hopen fun inode t ht => ?_
  simp only [wp_bind, wp_get, wp_some?, wp_check, wp_when, wp_modify, wp_pure, ht, implies_true,
    and_true]
  exact fun _ _ _ _ _ _ => wf_modifyNode ht fun m _ hm => Tidy.setData hm fun _ =>
    truncate_zero_extents _

omit h in
theorem wf_setData {n} (h : ns.WellFormed) (hn : ns.nodes[i]? = some n)
    (hkind : n.kind ≠ .directory) (f : Node → SparseData) :
    (modifyNode i (fun m => { m with data := f m }.updateSize) ns).WellFormed := by
  refine wf_modifyNode h fun m hm htidy => Tidy.setData htidy fun hdir => ?_
  exact absurd (Option.some.inj (hn.symm.trans hm) ▸ hdir) hkind

theorem wp_write (handle bytes) : ends (write readOnly handle bytes) WellFormed ns := by
  unfold ends write
  rw [wp_bind]
  refine wp_writableNode (fun n hn hkind => ?_) fun _ => h
  simp only [wp_bind, wp_some?, wp_lift, wp_modify, wp_pure]
  exact ⟨fun _ _ => ⟨fun data _ => wf_setData h hn hkind _, fun _ _ => h⟩, fun _ => h⟩

theorem wp_setLen (handle len) : ends (setLen readOnly handle len) WellFormed ns := by
  unfold ends setLen
  rw [wp_bind]
  refine wp_writableNode (fun n hn hkind => ?_) fun _ => h
  rw [wp_modify]
  exact wf_setData h hn hkind _

theorem wp_setMetadata (inode mode uid gid mtime) :
    ends (setMetadata readOnly inode mode uid gid mtime) WellFormed ns := by
  simp only [setMetadata, wp_bind, wp_check, wp_get, wp_some?, wp_modify, h, implies_true, and_true]
  exact fun _ _ _ => wf_modifyNode h fun m _ hm => ⟨{ hm with }, rfl⟩

theorem wp_setXattr (inode name value flags) :
    ends (setXattr readOnly inode name value flags) WellFormed ns := by
  simp only [setXattr, wp_bind, wp_check, wp_lift, wp_get, wp_some?, wp_modify, h, implies_true,
    and_true]
  intro _ _ hname hargs _ _ _ _
  refine wf_modifyNode h fun m _ hm => ⟨{ hm with xattr := fun name' value' hx => ?_ }, rfl⟩
  rcases OrdMap.get_insert_eq_some.mp hx with ⟨rfl, rfl⟩ | ⟨-, hx⟩
  · exact ⟨hname, Nat.le_of_not_lt fun hlong => hargs (.inl hlong)⟩
  · exact hm.xattr name' value' hx

theorem wp_removeXattr (inode name) : ends (removeXattr readOnly inode name) WellFormed ns := by
  simp only [removeXattr, wp_bind, wp_check, wp_lift, wp_get, wp_some?, wp_modify, h, implies_true,
    and_true]
  intro _ _ _ _ _ _
  refine wf_modifyNode h fun m _ hm => ⟨{ hm with xattr := fun name' value' hx => ?_ }, rfl⟩
  exact hm.xattr name' value' (OrdMap.get_erase_eq_some.mp hx).2

theorem wp_unlink (directory name) : ends (unlink readOnly directory name) WellFormed ns := by
  simp only [unlink, wp_bind, wp_check, wp_lift, wp_get, wp_some?, wp_modify, h, implies_true, and_true]
  intro _ _ _ _ _ i hi hchildren
  exact wf_detach h hi (hasChildren_eq_false.mp (Bool.not_eq_true _ ▸ hchildren))

theorem wp_link (base source target) : ends (link readOnly base source target) WellFormed ns := by
  simp only [link, wp_bind, wp_check, wp_lift, wp_get, wp_modify, h, implies_true, and_true]
  intro _ i _ hfile key hkey hfree
  obtain ⟨hparent, hname, -⟩ := resolveParent_eq_ok hkey
  obtain ⟨n, hn, hkind⟩ := (Option.any_eq_true _ _).mp hfile
  exact wf_addLink h (Option.isNone_iff_eq_none.mp hfree) hparent hname hn (of_decide_eq_true hkind)

theorem wp_symlink (base target path) : ends (symlink readOnly base target path) WellFormed ns := by
  simp only [symlink, wp_bind, wp_check, wp_get, wp_lift, h, implies_true, and_true]
  intro _ _ _ key hkey
  obtain ⟨hparent, hname, -⟩ := resolveParent_eq_ok hkey
  exact wp_mono (wp_addNode h hparent hname fun hdir => NodeKind.noConfusion hdir)
    fun _ _ ht => (wp_pure _).mpr ht

end Operations

/-! ### Removing a tree -/

/-- What the removal of an entry `key` and all below it leaves: the entries of directories not
deeper than that of `key`, which has depth `d`. -/
structure Trims (key : DentryKey) (d : ℕ) (s t : Namespace) : Prop where
  sub : ∀ (k : DentryKey) (x : UInt64), t.dentries[k]? = some x → s.dentries[k]? = some x
  gone : t.dentries[key]? = none
  kept : ∀ (k : DentryKey) (x : UInt64) (j : ℕ), s.dentries[k]? = some x → k ≠ key →
    Depth s.Holds ROOT_INODE k.parent j → j ≤ d → t.dentries[k]? = some x
  size : t.nodes.size ≤ s.nodes.size

/-- The state in the middle of the removal of what is in a directory `i` of depth `d + 1`. -/
structure Trimming (i : UInt64) (d : ℕ) (rest : List Text) (s t : Namespace) : Prop where
  wf : t.WellFormed
  sub : ∀ (k : DentryKey) (x : UInt64), t.dentries[k]? = some x → s.dentries[k]? = some x
  kept : ∀ (k : DentryKey) (x : UInt64) (j : ℕ), s.dentries[k]? = some x →
    Depth s.Holds ROOT_INODE k.parent j → j ≤ d → t.dentries[k]? = some x
  gone : ∀ name : Text, name ∉ rest → t.dentries[(⟨i, name⟩ : DentryKey)]? = none
  size : t.nodes.size ≤ s.nodes.size

variable {d : ℕ} {source target : DentryKey}

theorem Trimming.depth {rest s t} (h : Trimming i d rest s t) {p j}
    (hp : Depth s.Holds ROOT_INODE p j) (hj : j ≤ d) : Depth t.Holds ROOT_INODE p j := by
  refine hp.of_shallow fun q k x hq hk hx => ?_
  obtain ⟨name, hx⟩ := hx
  exact ⟨name, h.kept _ x k hx hq (by omega)⟩

theorem get_detach (key i ns k) :
    (detach key i ns).dentries[k]? = if k = key then none else ns.dentries[k]? := by
  rw [← OrdMap.get_erase]
  unfold detach removeUnlinkedInode
  split <;> rfl

theorem size_detach_le (key i ns) : (detach key i ns).nodes.size ≤ ns.nodes.size := by
  unfold detach removeUnlinkedInode
  split
  · exact le_rfl
  · exact Std.ExtTreeMap.size_erase_le

theorem mem_childNames {name x} (h : ns.dentries[(⟨i, name⟩ : DentryKey)]? = some x) :
    name ∈ ns.childNames i := by
  unfold childNames
  refine List.mem_map.mpr ⟨(⟨i, name⟩, x), List.mem_filter.mpr ⟨?_, beq_self_eq_true i⟩, rfl⟩
  exact (OrdMap.mem_toList _).mpr h

theorem trimming_childNames (h : ns.WellFormed) (i d) : Trimming i d (ns.childNames i) ns ns  where
  wf := h
  sub := fun _ _ hk => hk
  kept := fun _ _ _ hk _ _ => hk
  gone := fun name hname => by
    cases hx : ns.dentries[(⟨i, name⟩ : DentryKey)]? with
    | none => rfl
    | some x => exact absurd (mem_childNames hx) hname
  size := le_rfl

section Trimming

variable {name : Text} {rest : List Text} {s t u : Namespace}

/-- The directory which is emptied is still where it was. -/
theorem Trimming.depth_self (h : Trimming i d rest s t) (hi : s.dentries[key]? = some i)
    (hd : Depth s.Holds ROOT_INODE key.parent d) : Depth t.Holds ROOT_INODE i (d + 1) :=
  .step ⟨key.name, h.kept key i d hi hd le_rfl⟩ (h.depth hd le_rfl)

/-- One entry of the directory goes, with what is below it. -/
theorem Trimming.next (h : Trimming i d (name :: rest) s t) (hi : s.dentries[key]? = some i)
    (hd : Depth s.Holds ROOT_INODE key.parent d) (hu : u.WellFormed)
    (htrims : Trims ⟨i, name⟩ (d + 1) t u) : Trimming i d rest s u where
  wf := hu
  sub := fun k x hk => h.sub k x (htrims.sub k x hk)
  kept := fun k x j hk hj hjd => by
    have hkt := h.kept k x j hk hj hjd
    have hdepth := h.depth hj hjd
    refine htrims.kept k x j hkt (fun heq => ?_) hdepth (by omega)
    -- an entry of the directory itself is deeper
    have hparent : k.parent = i := congrArg DentryKey.parent heq
    have hinner := h.wf.parent k x hkt
    have := h.wf.hierarchy.depth_unique (hparent ▸ hdepth) (h.depth_self hi hd)
      (hparent ▸ hinner)
    omega
  gone := fun name' hname' => by
    by_cases heq : name' = name
    · rw [heq]
      exact htrims.gone
    · cases hx : u.dentries[(⟨i, name'⟩ : DentryKey)]? with
      | none => rfl
      | some x =>
        have hsome := htrims.sub _ x hx
        rw [h.gone name' fun hmem => (List.mem_cons.mp hmem).elim heq hname'] at hsome
        cases hsome
  size := htrims.size.trans h.size

/-- The directory is empty and goes itself. -/
theorem Trimming.detach (h : Trimming i d [] s t) (hi : s.dentries[key]? = some i)
    (hd : Depth s.Holds ROOT_INODE key.parent d) :
    (detach key i t).WellFormed ∧ Trims key d s (detach key i t) := by
  have hchildless : t.Childless i := by
    rintro ⟨p, name⟩ x hx rfl
    rw [h.gone name List.not_mem_nil] at hx
    cases hx
  refine ⟨wf_detach h.wf (h.kept key i d hi hd le_rfl) hchildless, fun k x hk => ?_, ?_,
    fun k x j hk hne hj hjd => ?_, (size_detach_le key i t).trans h.size⟩
  · rw [get_detach] at hk
    split at hk
    · cases hk
    · exact h.sub k x hk
  · rw [get_detach, if_pos rfl]
  · rw [get_detach, if_neg hne]
    exact h.kept k x j hk hj hjd

end Trimming

/-- Removing a tree keeps a namespace well formed, and removes nothing else. -/
theorem wp_removeTreeEntry (fuel) (h : ns.WellFormed)
    (hd : Depth ns.Holds ROOT_INODE key.parent d) :
    wp (removeTreeEntry fuel key)
      (fun _ t => t.WellFormed ∧ Trims key d ns t) (fun _ => WellFormed) ns := by
  induction fuel generalizing ns key d with
  | zero => exact wp_halt.mpr trivial
  | succ fuel ih =>
    unfold removeTreeEntry
    rw [wp_bind, wp_get, wp_bind, wp_some?]
    refine ⟨fun i hi => ?_, fun _ => h⟩
    rw [wp_bind]
    refine wp_forEach (fun rest t => Trimming i d rest ns t) (fun name rest t ht => ?_)
      (fun t ht => ?_) _ ns (trimming_childNames h i d)
    · refine wp_mono (ih ht.wf (ht.depth_self hi hd)) ?_
      rintro _ u ⟨hu, htrims⟩
      exact ht.next hi hd hu htrims
    · rw [wp_modify]
      exact ht.detach hi hd

/-- The removal of a tree ends: each call is for an entry one level deeper. -/
theorem noHalt_removeTreeEntry (fuel) (h : ns.WellFormed)
    (hd : Depth ns.Holds ROOT_INODE key.parent d) (hfuel : ns.nodes.size ≤ fuel + d) :
    NoHalt (removeTreeEntry fuel key) ns := by
  induction fuel generalizing ns key d with
  | zero =>
    have := h.depth_lt hd
    omega
  | succ fuel ih =>
    unfold removeTreeEntry
    rw [noHalt_bind, wp_get, noHalt_bind, wp_some?]
    refine ⟨noHalt_get, noHalt_some? _ _, fun i hi => ?_, fun _ => trivial⟩
    rw [noHalt_bind]
    refine ⟨noHalt_forEach (fun rest t => Trimming i d rest ns t) (fun name rest t ht => ⟨?_, ?_⟩)
      _ ns (trimming_childNames h i d), wp_mono (wp_true _) fun _ _ _ => noHalt_modify _⟩
    · have := ht.size
      exact ih ht.wf (ht.depth_self hi hd) (by omega)
    · refine wp_mono (wp_removeTreeEntry fuel ht.wf (ht.depth_self hi hd)) ?_
      rintro _ u ⟨hu, htrims⟩
      exact ht.next hi hd hu htrims

theorem wp_removeTree (h : ns.WellFormed) (readOnly base path) :
    ends (removeTree readOnly base path) WellFormed ns := by
  simp only [removeTree, wp_bind, wp_check, wp_get, wp_lift, h, implies_true, and_true]
  intro _ key hkey
  obtain ⟨d, hd⟩ := h.grounded _ (resolveParent_eq_ok hkey).1
  exact wp_mono (wp_removeTreeEntry _ h hd) fun _ _ ht => ht.1

/-! ### Renaming -/

theorem holds_of_parent {parent} (hroot : i ≠ ROOT_INODE) (h : ns.directoryParent i = .ok parent) :
    ns.Holds parent i := by
  unfold directoryParent at h
  rw [if_neg hroot] at h
  split at h
  · rename_i key hkey
    obtain rfl := Except.ok.inj h
    exact ⟨key.name, entryOf_eq_some hkey⟩
  · cases h

/-- The way from a directory up to the root avoids `source`. -/
theorem wp_checkAncestors (h : ns.WellFormed) {source} (fuel) {a} (ha : ns.IsDir a) (s) :
    wp (checkAncestors ns source fuel a)
      (fun _ t => t = s ∧ ns.Avoids source a) (fun _ t => t = s) s := by
  induction fuel generalizing a with
  | zero => exact (wp_halt).mpr trivial
  | succ fuel ih =>
    unfold checkAncestors
    rw [wp_ite]
    refine ⟨fun _ => (wp_fail _).mpr rfl, fun hne => ?_⟩
    rw [wp_ite]
    refine ⟨fun hroot => (wp_pure _).mpr ⟨rfl, 0, hroot ▸ .root⟩, fun hroot => ?_⟩
    rw [wp_bind, wp_lift]
    refine ⟨fun parent hparent => ?_, fun _ _ => rfl⟩
    refine wp_mono (ih (h.walkable.directoryParent hparent)) ?_
    rintro _ t ⟨rfl, j, hj⟩
    exact ⟨rfl, j + 1, .step ⟨holds_of_parent hroot hparent, hne⟩ hj⟩

theorem wp_moveEntry (h : ns.WellFormed) (hsource : ns.dentries[source]? = some i)
    (hfree : ns.dentries[target]? = none) (hparent : ns.IsDir target.parent)
    (hname : validateComponent target.name = .ok ())
    (habove : ns.IsDir i → ns.Avoids i target.parent) :
    ends (moveEntry source target i) WellFormed ns := by
  simp only [moveEntry, wp_bind, wp_get, wp_check, wp_modify]
  exact ⟨fun _ => wf_move h hsource hfree hparent hname habove, fun _ => h⟩

theorem isDir_of_detach {j} (h : (detach key i ns).IsDir j) : ns.IsDir j := by
  obtain ⟨n, hn, hkind⟩ := h
  unfold detach removeUnlinkedInode at hn
  split at hn
  · exact ⟨n, hn, hkind⟩
  · exact ⟨n, (OrdMap.get_erase_eq_some.mp hn).2, hkind⟩

theorem isDir_detach {j} (h : ns.IsDir j) (hne : j ≠ i) : (detach key i ns).IsDir j := by
  obtain ⟨n, hn, hkind⟩ := h
  refine ⟨n, ?_, hkind⟩
  unfold detach removeUnlinkedInode
  split
  · exact hn
  · exact OrdMap.get_erase_eq_some.mpr ⟨hne, hn⟩

theorem wp_replaceEntry (h : ns.WellFormed) (hsource : ns.dentries[source]? = some i)
    (hparent : ns.IsDir target.parent) (hname : validateComponent target.name = .ok ())
    (habove : ns.IsDir i → ns.Avoids i target.parent) :
    ends (replaceEntry source target i kind) WellFormed ns := by
  unfold ends replaceEntry
  rw [wp_bind, wp_get]
  split
  · -- nothing is replaced
    rename_i hnone
    refine wp_moveEntry h hsource ?_ hparent hname habove
    cases htarget : ns.dentries[target]? with
    | none => rfl
    | some r =>
      obtain ⟨-, n, hn⟩ := h.child target r htarget
      simp [htarget, hn] at hnone
  · rename_i replaced replacedKind hsome
    obtain ⟨r, htarget, hr⟩ := Option.bind_eq_some_iff.mp hsome
    obtain ⟨n, hn, heq⟩ := Option.map_eq_some_iff.mp hr
    obtain ⟨rfl, rfl⟩ := Prod.mk.inj heq
    rw [wp_ite]
    refine ⟨fun _ => (wp_pure _).mpr h, fun hnot => ?_⟩
    simp only [wp_bind (check _ _ : NsM _), wp_check, h, implies_true, and_true]
    intro _ _ hchildren
    have hchildless : ns.Childless r := hasChildren_eq_false.mp (Bool.not_eq_true _ ▸ hchildren)
    have hne : target.parent ≠ r := hchildless target r htarget
    rw [wp_bind, wp_modify]
    refine wp_moveEntry (wf_detach h htarget hchildless) ?_ ?_ (isDir_detach hparent hne) hname
      fun hdir => ?_
    · rw [get_detach, if_neg fun heq => hnot ⟨?_, heq⟩, hsource]
      rw [heq, htarget] at hsource
      exact Option.some.inj hsource
    · rw [get_detach, if_pos rfl]
    · obtain ⟨j, hj⟩ := habove (isDir_of_detach hdir)
      refine ⟨j, hj.mono_on (P := fun x => x ≠ r) (fun p x hx hxr => ?_) hne⟩
      obtain ⟨⟨name, hx⟩, hxi⟩ := hx
      refine ⟨⟨⟨name, ?_⟩, hxi⟩, hchildless _ x hx⟩
      rw [get_detach, if_neg fun heq => ?_, hx]
      rw [heq, htarget] at hx
      exact hxr (Option.some.inj hx).symm

theorem wp_rename (h : ns.WellFormed) (readOnly) {base source} (target)
    (hlink : namesLink ns base source = false) :
    ends (rename readOnly base source target) WellFormed ns := by
  simp only [rename, wp_bind, wp_check, wp_get, wp_lift, wp_some?, wp_when, h, implies_true,
    and_true]
  intro _ i hi _ sourceKey hsource targetKey htarget n hn
  obtain ⟨hparent, hname, -⟩ := resolveParent_eq_ok htarget
  -- the inode found is that of the entry which is moved
  have hentry : ns.dentries[sourceKey]? = some i := by
    obtain ⟨x, m, hx, hm, hsame⟩ := h.walkable.entry_of_resolve hi hsource
    rw [hx, hsame.mp fun hkind => ?_]
    simp [namesLink, hsource, hx, hm, hkind] at hlink
  constructor
  · intro _
    refine wp_mono (wp_checkAncestors h _ hparent ns) ?_ fun _ t ht => ht ▸ h
    rintro _ t ⟨rfl, habove⟩
    exact wp_replaceEntry h hentry hparent hname fun _ => habove
  · intro hkind
    refine wp_replaceEntry h hentry hparent hname ?_
    rintro ⟨m, hm, hdir⟩
    rw [← Option.some.inj (hn.symm.trans hm)] at hdir
    exact absurd hdir hkind

/-! ### Every run -/

/-- The operation is not the rename of a symbolic link. -/
def SparesLinks (ns : Namespace) : FsOp → Prop
  | .rename base source _ => namesLink ns base source = false
  | _ => True

instance (ns : Namespace) : (op : FsOp) → Decidable (SparesLinks ns op)
  | .rename base source _ => inferInstanceAs (Decidable (namesLink ns base source = false))
  | .openFile .. | .write .. | .setLen .. | .setMetadata .. | .removeTree .. | .unlink ..
  | .link .. | .symlink .. | .setXattr .. | .removeXattr .. => .isTrue trivial

theorem wp_exec (h : ns.WellFormed) (readOnly) {op} (hop : SparesLinks ns op) :
    ends (exec readOnly op) WellFormed ns := by
  cases op with
  | openFile => exact (wp_bind_pure _ _).mpr (wp_openFile h ..)
  | write => exact (wp_bind_pure _ _).mpr (wp_write h ..)
  | setLen => exact wp_setLen h ..
  | setMetadata => exact wp_setMetadata h ..
  | removeTree => exact wp_removeTree h ..
  | unlink => exact wp_unlink h ..
  | link => exact wp_link h ..
  | symlink => exact wp_symlink h ..
  | setXattr => exact wp_setXattr h ..
  | removeXattr => exact wp_removeXattr h ..
  | rename => exact wp_rename h _ _ hop

theorem noHalt_checkAncestors (h : ns.WellFormed) {source} (fuel) {a}
    (ha : Depth ns.Holds ROOT_INODE a d) (hdir : ns.IsDir a) (hfuel : d < fuel) (s) :
    NoHalt (checkAncestors ns source fuel a) s := by
  induction fuel generalizing a d with
  | zero => omega
  | succ fuel ih =>
    unfold checkAncestors
    split
    · intro heq
      cases heq
    · split
      · intro heq
        cases heq
      · rename_i hroot
        rw [noHalt_bind, wp_lift]
        refine ⟨noHalt_lift _, fun parent hparent => ?_, fun _ _ => trivial⟩
        cases ha with
        | root => exact absurd rfl hroot
        | step hedge hp =>
          have heq := h.hierarchy.unique a hdir _ _ hedge (holds_of_parent hroot hparent)
          exact ih (heq ▸ hp) (h.walkable.directoryParent hparent) (by omega)

theorem noHalt_removeTree (h : ns.WellFormed) (readOnly base path) :
    NoHalt (removeTree readOnly base path) ns := by
  simp only [removeTree, noHalt_bind, noHalt_check, noHalt_get, noHalt_lift, wp_check, wp_get,
    wp_lift, true_and, implies_true, and_true]
  intro _ key hkey
  obtain ⟨d, hd⟩ := h.grounded _ (resolveParent_eq_ok hkey).1
  exact noHalt_removeTreeEntry _ h hd (by omega)

-- the search goes as deep as an operation is long
instance ends_moveEntry (source target i) : Finishes (moveEntry source target i) := by
  unfold moveEntry
  infer_instance

instance ends_replaceEntry (source target i kind) :
    Finishes (replaceEntry source target i kind) := by
  unfold replaceEntry
  refine @Finishes.bind _ _ _ _ _ _ _ fun ns => ?_
  split <;> infer_instance

theorem noHalt_rename (h : ns.WellFormed) (readOnly base source target) :
    NoHalt (rename readOnly base source target) ns := by
  simp only [rename, noHalt_bind, noHalt_check, noHalt_get, noHalt_lift, noHalt_some?, wp_check,
    wp_get, wp_lift, wp_some?, true_and, implies_true, and_true]
  intro _ i _ _ sourceKey _ targetKey htarget n _
  refine ⟨?_, wp_mono (wp_true _) fun _ t _ => Finishes.run t⟩
  unfold when
  split
  · have hdir := (resolveParent_eq_ok htarget).1
    obtain ⟨d, hd⟩ := h.grounded _ hdir
    exact noHalt_checkAncestors h _ hd hdir (by have := h.depth_lt hd; omega) ns
  · exact noHalt_pure ()

instance ends_addNode (key kind mode data) : Finishes (addNode key kind mode data) := by
  unfold addNode
  infer_instance

instance ends_openInode (base path flags) : Finishes (openInode base path flags) := by
  unfold openInode createPath
  refine @Finishes.bind _ _ _ _ _ _ _ fun ns => ?_
  split <;> infer_instance

set_option synthInstance.maxSize 1000 in
instance ends_openFile (readOnly base path flags) :
    Finishes (openFile readOnly base path flags) := by
  unfold openFile
  extract_lets
  infer_instance

instance ends_writableNode (readOnly handle) : Finishes (writableNode readOnly handle) := by
  unfold writableNode
  infer_instance

set_option synthInstance.maxSize 1000 in
/-- Every operation ends. -/
theorem noHalt_exec (h : ns.WellFormed) (readOnly op) : NoHalt (exec readOnly op) ns := by
  cases op with
  | removeTree base path => exact noHalt_removeTree h readOnly base path
  | rename base source target => exact noHalt_rename h readOnly base source target
  | openFile base path flags =>
    exact Finishes.run (x := do let _ ← openFile readOnly base path flags) ns
  | _ =>
    dsimp only [exec, write, setLen, setMetadata, unlink, link, symlink, setXattr, removeXattr]
    exact Finishes.run ns

theorem wf_empty : Namespace.empty.WellFormed := by
  have hnodes : ∀ i n, Namespace.empty.nodes[i]? = some n →
      i = ROOT_INODE ∧ n = Node.new ROOT_INODE .directory 0o755 .empty := fun i n hn => by
    unfold Namespace.empty at hn
    rw [OrdMap.get_insert, Std.ExtTreeMap.getElem?_empty] at hn
    split at hn
    · exact ⟨by assumption, (Option.some.inj hn).symm⟩
    · cases hn
  have hdentries : ∀ (key : DentryKey) (i : UInt64), Namespace.empty.dentries[key]? ≠ some i :=
    fun key i hi => by
      have hempty : (∅ : OrdMap DentryKey UInt64)[key]? = some i := hi
      rw [Std.ExtTreeMap.getElem?_empty] at hempty
      cases hempty
  constructor
  case next => decide
  case root => exact ⟨Node.new ROOT_INODE .directory 0o755 .empty, by
    unfold Namespace.empty
    rw [OrdMap.get_insert, if_pos rfl], rfl⟩
  case node =>
    intro i n hn
    obtain ⟨rfl, rfl⟩ := hnodes i n hn
    exact ⟨tidy_new fun _ => rfl, by decide⟩
  case linked => exact fun i n hn hroot => absurd (hnodes i n hn).1 hroot
  case grounded =>
    rintro i ⟨n, hn, -⟩
    rw [(hnodes i n hn).1]
    exact ⟨0, .root⟩
  case single => exact fun i _ k _ hk _ => absurd hk (hdentries k i)
  all_goals exact fun key i hi => absurd hi (hdentries key i)

theorem Reaches.wellFormed {readOnly} (h : Reaches readOnly SparesLinks ns) : ns.WellFormed :=
  Steps.invariant (fun _ _ _ hs hop ht => of_state (wp_exec hs readOnly hop) ht) h wf_empty

/-- **Every namespace reached can be mounted**, as long as no symbolic link is renamed, and
every operation on it ends. -/
theorem reached_valid {readOnly : Bool} {ns : Namespace} (h : Reaches readOnly SparesLinks ns) :
    ns.validateNamespace = .ok () ∧ ∀ op, (step readOnly op ns).isSome := by
  refine ⟨h.wellFormed.validate, fun op => ?_⟩
  have hends := noHalt_exec h.wellFormed readOnly op
  unfold step
  cases hrun : exec readOnly op ns with
  | ok a t | err e t => rfl
  | halt => exact absurd hrun hends

/-- After the link is renamed, its inode has no entry and the volume no longer mounts. -/
theorem renamed_link_unmountable :
    ∃ ns, Reaches false (fun _ _ => True) ns ∧ ns.validateNamespace = .error .corrupt :=
  exists_reaches_of_run _ _ (linkedFile ++ [.rename ROOT_INODE linkName newName])
    (by decide +kernel)

/-- The file itself can be renamed. -/
theorem reached_valid_renamed_file :
    ∃ ns, Reaches false SparesLinks ns ∧ ns.nodes.size = 3 ∧ ns.validateNamespace = .ok () := by
  obtain ⟨ns, hns, hsize⟩ := exists_reaches_of_run SparesLinks (fun ns => ns.nodes.size = 3)
    (linkedFile ++ [.rename ROOT_INODE fileName newName]) (by decide +kernel)
  exact ⟨ns, hns, hsize, (reached_valid hns).1⟩

end Bexfs

end Bexos
