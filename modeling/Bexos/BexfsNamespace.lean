/-
The BexFS namespace (`bexfs/src/fs.rs`): inodes, directory entries and file contents, and
the operations that change them.

* `SparseData` — the contents of a file, as extents of 4096 bytes; what is not in an extent
  reads as zeros;
* `Namespace.walk` — path resolution through symbolic links, `Namespace.resolveParent` —
  resolution of all components but the last;
* `FsOp`, `exec` — the public operations;
* `Namespace.validateNamespace` — what `mount` requires of a namespace.

Design notes: the set of changed records, which only the migration of a mounted volume reads,
is left out, and so are the operations that only read.  An extent is the bytes it shows;
whether they are owned or shared with a read window makes no difference here.  A symbolic
link may lead to 40 others, so that `walk` has 41 steps.  The loops that climb or descend the
directory tree get as many steps as there are inodes; a run that needs more has met a cycle,
and the code does not return.
-/
import Bexos.OrdMap
import Bexos.Texts

namespace Bexos

open Prog

/-! ### Constants and errors -/

def ROOT_INODE : UInt64 := 1

def SPARSE_EXTENT_SIZE : ℕ := 4096

inductive BexFsError where
  | io | corrupt | locked | noSpace | notFound | notDirectory | isDirectory | notEmpty
  | alreadyExists | accessDenied | invalidArgs | readOnly
  deriving DecidableEq

inductive NodeKind where
  | file | directory | symlink
  deriving DecidableEq

structure NodeAttributes where
  sizeBytes : UInt64
  storageAllocatedBytes : UInt64
  creationTimeNanos : UInt64
  modificationTimeNanos : UInt64
  mode : UInt32
  uid : UInt32
  gid : UInt32
  deriving DecidableEq

/-! ### File contents -/

/-- Write `bs` over a list from an index on, without making it longer. -/
def overwrite {α : Type} : List α → ℕ → List α → List α
  | [], _, _ => []
  | as, _, [] => as
  | _ :: as, 0, b :: bs => b :: overwrite as 0 bs
  | a :: as, k + 1, bs => a :: overwrite as k bs

theorem length_overwrite {α : Type} (as : List α) (k : ℕ) (bs : List α) :
    (overwrite as k bs).length = as.length := by
  induction as generalizing k bs with
  | nil => rw [overwrite]
  | cons a as ih =>
    cases bs with
    | nil => rw [overwrite]; exact nofun
    | cons b bs =>
      cases k with
      | zero => rw [overwrite, List.length_cons, List.length_cons, ih]
      | succ k => rw [overwrite, List.length_cons, List.length_cons, ih]; exact nofun

/-- The bytes of one extent. -/
abbrev Extent := List.Vector UInt8 SPARSE_EXTENT_SIZE

namespace Extent

def zeros : Extent := List.Vector.replicate SPARSE_EXTENT_SIZE 0

def copyFrom (e : Extent) (start : ℕ) (bytes : Bytes) : Extent :=
  ⟨overwrite e.1 start bytes, (length_overwrite _ _ _).trans e.2⟩

end Extent

/-- A file: its size and the extents that were written, by number. -/
structure SparseData where
  logicalSize : UInt64
  extents : OrdMap UInt64 Extent

namespace SparseData

def empty : SparseData := ⟨0, ∅⟩

/-- The parts of `bytes` that lie in one extent each. -/
def chunks (bytes : Bytes) : List (ℕ × Bytes) :=
  (List.range ((bytes.length + SPARSE_EXTENT_SIZE - 1) / SPARSE_EXTENT_SIZE)).map fun i =>
    (i, (bytes.drop (i * SPARSE_EXTENT_SIZE)).take SPARSE_EXTENT_SIZE)

def fromDense (bytes : Bytes) : SparseData :=
  { logicalSize := UInt64.ofNat bytes.length
    extents := (chunks bytes).foldl (fun extents (chunk, data) =>
      if data.all (· == 0) then extents
      else extents.insert (UInt64.ofNat chunk) (Extent.zeros.copyFrom 0 data)) ∅ }

variable (d : SparseData)

def len : UInt64 := d.logicalSize

def allocatedBytes : UInt64 := UInt64.ofNat (d.extents.size * SPARSE_EXTENT_SIZE)

/-- Read extent by extent; each of the `fuel` rounds reads at least a byte. -/
def readLoop : ℕ → ℕ → ℕ → Bytes
  | 0, _, _ => []
  | fuel + 1, absolute, count =>
    if count = 0 then []
    else
      let chunkOffset := absolute % SPARSE_EXTENT_SIZE
      let copy := min (SPARSE_EXTENT_SIZE - chunkOffset) count
      let piece := match d.extents[UInt64.ofNat (absolute / SPARSE_EXTENT_SIZE)]? with
        | some extent => (extent.1.drop chunkOffset).take copy
        | none => List.replicate copy 0
      piece ++ readLoop fuel (absolute + copy) (count - copy)

def readAt (offset : UInt64) (count : ℕ) : Bytes :=
  if offset ≥ d.logicalSize ∨ count = 0 then []
  else
    let count := min count (d.logicalSize - offset).toNat
    d.readLoop count offset.toNat count

/-- Write extent by extent; each of the `fuel` rounds writes at least a byte. -/
def writeLoop : ℕ → ℕ → Bytes → OrdMap UInt64 Extent → OrdMap UInt64 Extent
  | 0, _, _, extents => extents
  | fuel + 1, absolute, bytes, extents =>
    if bytes = [] then extents
    else
      let chunk := UInt64.ofNat (absolute / SPARSE_EXTENT_SIZE)
      let chunkOffset := absolute % SPARSE_EXTENT_SIZE
      let copy := min (SPARSE_EXTENT_SIZE - chunkOffset) bytes.length
      let extent := (extents[chunk]?).getD Extent.zeros
      writeLoop fuel (absolute + copy) (bytes.drop copy)
        (extents.insert chunk (extent.copyFrom chunkOffset (bytes.take copy)))

def writeAt (offset : UInt64) (bytes : Bytes) : Except BexFsError SparseData :=
  match offset.checkedAdd (UInt64.ofNat bytes.length) with
  | none => .error .noSpace
  | some finish => .ok
    { logicalSize := max d.logicalSize finish
      extents := writeLoop bytes.length offset.toNat bytes d.extents }

def truncate (len : UInt64) : SparseData :=
  let keepChunks := (len.toNat + SPARSE_EXTENT_SIZE - 1) / SPARSE_EXTENT_SIZE
  let kept := d.extents.filter fun chunk _ => chunk.toNat < keepChunks
  let valid := len.toNat % SPARSE_EXTENT_SIZE
  let last := UInt64.ofNat (keepChunks - 1)
  { logicalSize := len
    extents :=
      if valid ≠ 0 ∧ keepChunks ≠ 0 then
        match kept[last]? with
        | none => kept
        | some tail => kept.insert last
          (tail.copyFrom valid (List.replicate (SPARSE_EXTENT_SIZE - valid) 0))
      else kept }

end SparseData

/-! ### The namespace -/

structure Node where
  inode : UInt64
  kind : NodeKind
  attributes : NodeAttributes
  data : SparseData
  xattrs : OrdMap Text Bytes

/-- The size attributes follow the contents. -/
def Node.updateSize (n : Node) : Node :=
  { n with
    attributes :=
      { n.attributes with
        sizeBytes := n.data.len
        storageAllocatedBytes := n.data.allocatedBytes } }

/-- A directory and a name in it. -/
structure DentryKey where
  parent : UInt64
  name : Text
  deriving DecidableEq

/-- Entries are ordered by directory, then by name. -/
instance : Ord DentryKey := ⟨compareLex (compareOn DentryKey.parent) (compareOn DentryKey.name)⟩

instance : Std.TransOrd DentryKey :=
  inferInstanceAs (Std.TransCmp (compareLex (compareOn DentryKey.parent)
    (compareOn DentryKey.name)))

instance : Std.LawfulEqOrd DentryKey where
  eq_of_compare {a b} h := by
    obtain ⟨hparent, hname⟩ := compareLex_eq_eq.mp h
    have hparent : a.parent = b.parent := Std.LawfulEqOrd.eq_of_compare hparent
    have hname : a.name = b.name := Std.LawfulEqOrd.eq_of_compare hname
    cases a
    cases b
    cases hparent
    cases hname
    rfl

structure Namespace where
  nextInode : UInt64
  nodes : OrdMap UInt64 Node
  dentries : OrdMap DentryKey UInt64

/-- A new inode, without contents. -/
def Node.new (inode : UInt64) (kind : NodeKind) (mode : UInt32) (data : SparseData) : Node :=
  { inode, kind
    attributes := ⟨data.len, data.allocatedBytes, 0, 0, mode, 0, 0⟩
    data
    xattrs := ∅ }

def Namespace.empty : Namespace :=
  { nextInode := ROOT_INODE + 1
    nodes := (∅ : OrdMap UInt64 Node).insert ROOT_INODE
      (Node.new ROOT_INODE .directory 0o755 .empty)
    dentries := ∅ }

/-! ### Names and paths -/

def validateComponent (component : Text) : Except BexFsError Unit :=
  if component.bytes = [] ∨ component.bytes = ascii "." ∨ component.bytes = ascii ".." ∨
      component.len > 255 ∨ 0x2f ∈ component.bytes then .error .invalidArgs
  else .ok ()

def validateSymlinkTarget (target : Text) : Except BexFsError Unit :=
  if target.bytes = [] ∨ target.len > 4095 ∨ 0 ∈ target.bytes then .error .invalidArgs
  else .ok ()

def validateXattrName (name : Text) : Except BexFsError Unit :=
  if name.bytes = [] ∨ name.len > 255 ∨ 0 ∈ name.bytes ∨ 0x2e ∉ name.bytes then
    .error .invalidArgs
  else .ok ()

def validateAll : List Text → Except BexFsError Unit
  | [] => .ok ()
  | c :: cs => do
    validateComponent c
    validateAll cs

def validateRelativePath (path : Text) : Except BexFsError (List Text) :=
  if path.bytes = [] ∨ path.bytes.head? = some 0x2f ∨ path.bytes.getLast? = some 0x2f then
    .error .invalidArgs
  else do
    validateAll path.split
    return path.split

namespace Namespace

variable (ns : Namespace)

def requireDirectory (inode : UInt64) : Except BexFsError Unit :=
  match ns.nodes[inode]? with
  | some node => if node.kind = .directory then .ok () else .error .notDirectory
  | none => .error .notFound

/-- The first entry that names an inode. -/
def entryOf (inode : UInt64) : Option DentryKey :=
  (ns.dentries.toList.find? fun e => e.2 == inode).map Prod.fst

def directoryParent (inode : UInt64) : Except BexFsError UInt64 :=
  if inode = ROOT_INODE then .ok ROOT_INODE
  else
    match ns.entryOf inode with
    | some key => .ok key.parent
    | none => .error .corrupt

/-- Where a symbolic link in `parent` leads: the start and the components of its target. -/
def linkTarget (parent : UInt64) (node : Node) : Except BexFsError (UInt64 × List Text) :=
  match Text.ofUtf8 (node.data.readAt 0 node.data.len.toNat) with
  | none => .error .corrupt
  | some target => .ok (if target.bytes.head? = some 0x2f then ROOT_INODE else parent,
      target.split.filter fun c => c.bytes ≠ [])

/-- The components of one path in turn; a symbolic link that is followed goes on with
`follow`. -/
def walkLoop (follow : UInt64 → List Text → Except BexFsError UInt64) (followFinal : Bool) :
    UInt64 → List Text → Except BexFsError UInt64
  | current, [] => .ok current
  | current, c :: rest =>
    if c.bytes = ascii "." then walkLoop follow followFinal current rest
    else if c.bytes = ascii ".." then do
      ns.requireDirectory current
      let parent ← ns.directoryParent current
      walkLoop follow followFinal parent rest
    else do
      ns.requireDirectory current
      match ns.dentries[(⟨current, c⟩ : DentryKey)]? with
      | none => .error .notFound
      | some child =>
        match ns.nodes[child]? with
        | none => .error .notFound
        | some node =>
          if node.kind = .symlink ∧ (rest ≠ [] ∨ followFinal = true) then do
            let (start, components) ← linkTarget current node
            follow start (components ++ rest)
          else walkLoop follow followFinal child rest

/-- Follow a path; `steps` counts down the symbolic links that may be followed. -/
def walk (followFinal : Bool) : ℕ → UInt64 → List Text → Except BexFsError UInt64
  | 0, _, _ => .error .invalidArgs
  | steps + 1, current, components =>
    if ns.nodes[current]?.isNone then .error .notFound
    else ns.walkLoop (walk followFinal steps) followFinal current components

def resolvePath (base : UInt64) (path : Text) (followFinal : Bool) : Except BexFsError UInt64 := do
  let components ← validateRelativePath path
  ns.walk followFinal 41 base components

def resolve (base : UInt64) (path : Text) : Except BexFsError UInt64 :=
  if path.bytes = ascii "." then
    if ns.nodes[base]?.isSome then .ok base else .error .notFound
  else ns.resolvePath base path true

def resolveNoFollow (base : UInt64) (path : Text) : Except BexFsError UInt64 :=
  ns.resolvePath base path false

/-- Resolve the components before the last one after each other. -/
def resolveAll (parent : UInt64) : List Text → Except BexFsError UInt64
  | [] => .ok parent
  | c :: cs => do
    let next ← ns.resolve parent c
    resolveAll next cs

def resolveParent (base : UInt64) (path : Text) : Except BexFsError DentryKey := do
  let components ← validateRelativePath path
  match components.getLast? with
  | none => .error .invalidArgs
  | some name => do
    let parent ← ns.resolveAll base components.dropLast
    ns.requireDirectory parent
    return ⟨parent, name⟩

def hasChildren (inode : UInt64) : Bool := ns.dentries.toList.any fun e => e.1.parent == inode

/-- The names in a directory. -/
def childNames (inode : UInt64) : List Text :=
  (ns.dentries.toList.filter fun e => e.1.parent == inode).map fun e => e.1.name

/-! ### What a mounted namespace must satisfy -/

/-- Climb from a directory towards the root, at most so many steps. -/
def climb : ℕ → UInt64 → Option UInt64
  | 0, current => some current
  | steps + 1, current =>
    if current = ROOT_INODE then some current
    else
      match ns.entryOf current with
      | none => none
      | some key => climb steps key.parent

/-- The number of entries that name an inode. -/
def links (inode : UInt64) : ℕ := ns.dentries.toList.countP fun e => e.2 == inode

def isDirectory (inode : UInt64) : Bool := ns.nodes[inode]?.any (·.kind = .directory)

def nodeOk (node : Node) : Bool :=
  node.inode < ns.nextInode &&
    (node.kind = .directory || node.attributes.sizeBytes = node.data.len)

def entryOk (key : DentryKey) (inode : UInt64) : Bool :=
  (validateComponent key.name).isOk && inode ≠ ROOT_INODE && ns.nodes[inode]?.isSome &&
    ns.isDirectory key.parent

def linksOk (inode : UInt64) (node : Node) : Bool :=
  inode = ROOT_INODE || ns.links inode ≠ 0 && (node.kind ≠ .directory || ns.links inode = 1)

def validateNamespace : Except BexFsError Unit :=
  if ROOT_INODE < ns.nextInode ∧ ns.isDirectory ROOT_INODE ∧
      (ns.nodes.toList.all fun e => ns.nodeOk e.2) ∧
      (ns.dentries.toList.all fun e => ns.entryOk e.1 e.2) ∧
      (ns.nodes.toList.all fun e => ns.linksOk e.1 e.2) ∧
      (ns.nodes.toList.all fun e => e.2.kind ≠ .directory ||
        ns.climb ns.nodes.size e.2.inode = some ROOT_INODE) then .ok ()
  else .error .corrupt

end Namespace

/-! ### Operations -/

/-- Programs on the namespace. -/
abbrev NsM := Prog Namespace BexFsError

structure FileHandle where
  inode : UInt64
  cursor : UInt64
  readable : Bool
  writable : Bool
  deriving DecidableEq

namespace Bexfs

def modifyNode (inode : UInt64) (f : Node → Node) (ns : Namespace) : Namespace :=
  match ns.nodes[inode]? with
  | none => ns
  | some node => { ns with nodes := ns.nodes.insert inode (f node) }

/-- Add an inode and the entry that names it. -/
def addNode (key : DentryKey) (kind : NodeKind) (mode : UInt32) (data : SparseData) :
    NsM UInt64 := do
  let ns ← get
  check (ns.dentries[key]?.isNone) .alreadyExists
  let next ← some? (ns.nextInode.checkedAdd 1) .noSpace
  modify fun ns =>
    { nextInode := next
      nodes := ns.nodes.insert ns.nextInode (Node.new ns.nextInode kind mode data)
      dentries := ns.dentries.insert key ns.nextInode }
  return ns.nextInode

def createPath (base : UInt64) (path : Text) (directory : Bool) : NsM UInt64 := do
  let ns ← get
  let key ← lift (ns.resolveParent base path)
  addNode key (if directory then .directory else .file) (if directory then 0o755 else 0o600)
    .empty

/-- Find the inode of a path, or create it. -/
def openInode (base : UInt64) (path : Text) (flags : UInt32) : NsM UInt64 := do
  let ns ← get
  match if flags &&& 0x40 ≠ 0 then ns.resolveNoFollow base path else ns.resolve base path with
  | .ok inode => return inode
  | .error e =>
    if e = .notFound ∧ flags &&& 0x8 ≠ 0 then createPath base path (flags &&& 0x20 ≠ 0)
    else fail e

def openFile (readOnly : Bool) (base : UInt64) (path : Text) (flags : UInt32) : NsM FileHandle := do
  let readable : Bool := flags &&& 0x1 ≠ 0
  let writable : Bool := flags &&& 0x2 ≠ 0
  let requireDirectory : Bool := flags &&& 0x20 ≠ 0
  check (¬ (writable ∧ readOnly)) .readOnly
  let inode ← openInode base path flags
  let ns ← get
  let node ← some? ns.nodes[inode]? .corrupt
  check (¬ (requireDirectory ∧ node.kind ≠ .directory)) .notDirectory
  check (¬ (¬ requireDirectory ∧ node.kind = .directory)) .isDirectory
  when (flags &&& 0x10 ≠ 0) do
    check writable .accessDenied
    modify (modifyNode inode fun n => { n with data := n.data.truncate 0 }.updateSize)
  return ⟨inode, 0, readable, writable⟩

/-- The checks on a handle through which a file is changed. -/
def writableNode (readOnly : Bool) (handle : FileHandle) : NsM Node := do
  check (¬ readOnly) .readOnly
  check handle.writable .accessDenied
  let ns ← get
  let node ← some? ns.nodes[handle.inode]? .notFound
  check (node.kind ≠ .directory) .isDirectory
  return node

def write (readOnly : Bool) (handle : FileHandle) (bytes : Bytes) : NsM FileHandle := do
  let node ← writableNode readOnly handle
  let finish ← some? (handle.cursor.checkedAdd (UInt64.ofNat bytes.length)) .noSpace
  let data ← lift (node.data.writeAt handle.cursor bytes)
  modify (modifyNode handle.inode fun n => { n with data := data }.updateSize)
  return { handle with cursor := finish }

def setLen (readOnly : Bool) (handle : FileHandle) (len : UInt64) : NsM Unit := do
  let _ ← writableNode readOnly handle
  modify (modifyNode handle.inode fun n => { n with data := n.data.truncate len }.updateSize)

def setMetadata (readOnly : Bool) (inode : UInt64) (mode uid gid : UInt32)
    (modificationTimeNanos : UInt64) : NsM Unit := do
  check (¬ readOnly) .readOnly
  let ns ← get
  let _ ← some? ns.nodes[inode]? .notFound
  modify (modifyNode inode fun n =>
    { n with
      attributes := { n.attributes with mode := mode &&& 0o7777, uid, gid, modificationTimeNanos } })

/-- Remove an inode that no entry names any more. -/
def removeUnlinkedInode (inode : UInt64) (ns : Namespace) : Namespace :=
  if inode = ROOT_INODE ∨ ns.dentries.toList.any (fun e => e.2 == inode) then ns
  else { ns with nodes := ns.nodes.erase inode }

/-- Remove an entry, and the inode if that was its last one. -/
def detach (key : DentryKey) (inode : UInt64) (ns : Namespace) : Namespace :=
  removeUnlinkedInode inode { ns with dentries := ns.dentries.erase key }

def removeTreeEntry : ℕ → DentryKey → NsM Unit
  | 0, _ => halt
  | fuel + 1, key => do
    let ns ← get
    let inode ← some? ns.dentries[key]? .notFound
    forEach (ns.childNames inode) fun name => removeTreeEntry fuel ⟨inode, name⟩
    modify (detach key inode)

def removeTree (readOnly : Bool) (base : UInt64) (path : Text) : NsM Unit := do
  check (¬ readOnly) .readOnly
  let ns ← get
  let key ← lift (ns.resolveParent base path)
  removeTreeEntry (ns.nodes.size + 1) key

def unlink (readOnly : Bool) (directory : UInt64) (name : Text) : NsM Unit := do
  check (¬ readOnly) .readOnly
  lift (validateComponent name)
  let ns ← get
  lift (ns.requireDirectory directory)
  let inode ← some? ns.dentries[(⟨directory, name⟩ : DentryKey)]? .notFound
  check (¬ ns.hasChildren inode) .notEmpty
  modify (detach ⟨directory, name⟩ inode)

def link (readOnly : Bool) (base : UInt64) (source target : Text) : NsM Unit := do
  check (¬ readOnly) .readOnly
  let ns ← get
  let inode ← lift (ns.resolveNoFollow base source)
  check (ns.nodes[inode]?.any (·.kind ≠ .directory)) .accessDenied
  let key ← lift (ns.resolveParent base target)
  check (ns.dentries[key]?.isNone) .alreadyExists
  modify fun ns => { ns with dentries := ns.dentries.insert key inode }

def symlink (readOnly : Bool) (base : UInt64) (target linkPath : Text) : NsM Unit := do
  check (¬ readOnly) .readOnly
  lift (validateSymlinkTarget target)
  let ns ← get
  let key ← lift (ns.resolveParent base linkPath)
  let _ ← addNode key .symlink 0o777 (.fromDense target.bytes)

def setXattr (readOnly : Bool) (inode : UInt64) (name : Text) (value : Bytes) (flags : UInt32) :
    NsM Unit := do
  check (¬ readOnly) .readOnly
  lift (validateXattrName name)
  check (¬ (value.length > 65536 ∨ flags &&& ~~~3 ≠ 0 ∨ flags = 3)) .invalidArgs
  let ns ← get
  let node ← some? ns.nodes[inode]? .notFound
  check (¬ (flags = 1 ∧ node.xattrs[name]?.isSome)) .alreadyExists
  check (¬ (flags = 2 ∧ node.xattrs[name]?.isNone)) .notFound
  modify (modifyNode inode fun n => { n with xattrs := n.xattrs.insert name value })

def removeXattr (readOnly : Bool) (inode : UInt64) (name : Text) : NsM Unit := do
  check (¬ readOnly) .readOnly
  lift (validateXattrName name)
  let ns ← get
  let node ← some? ns.nodes[inode]? .notFound
  check (node.xattrs[name]?.isSome) .notFound
  modify (modifyNode inode fun n => { n with xattrs := n.xattrs.erase name })

/-- The directory `source` must not lie on the way from `ancestor` up to the root. -/
def checkAncestors (ns : Namespace) (source : UInt64) : ℕ → UInt64 → NsM Unit
  | 0, _ => halt
  | fuel + 1, ancestor =>
    if ancestor = source then fail .invalidArgs
    else if ancestor = ROOT_INODE then return ()
    else do
      let parent ← lift (ns.directoryParent ancestor)
      checkAncestors ns source fuel parent

/-- Give an inode the entry `target` in the place of `source`. -/
def moveEntry (source target : DentryKey) (inode : UInt64) : NsM Unit := do
  let ns ← get
  check (ns.dentries[source]?.isSome) .notFound
  modify fun ns => { ns with dentries := (ns.dentries.erase source).insert target inode }

/-- Move an entry over what it may replace. -/
def replaceEntry (source target : DentryKey) (inode : UInt64) (kind : NodeKind) : NsM Unit := do
  let ns ← get
  match ns.dentries[target]?.bind fun i => ns.nodes[i]?.map fun n => (i, n.kind) with
  | none => moveEntry source target inode
  | some (replaced, replacedKind) =>
    if replaced = inode ∧ source = target then return ()
    else do
      check (¬ (kind = .directory ∧ replacedKind ≠ .directory)) .notDirectory
      check (¬ (kind ≠ .directory ∧ replacedKind = .directory)) .isDirectory
      check (¬ ns.hasChildren replaced) .notEmpty
      modify (detach target replaced)
      moveEntry source target inode

def rename (readOnly : Bool) (base : UInt64) (source target : Text) : NsM Unit := do
  check (¬ readOnly) .readOnly
  let ns ← get
  let inode ← lift (ns.resolve base source)
  check (inode ≠ ROOT_INODE) .invalidArgs
  let sourceKey ← lift (ns.resolveParent base source)
  let targetKey ← lift (ns.resolveParent base target)
  let node ← some? ns.nodes[inode]? .notFound
  when (node.kind = .directory) (checkAncestors ns inode (ns.nodes.size + 1) targetKey.parent)
  replaceEntry sourceKey targetKey inode node.kind

end Bexfs

/-- The operations that change a namespace. -/
inductive FsOp where
  | openFile (base : UInt64) (path : Text) (flags : UInt32)
  | write (handle : FileHandle) (bytes : Bytes)
  | setLen (handle : FileHandle) (len : UInt64)
  | setMetadata (inode : UInt64) (mode uid gid : UInt32) (modificationTimeNanos : UInt64)
  | removeTree (base : UInt64) (path : Text)
  | unlink (directory : UInt64) (name : Text)
  | link (base : UInt64) (source target : Text)
  | symlink (base : UInt64) (target linkPath : Text)
  | setXattr (inode : UInt64) (name : Text) (value : Bytes) (flags : UInt32)
  | removeXattr (inode : UInt64) (name : Text)
  | rename (base : UInt64) (source target : Text)

namespace Bexfs

def exec (readOnly : Bool) : FsOp → NsM Unit
  | .openFile base path flags => do let _ ← openFile readOnly base path flags
  | .write handle bytes => do let _ ← write readOnly handle bytes
  | .setLen handle len => setLen readOnly handle len
  | .setMetadata inode mode uid gid mtime => setMetadata readOnly inode mode uid gid mtime
  | .removeTree base path => removeTree readOnly base path
  | .unlink directory name => unlink readOnly directory name
  | .link base source target => link readOnly base source target
  | .symlink base target linkPath => symlink readOnly base target linkPath
  | .setXattr inode name value flags => setXattr readOnly inode name value flags
  | .removeXattr inode name => removeXattr readOnly inode name
  | .rename base source target => rename readOnly base source target

/-- The namespace after an operation, whether it succeeded or returned an error. -/
def step (readOnly : Bool) (op : FsOp) (ns : Namespace) : Option Namespace :=
  (exec readOnly op ns).state?

/-- The namespaces reached from that of a formatted volume by operations that meet `C`. -/
def Reaches (readOnly : Bool) (C : Namespace → FsOp → Prop) (ns : Namespace) : Prop :=
  Steps (step readOnly) C Namespace.empty ns

end Bexfs

end Bexos
