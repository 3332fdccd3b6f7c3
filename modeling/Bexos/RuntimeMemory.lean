/-
Memory objects, address regions, mappings, pins and DMA (`runtime/memory.rs`).

* `Runtime.createVmo`, `Runtime.vmoPagePhys` — lazily backed memory objects;
* `Runtime.insertVmar`, `Runtime.createSubVmar`, `Runtime.destroyVmar` — the tree of address
  regions;
* `Runtime.mapAt` and its callers, `Runtime.unmapMatching` — mappings;
* `Runtime.pin`, `Runtime.mapDma` — memory devices may reach;
* `Runtime.copyToUser`, `Runtime.commitUserRange` — committing pages.

Design notes: loops over the pages of a range run over the list of page offsets.  Searches
that move a position forward (`allocateInVmar`, `validRange`) take a number of rounds that
the mappings and regions they skip bound; each round passes at least one of them.
-/
import Bexos.RuntimeIpc

namespace Bexos

open Prog

/-! ### Ranges -/

def overlaps (aBase aSize bBase bSize : UInt64) : Bool :=
  aBase < bBase.satAdd bSize && bBase < aBase.satAdd aSize

def rangeContains (base size childBase childSize : UInt64) : Bool :=
  childBase ≥ base && (childBase.checkedAdd childSize).any (· ≤ base.satAdd size)

/-- Is `base + size` above `limit`, or beyond the last word? -/
def endsAbove (base size limit : UInt64) : Bool :=
  (base.checkedAdd size).all (· > limit)

/-- The offsets of the pages of a range. -/
def pageOffsets (size : UInt64) : List UInt64 :=
  (List.range (size.toNat / 4096)).map fun i => UInt64.ofNat i * PAGE

/-- Is an address inside a mapping? -/
def Mapping.covers (m : Mapping) (va : UInt64) : Bool := va ≥ m.va && va < m.va + m.size

/-- Does a mapping meet the range from `va` to `va + size`? -/
def Mapping.overlapsRange (m : Mapping) (va size : UInt64) : Bool :=
  va < m.va + m.size && m.va < va + size

/-- The page of a memory object behind an address, the place in the page, and how many of
`len` bytes lie in the page and in the mapping. -/
def Mapping.piece (m : Mapping) (pos : UInt64) (len : ℕ) : UInt64 × UInt64 × ℕ :=
  let within := (m.offset + pos - m.va) &&& (PAGE - 1)
  ((m.offset + pos - m.va) &&& ~~~(PAGE - 1), within,
    min (min len (m.va + m.size - pos).toNat) (4096 - within.toNat))

/-- Device registers, but not shared device memory, are mapped uncached. -/
def Vmo.deviceMapping (v : Vmo) : Bool :=
  v.device && match v.backing with
    | .sharedDevice _ => false
    | _ => true

inductive ClockType where
  | monotonic | realtime | bootTime
  deriving DecidableEq

/-- Marks a token of a DMA mapping. -/
def DMA_TOKEN_TAG : UInt64 := 0x8000000000000000

def dmaTokenIndex (token : UInt64) : Except Status ℕ :=
  if token &&& DMA_TOKEN_TAG = 0 ∨ token &&& ~~~DMA_TOKEN_TAG = 0 then .error .errInvalidHandle
  else .ok ((token &&& ~~~DMA_TOKEN_TAG).toNat - 1)

namespace Runtime

variable {B : Type} [Backend B]

/-! ### Memory objects -/

def ensureZeroPage : RtM B UInt64 := do
  let s ← get
  match s.zeroPage with
  | some base => return base
  | none => do
    let base ← tryBackend (Backend.allocate 1)
    modify fun s => { s with zeroPage := some base }
    changed .metadata 0
    return base

abbrev importVmo (base size : UInt64) (device bootfs : Bool) (rights : UInt32) : RtM B ℕ := do
  let id ← insertVmo { size, refs := 0, device, bootfs, backing := .contiguous base }
  when bootfs do
    let s ← get
    let pages ← unwrap (s.bootfsPages.checkedAdd (size / PAGE))
    modify fun s => { s with bootfsPages := pages }
  grantCurrent (.vmo id) rights

/-- A lazily backed memory object: pages are committed when they are first written. -/
abbrev createLazyVmo (size : UInt64) : RtM B ℕ := do
  let _ ← ensureZeroPage
  let id ← insertVmo
    { size
      refs := 0
      device := false
      bootfs := false
      backing := .lazyAnonymous (List.replicate (size / PAGE).toNat none) }
  changed .vmo id
  grantCurrent (.vmo id) ALL_MEMORY

/-- Contiguous memory is for drivers and for the application manager. -/
abbrev checkContiguous : RtM B Unit := do
  let s ← get
  let p ← currentProcess
  check (¬ ((p.hardware ≠ 2 ∧ ¬ s.hasAuthority AUTH_APP_MANAGER) ∨ p.quarantined))
    .errAccessDenied

abbrev createVmo (size : UInt64) (flags : UInt32) : RtM B ℕ := do
  check (¬ (size = 0 ∨ size > 64 * 1024 * 1024 ∨ flags &&& ~~~15 ≠ 0)) .errInvalidArgs
  when (flags &&& 2 ≠ 0) checkContiguous
  let size ← some? (pageRound size) .errInvalidArgs
  if flags &&& 2 ≠ 0 then do
    let base ← tryBackend (Backend.allocate (size / PAGE))
    importVmo base size false false ALL_MEMORY
  else createLazyVmo size

/-- The packages that may map device registers, and where. -/
def physicalRangeAllowed (arch : Arch) (package : Text) (base size last : UInt64) : Bool :=
  if package.bytes ∈ [ascii "bexos.driver.pci_root", ascii "bexos.driver.network.virtio_net",
      ascii "bexos.driver.display.virtio_gpu", ascii "bexos.driver.input.virtio",
      ascii "bexos.driver.serial.virtio_console"] then
    match arch with
    | .x86_64 => base ≥ 0xb0000000 && last ≤ 0xfec00000
    | .aarch64 => base ≥ 0x3f000000 && last ≤ 0x40000000 ||
        base ≥ 0x10000000 && last ≤ 0x3eff0000
  else if package.bytes ∈ [ascii "bexos.driver.uart.pl011", ascii "bexos.driver.debugd"] then
    arch == .aarch64 && base == 0x09000000 && size == PAGE
  else if package.bytes = ascii "bexos.driver.rtc.pl031" then
    base == 0x09010000 && size == PAGE
  else false

abbrev physicalVmo (base size : UInt64) : RtM B ℕ := do
  let p ← currentProcess
  check (p.hardware = 2 ∧ ¬ p.quarantined) .errAccessDenied
  let last ← some? (base.checkedAdd size) .errInvalidArgs
  check (physicalRangeAllowed (Backend.arch B) p.package base size last ∧ size ≠ 0 ∧
    base % PAGE = 0 ∧ size % PAGE = 0) .errAccessDenied
  importVmo base size true false (READ ||| WRITE ||| MAP ||| TRANSFER ||| DUPLICATE)

abbrev vmoFor (h : ℕ) (rights : UInt32) : RtM B ℕ := do
  let c ← cap h rights
  some? c.object.vmo? .errInvalidHandle

abbrev sharedDeviceVmo (base size : UInt64) : RtM B ℕ := do
  let p ← currentProcess
  check (p.package.bytes = ascii "bexos.driver.display.virtio_gpu") .errAccessDenied
  let h ← physicalVmo base size
  let id ← vmoFor h (READ ||| WRITE)
  let s ← get
  let _ ← unwrap (s.vmo id)
  modify (modifyVmo id fun v => { v with backing := .sharedDevice base })
  changed .vmo id
  return h

/-- A page of zeros. -/
def zeroBytes : Bytes := List.replicate 4096 0

/-- Store a committed page in a lazily backed memory object. -/
def setPage (index : ℕ) (page : UInt64) (v : Vmo) : Vmo :=
  match v.backing with
  | .lazyAnonymous pages => { v with backing := .lazyAnonymous (pages.set index (some page)) }
  | _ => v

/-- The frame behind a page, and whether it is the shared page of zeros. A page that is to
be written is committed first. -/
def vmoPagePhys (id : ℕ) (offset : UInt64) (forWrite : Bool) : RtM B (UInt64 × Bool) := do
  check (offset % PAGE = 0) .errInvalidArgs
  let s ← get
  let v ← some? (s.vmo id) .errInvalidHandle
  match v.backing with
  | .contiguous base | .sharedDevice base => return (base + offset, false)
  | .lazyAnonymous pages => do
    let page ← some? pages[(offset / PAGE).toNat]? .errInvalidArgs
    match page with
    | some base => return (base, false)
    | none =>
      if forWrite then do
        let page ← tryBackend (Backend.allocate 1)
        onBackend (Backend.write page zeroBytes)
        modify (modifyVmo id (setPage (offset / PAGE).toNat page))
        changed .vmo id
        return (page, false)
      else do
        let base ← ensureZeroPage
        return (base, true)

/-- The frame behind a page without committing it. -/
def vmoPagePhysReadOnly (s : Runtime B) (id : ℕ) (offset : UInt64) : Option (UInt64 × Bool) := do
  let v ← s.vmo id
  match v.backing with
  | .contiguous base | .sharedDevice base => return (base + offset, false)
  | .lazyAnonymous pages =>
    match (pages[(offset / PAGE).toNat]?).join with
    | some base => return (base, false)
    | none => do
      let zero ← s.zeroPage
      return (zero, true)

/-- Cut a range at page boundaries: the position and length of each piece. -/
def pageSpans : ℕ → UInt64 → ℕ → List (UInt64 × ℕ)
  | 0, _, _ => []
  | _, _, 0 => []
  | n + 1, position, len =>
    let count := min len (4096 - (position &&& (PAGE - 1)).toNat)
    (position, count) :: pageSpans n (position + UInt64.ofNat count) (len - count)

/-- The bytes of a piece of a memory object; uncommitted pages read as zeros. -/
def readSpan (s : Runtime B) (id : ℕ) (position : UInt64) (count : ℕ) : Except Status Bytes :=
  match s.vmoPagePhysReadOnly id (position &&& ~~~(PAGE - 1)) with
  | none => .error .errInvalidHandle
  | some (_, true) => .ok (List.replicate count 0)
  | some (pa, false) => .ok (Backend.read s.backend (pa + (position &&& (PAGE - 1))) count)

def readSpans (s : Runtime B) (id : ℕ) : List (UInt64 × ℕ) → Except Status Bytes
  | [] => .ok []
  | (position, count) :: spans => do
    let bytes ← s.readSpan id position count
    let rest ← readSpans s id spans
    return bytes ++ rest

def readVmoObject (s : Runtime B) (id : ℕ) (offset : UInt64) (len : ℕ) : Except Status Bytes :=
  match s.vmo id with
  | none => .error .errInvalidHandle
  | some v =>
    if v.device ∨ endsAbove offset (UInt64.ofNat len) v.size then .error .errAccessDenied
    else s.readSpans id (pageSpans len offset len)

abbrev writeVmoObject (id : ℕ) (offset : UInt64) (bytes : Bytes) : RtM B Unit := do
  let s ← get
  let v ← some? (s.vmo id) .errInvalidHandle
  check (¬ (v.device ∨ endsAbove offset (UInt64.ofNat bytes.length) v.size)) .errAccessDenied
  forEach (pageSpans bytes.length offset bytes.length) fun (position, count) => do
    let (pa, _) ← vmoPagePhys id (position &&& ~~~(PAGE - 1)) true
    onBackend (Backend.write (pa + (position &&& (PAGE - 1)))
      ((bytes.drop (position - offset).toNat).take count))
  changed .vmo id

/-! ### Address regions -/

section Regions

variable (s : Runtime B)

/-- The live children of a region. -/
def liveChildren (parent : ℕ) : List Vmar :=
  (s.vmars.filterMap id).filter fun v => v.parent == some parent && !v.destroyed

def mappingsOf (pid : ℕ) : List Mapping := ((s.processes[pid]?).map (·.mappings)).getD []

/-- Move a position past the mappings and children that are in the way. -/
def passObstacles (va : UInt64) (size : UInt64) : List (UInt64 × UInt64) → UInt64 →
    Except Status UInt64
  | [], next => .ok next
  | (base, len) :: obstacles, next =>
    if overlaps base len va size then
      match base.checkedAdd len with
      | none => .error .errNoMemory
      | some last => passObstacles va size obstacles (max next last)
    else passObstacles va size obstacles next

def searchFree (region : Vmar) (obstacles : List (UInt64 × UInt64)) (size : UInt64) :
    ℕ → UInt64 → Except Status UInt64
  | 0, _ => .error .errNoMemory
  | rounds + 1, va =>
    if rangeContains region.base region.size va size then do
      let next ← passObstacles va size obstacles va
      if next = va then return va
      else
        match pageRound next with
        | none => .error .errNoMemory
        | some va => searchFree region obstacles size rounds va
    else .error .errNoMemory

/-- The first free range in a region. -/
def allocateInVmar (vmarId : ℕ) (size : UInt64) : Except Status UInt64 :=
  match s.vmar vmarId with
  | none => .error .errInvalidHandle
  | some region =>
    if size = 0 ∨ size % PAGE ≠ 0 then .error .errInvalidArgs
    else
      let obstacles := (s.mappingsOf region.owner).map (fun m => (m.va, m.size)) ++
        (s.liveChildren vmarId).map fun v => (v.base, v.size)
      searchFree region obstacles size (obstacles.length + 1) region.base

/-- The indices of a list of regions' live children. -/
def childIds (parent : ℕ) : List ℕ :=
  (List.range s.vmars.length).filter fun id =>
    (s.vmar id).any fun v => v.parent == some parent && !v.destroyed

/-- Breadth-first search below a region: the list grows while it is being walked. -/
def subtreeFrom : ℕ → ℕ → List ℕ → List ℕ
  | 0, _, ids => ids
  | rounds + 1, index, ids =>
    match ids[index]? with
    | none => ids
    | some parent => subtreeFrom rounds (index + 1) (ids ++ s.childIds parent)

/-- A region and all live regions below it. A child is younger than its parent, so no
region is met twice. -/
def vmarSubtree (root : ℕ) : List ℕ := s.subtreeFrom (s.vmars.length + 1) 0 [root]

end Regions

/-- A new region lies in its parent, with no more rights, and clear of the parent's other
children and of every mapping of the process. -/
def checkVmarParent (owner : ℕ) (base size : UInt64) (rights : UInt32) : Option ℕ → RtM B Unit
  | none => return ()
  | some parentId => do
    let s ← get
    let parent ← some? (s.vmar parentId) .errInvalidHandle
    check (¬ (parent.owner ≠ owner ∨ parent.destroyed ∨
      rights &&& ~~~(parent.rights ||| TRANSFER ||| ADMIN) ≠ 0 ∨
      ¬ rangeContains parent.base parent.size base size)) .errAccessDenied
    check (¬ (s.liveChildren parentId).any fun v => overlaps v.base v.size base size)
      .errAlreadyExists
    let p ← unwrap s.processes[owner]?
    check (¬ p.mappings.any fun m => overlaps m.va m.size base size) .errAlreadyExists

def insertVmar (owner : ℕ) (parent : Option ℕ) (base size : UInt64) (rights : UInt32) :
    RtM B ℕ := do
  check (¬ (size = 0 ∨ size % PAGE ≠ 0 ∨ base % PAGE ≠ 0)) .errInvalidArgs
  check (¬ (endsAbove base size USER_END ∨ base < (Backend.arch B).userStart)) .errInvalidArgs
  checkVmarParent owner base size rights parent
  let s ← get
  let id := s.vmars.length
  modify fun s =>
    { s with
      vmars := s.vmars ++
        [some { owner, parent, base, size, rights, refs := 0, destroyed := false }] }
  changed .vmar id
  return id

abbrev rootVmarConstructionHandle (space : ℕ) : RtM B ℕ := do
  let c ← cap space MAP
  let pid ← some? c.object.space? .errInvalidHandle
  let s ← get
  let p ← unwrap s.processes[pid]?
  grantCurrent (.vmar p.rootVmar)
    (READ ||| WRITE ||| EXECUTE ||| MAP ||| ADMIN ||| TRANSFER ||| DUPLICATE)

def vmarFlagsToRights (flags : UInt32) : Except Status UInt32 :=
  if flags &&& ~~~0x3f ≠ 0 then .error .errInvalidArgs
  else
    let rights := (if flags &&& 1 ≠ 0 then READ else 0) |||
      (if flags &&& 2 ≠ 0 then WRITE else 0) ||| (if flags &&& 4 ≠ 0 then EXECUTE else 0)
    if rights = 0 then .error .errAccessDenied else .ok rights

/-- Where a new child region goes: anywhere free, or at an offset. -/
def subVmarBase (s : Runtime B) (parentId : ℕ) (parent : Vmar) (offset size : UInt64)
    (flags : UInt32) : Except Status UInt64 :=
  if flags &&& 0x20 ≠ 0 then
    if offset ≠ 0 then .error .errInvalidArgs else s.allocateInVmar parentId size
  else
    match parent.base.checkedAdd offset with
    | none => .error .errInvalidArgs
    | some base => .ok base

def createSubVmar (parent : ℕ) (offset size : UInt64) (flags : UInt32) : RtM B (ℕ × UInt64) := do
  let c ← cap parent MAP
  let parentId ← some? c.object.vmar? .errInvalidHandle
  let s ← get
  let parentVmar ← some? (s.vmar parentId) .errInvalidHandle
  let base ← lift (s.subVmarBase parentId parentVmar offset size flags)
  let mapRights ← lift (vmarFlagsToRights flags)
  let rights := MAP ||| TRANSFER ||| mapRights ||| (if flags &&& 8 ≠ 0 then ADMIN else 0)
  let id ← insertVmar parentVmar.owner (some parentId) base size rights
  let h ← grantCurrent (.vmar id) rights
  return (h, base)

/-! ### Mappings -/

def unmapPages (root va : UInt64) (offsets : List UInt64) : RtM B Unit := do
  forEach offsets fun off => onBackend (Backend.unmapPage root (va + off))
  onBackend Backend.flushMappings

/-- Map the pages of a memory object; `mapped` are the offsets already mapped, which are
unmapped again if the machine refuses a page. -/
def mapPages (id : ℕ) (root offset va : UInt64) (rights : UInt32) (device : Bool)
    (mapped : List UInt64) : List UInt64 → RtM B Unit
  | [] => return ()
  | off :: rest => do
    let (pa, zeroPage) ← vmoPagePhys id (offset + off) false
    let pageRights := if zeroPage then rights &&& ~~~WRITE else rights
    match ← attempt (tryBackend (Backend.mapPage root (va + off) pa pageRights device)) with
    | .ok _ => mapPages id root offset va rights device (mapped ++ [off]) rest
    | .error e => do
      unmapPages root va mapped
      fail e

/-- The checks of `map_at` on the rights and the shape of a mapping. -/
def mappingShapeOk (offset size : UInt64) (rights : UInt32) : Bool :=
  rights &&& ~~~(READ ||| WRITE ||| EXECUTE) == 0 && rights &&& READ != 0 &&
    rights &&& (WRITE ||| EXECUTE) != WRITE ||| EXECUTE &&
    size != 0 && size % PAGE == 0 && offset % PAGE == 0

/-- The checks of `map_at` against the address space. -/
def checkPlacement (pid vmarId id : ℕ) (offset size va : UInt64) (rights : UInt32) :
    RtM B (Vmo × UInt64 × UInt64) := do
  let s ← get
  let region ← some? (s.vmar vmarId) .errInvalidHandle
  check (¬ (region.owner ≠ pid ∨ region.destroyed ∨
    ¬ rangeContains region.base region.size va size)) .errInvalidArgs
  check (rights &&& ~~~region.rights &&& (READ ||| WRITE ||| EXECUTE) = 0) .errAccessDenied
  let v ← unwrap (s.vmo id)
  check (¬ endsAbove offset size v.size) .errInvalidArgs
  let p ← unwrap s.processes[pid]?
  check (¬ (v.device ∧ (rights &&& EXECUTE ≠ 0 ∨ p.quarantined))) .errAccessDenied
  let last ← some? (va.checkedAdd size) .errInvalidArgs
  check (¬ (va < (Backend.arch B).userStart ∨ last > USER_END ∨ va % PAGE ≠ 0)) .errInvalidArgs
  check (¬ p.mappings.any fun m => va < m.va + m.size && last > m.va) .errAlreadyExists
  check (¬ (s.liveChildren vmarId).any fun v => overlaps v.base v.size va size) .errAlreadyExists
  check (¬ (p.exited ∨ p.root = 0)) .errInvalidArgs
  return (v, p.root, last)

/-- Enter a mapping into the tables. -/
def recordMapping (pid : ℕ) (m : Mapping) (last : UInt64) : RtM B Unit := do
  modify (modifyVmo m.vmo fun v => { v with refs := v.refs + 1 })
  changed .vmo m.vmo
  modify (modifyProcess pid fun p =>
    { p with
      mappings := p.mappings ++ [m]
      nextVa := if m.va = p.nextVa then last + PAGE else p.nextVa })
  changed .process pid

def mapAt (pid vmarId h : ℕ) (offset size va : UInt64) (rights : UInt32) : RtM B UInt64 := do
  let id ← vmoFor h (MAP ||| rights)
  check (mappingShapeOk offset size rights) .errInvalidArgs
  let (v, root, last) ← checkPlacement pid vmarId id offset size va rights
  mapPages id root offset va rights v.deviceMapping [] (pageOffsets size)
  onBackend Backend.flushMappings
  recordMapping pid ⟨id, vmarId, offset, va, size, rights⟩ last
  return va

/-- Where a mapping goes in a region: anywhere free, or at an offset. -/
def mappingBase (s : Runtime B) (vmarId : ℕ) (region : Vmar) (vmarOffset size : UInt64) :
    Except Status UInt64 :=
  if vmarOffset = 0 then s.allocateInVmar vmarId size
  else
    match region.base.checkedAdd vmarOffset with
    | none => .error .errInvalidArgs
    | some va => .ok va

abbrev mapInVmar (vmarId h : ℕ) (offset vmarOffset size : UInt64) (rights : UInt32) :
    RtM B UInt64 := do
  let s ← get
  let region ← some? (s.vmar vmarId) .errInvalidHandle
  check (¬ (region.destroyed ∨
    rights &&& ~~~region.rights &&& (READ ||| WRITE ||| EXECUTE) ≠ 0)) .errAccessDenied
  let va ← lift (s.mappingBase vmarId region vmarOffset size)
  mapAt region.owner vmarId h offset size va rights

abbrev mapVmoInVmar (vmar h : ℕ) (offset vmarOffset size : UInt64) (flags : UInt32) :
    RtM B UInt64 := do
  let c ← cap vmar MAP
  let vmarId ← some? c.object.vmar? .errInvalidHandle
  let rights ← lift (vmarFlagsToRights flags)
  mapInVmar vmarId h offset vmarOffset size rights

/-- The process an optional address-space handle names. -/
def spaceProcess : Option ℕ → RtM B ℕ
  | none => do
    let s ← get
    return s.current
  | some space => do
    let c ← cap space MAP
    some? c.object.space? .errInvalidHandle

abbrev map (space : Option ℕ) (h : ℕ) (offset size va : UInt64) (rights : UInt32) : RtM B UInt64 := do
  let pid ← spaceProcess space
  let s ← get
  let p ← unwrap s.processes[pid]?
  let va ← lift (if va = 0 then s.allocateInVmar p.rootVmar size else .ok va)
  mapAt pid p.rootVmar h offset size va rights

/-- Remove the mapping of exactly a range, if it belongs to one of the regions. -/
def unmapMatching (pid : ℕ) (vmars : List ℕ) (va size : UInt64) : RtM B Unit := do
  let s ← get
  let p ← unwrap s.processes[pid]?
  let i ← some? (p.mappings.findIdx? fun m =>
    m.va == va && m.size == size && (vmars.isEmpty || m.vmar ∈ vmars)) .errInvalidArgs
  let m ← unwrap p.mappings[i]?
  modify (modifyProcess pid fun p =>
    { p with
      mappings := swapRemove p.mappings i
      nextVa := if (m.va.satAdd m.size).satAdd PAGE = p.nextVa then m.va else p.nextVa })
  changed .process pid
  unmapPages p.root va (pageOffsets size)
  releaseVmo m.vmo

abbrev unmap (space : Option ℕ) (va size : UInt64) : RtM B Unit := do
  let pid ← spaceProcess space
  unmapMatching pid [] va size

abbrev unmapInVmar (vmar : ℕ) (va size : UInt64) : RtM B Unit := do
  let c ← cap vmar MAP
  let vmarId ← some? c.object.vmar? .errInvalidHandle
  let s ← get
  let region ← some? (s.vmar vmarId) .errInvalidHandle
  unmapMatching region.owner (s.vmarSubtree vmarId) va size

/-- The handle slots that name a destroyed region, with the region. -/
def deadVmarHandles (s : Runtime B) : List (ℕ × ℕ) :=
  (List.range s.handles.length).filterMap fun i => do
    let c ← (s.handles[i]?).join
    let id ← c.object.vmar?
    if (s.vmar id).any (·.destroyed) then some (i, id) else none

def destroyVmar (vmar : ℕ) : RtM B Unit := do
  let c ← cap vmar ADMIN
  let vmarId ← some? c.object.vmar? .errInvalidHandle
  let s ← get
  check (¬ (s.vmar vmarId).any (·.parent.isNone)) .errAccessDenied
  let region ← some? (s.vmar vmarId) .errInvalidHandle
  let ids := s.vmarSubtree vmarId
  let p ← unwrap s.processes[region.owner]?
  forEach (p.mappings.filter (·.vmar ∈ ids)) fun m => unmapMatching region.owner ids m.va m.size
  forEach ids fun id => do
    modify (modifyVmar id fun v => { v with destroyed := true })
    changed .vmar id
  let s ← get
  forEach s.deadVmarHandles fun (i, id) => do
    modify (clearSlot i)
    changed .handle i
    releaseVmar id

/-! ### Memory for devices -/

/-- The pages mapped from a memory object: the root of the address space, the mapping. -/
def mappingsForVmo (s : Runtime B) (id : ℕ) : List (UInt64 × Mapping) :=
  s.processes.flatMap fun p => (p.mappings.filter (·.vmo == id)).map fun m => (p.root, m)

/-- Copy the pages of a memory object into consecutive frames. -/
def copyPages (newBase : UInt64) (pages : List (Option UInt64)) : RtM B Unit :=
  forEach pages.zipIdx fun (page, index) => do
    let s ← get
    let bytes := match page with
      | some source => Backend.read s.backend source 4096
      | none => zeroBytes
    onBackend (Backend.write (newBase + UInt64.ofNat index * PAGE) bytes)

/-- Point the pages of a mapping at consecutive frames. -/
def remapContiguous (newBase : UInt64) (device : Bool) (root : UInt64) (m : Mapping) : RtM B Unit :=
  forEach (pageOffsets m.size) fun off => do
    onBackend (Backend.unmapPage root (m.va + off))
    tryBackend (Backend.mapPage root (m.va + off) (newBase + m.offset + off) m.rights device)

/-- Give a memory object consecutive frames. The backing is replaced before the mappings
follow; a refused page leaves the change unmarked. -/
def materializeContiguousVmo (id : ℕ) : RtM B UInt64 := do
  let s ← get
  let v ← some? (s.vmo id) .errInvalidHandle
  match v.backing with
  | .contiguous base => return base
  | .sharedDevice _ => fail .errAccessDenied
  | .lazyAnonymous pages => do
    let newBase ← tryBackend (Backend.allocate (v.size / PAGE))
    copyPages newBase pages
    modify (modifyVmo id fun v => { v with backing := .contiguous newBase })
    forEach (pages.filterMap fun page => page) fun page => onBackend (Backend.release page 1)
    forEach (s.mappingsForVmo id) fun (root, m) =>
      remapContiguous newBase v.deviceMapping root m
    onBackend Backend.flushMappings
    changed .vmo id
    return newBase

abbrev materializeVmoForKernelSlice (id : ℕ) : RtM B UInt64 := do
  let s ← get
  let v ← some? (s.vmo id) .errInvalidHandle
  check (¬ v.device) .errAccessDenied
  materializeContiguousVmo id

def processHasIommuDomain (s : Runtime B) (owner : ℕ) : Bool :=
  s.iommuDomains.zipIdx.any fun (domain, id) => domain.any fun d =>
    !d.closed && s.handles.any fun c => c.any fun cap =>
      cap.owner == owner && cap.object == .iommuDomain id

abbrev pin (h : ℕ) : RtM B (UInt64 × ℕ) := do
  let p ← currentProcess
  let secureMonitor := p.authority &&& AUTH_SECURE_MONITOR ≠ 0
  check (¬ ((¬ secureMonitor ∧ p.hardware ≠ 2) ∨ p.quarantined)) .errAccessDenied
  let s ← get
  check (¬ (¬ secureMonitor ∧ s.processHasIommuDomain s.current)) .errAccessDenied
  let id ← vmoFor h (READ ||| WRITE)
  let v ← unwrap (s.vmo id)
  check (¬ (v.device ∨ v.bootfs)) .errAccessDenied
  let base ← materializeContiguousVmo id
  modify (modifyVmo id fun v => { v with refs := v.refs + 1 })
  changed .vmo id
  let index := s.pins.length
  modify fun s => { s with pins := s.pins ++ [some (s.current, id)] }
  changed .pin index
  return (base, index + 1)

abbrev unpin (token : ℕ) : RtM B Unit := do
  check (token ≠ 0) .errInvalidHandle
  let s ← get
  let (owner, id) ← some? (s.pins[token - 1]?).join .errInvalidHandle
  check (owner = s.current) .errAccessDenied
  onBackend (Backend.revokeSharedPin (UInt64.ofNat token))
  modify fun s => { s with pins := s.pins.set (token - 1) none }
  changed .pin (token - 1)
  releaseVmo id

/-- The record of a new domain is marked by the grant of its first handle. -/
abbrev createIommuDomain (streamId : UInt64) (addressWidth : UInt8) : RtM B ℕ := do
  let s ← get
  let p ← currentProcess
  check (¬ ((¬ s.hasAuthority AUTH_APP_MANAGER ∧ p.hardware ≠ 2) ∨ p.quarantined))
    .errAccessDenied
  check (¬ (streamId = 0 ∨ addressWidth < 32 ∨ addressWidth > 48)) .errInvalidArgs
  check (¬ s.iommuDomains.any fun d => d.any fun d => !d.closed && d.streamId == streamId)
    .errAlreadyExists
  let id := s.iommuDomains.length
  modify fun s =>
    { s with
      iommuDomains := s.iommuDomains ++
        [some { owner := s.current, streamId, addressWidth, refs := 0, closed := false }] }
  grantCurrent (.iommuDomain id) (READ ||| WRITE ||| TRANSFER ||| DUPLICATE)

/-- The domain an open capability names. -/
abbrev openDomain (h : ℕ) : RtM B (ℕ × IommuDomain) := do
  let c ← cap h WRITE
  let id ← some? c.object.iommuDomain? .errInvalidHandle
  let s ← get
  let d ← some? (s.iommuDomains[id]?).join .errInvalidHandle
  check (¬ d.closed) .errAccessDenied
  return (id, d)

/-- The memory object of a DMA request; the device gets no more than the caller may. -/
abbrev dmaVmo (h : ℕ) (offset length : UInt64) (permissions : UInt32) : RtM B ℕ := do
  check (¬ (length = 0 ∨ offset % PAGE ≠ 0 ∨ length % PAGE ≠ 0 ∨
    permissions &&& (READ ||| WRITE) = 0 ∨ permissions &&& ~~~(READ ||| WRITE) ≠ 0))
    .errInvalidArgs
  let id ← vmoFor h permissions
  let s ← get
  let v ← some? (s.vmo id) .errInvalidHandle
  check (¬ (v.device ∨ v.bootfs ∨ endsAbove offset length v.size)) .errAccessDenied
  return id

def mapDma (domain h : ℕ) (offset length : UInt64) (permissions : UInt32) :
    RtM B (UInt64 × UInt64) := do
  let (domainId, d) ← openDomain domain
  let id ← dmaVmo h offset length permissions
  let base ← materializeContiguousVmo id
  let deviceAddress ← some? (base.checkedAdd offset) .errInvalidArgs
  check (¬ endsAbove deviceAddress length (UInt64.ofNat (2 ^ min d.addressWidth.toNat 63)))
    .errInvalidArgs
  let s ← get
  check (¬ s.dmaMappings.any fun m => m.any fun m =>
    m.domain == domainId && overlaps m.deviceAddress m.length deviceAddress length)
    .errAlreadyExists
  let _ ← some? (s.vmo id) .errInvalidHandle
  modify (modifyVmo id fun v => { v with refs := v.refs + 1 })
  changed .vmo id
  let token := s.dmaMappings.length
  modify fun s =>
    { s with
      dmaMappings := s.dmaMappings ++
        [some ⟨s.current, domainId, id, offset, length, permissions, deviceAddress⟩] }
  changed .dmaMapping token
  return (deviceAddress, DMA_TOKEN_TAG ||| UInt64.ofNat (token + 1))

abbrev unmapDma (token : UInt64) : RtM B Unit := do
  let index ← lift (dmaTokenIndex token)
  let s ← get
  let m ← some? (s.dmaMappings[index]?).join .errInvalidHandle
  check (m.owner = s.current) .errAccessDenied
  modify fun s => { s with dmaMappings := s.dmaMappings.set index none }
  changed .dmaMapping index
  releaseVmo m.vmo

/-! ### User memory -/

/-- Walk the mappings that cover a range; each round leaves one mapping behind. -/
def coveredFrom (mappings : List Mapping) (rights : UInt32) (last : UInt64) : ℕ → UInt64 → Bool
  | 0, _ => false
  | rounds + 1, pos =>
    if pos < last then
      match mappings.find? fun m => m.covers pos && m.rights &&& rights == rights with
      | none => false
      | some m => coveredFrom mappings rights last rounds (min last (m.va + m.size))
    else true

def validRange (s : Runtime B) (pid : ℕ) (va len : UInt64) (rights : UInt32) : Bool :=
  if len = 0 then true
  else
    match va.checkedAdd len with
    | none => false
    | some last =>
      coveredFrom (s.mappingsOf pid) rights last ((s.mappingsOf pid).length + 1) va

/-- Copy bytes in, page by page; every piece is at least a byte long. -/
def copyFromUserAt (s : Runtime B) : ℕ → UInt64 → ℕ → Except Status Bytes
  | _, _, 0 => .ok []
  | 0, _, _ => .ok []
  | rounds + 1, pos, len =>
    match (s.mappingsOf s.current).find? (·.covers pos) with
    | none => .error .errAccessDenied
    | some m =>
      let (page, within, n) := m.piece pos len
      match s.vmoPagePhysReadOnly m.vmo page with
      | none => .error .errInvalidHandle
      | some (pa, zeroPage) => do
        let rest ← copyFromUserAt s rounds (pos + UInt64.ofNat n) (len - n)
        return (if zeroPage then List.replicate n 0
          else Backend.read s.backend (pa + within) n) ++ rest

def copyFromUser (s : Runtime B) (va : UInt64) (len : ℕ) : Except Status Bytes :=
  if s.validRange s.current va (UInt64.ofNat len) READ then s.copyFromUserAt len va len
  else .error .errAccessDenied

/-- The mappings of every process that show a page of a memory object: the root and the
identifier of the address space, the mapping. -/
def aliases (s : Runtime B) (vmo : ℕ) (page : UInt64) : List (UInt64 × UInt16 × Mapping) :=
  s.processes.flatMap fun p =>
    (p.mappings.filter fun m =>
      m.vmo == vmo && page ≥ m.offset && page < m.offset + m.size).map fun m =>
        (p.root, p.asid, m)

/-- Show a committed page wherever the page of zeros was shown. -/
abbrev remapCommittedPage (m : Mapping) (page pa : UInt64) : RtM B Unit := do
  let s ← get
  let device := (s.vmo m.vmo).any (·.deviceMapping)
  forEach (s.aliases m.vmo page) fun (root, asid, shown) => do
    let va := shown.va + page - shown.offset
    onBackend (Backend.unmapPage root va)
    tryBackend (Backend.mapPage root va pa shown.rights device)
    onBackend (Backend.flushPage asid va)

/-- Copy bytes out, page by page, committing what is written. -/
def copyToUserAt : ℕ → UInt64 → Bytes → RtM B Unit
  | _, _, [] => return ()
  | 0, _, _ => return ()
  | rounds + 1, pos, bytes => do
    let s ← get
    let m ← unwrap ((s.mappingsOf s.current).find? (·.covers pos))
    let (page, within, n) := m.piece pos bytes.length
    let (pa, _) ← vmoPagePhys m.vmo page true
    onBackend (Backend.write (pa + within) (bytes.take n))
    remapCommittedPage m page pa
    copyToUserAt rounds (pos + UInt64.ofNat n) (bytes.drop n)

abbrev copyToUser (va : UInt64) (bytes : Bytes) : RtM B Unit := do
  let s ← get
  check (s.validRange s.current va (UInt64.ofNat bytes.length) WRITE) .errAccessDenied
  copyToUserAt bytes.length va bytes

/-- Commit the page of a memory object that a mapping shows at an address. -/
abbrev commitPage (m : Mapping) (va : UInt64) : RtM B Unit := do
  let page := m.offset + va - m.va
  let (pa, _) ← vmoPagePhys m.vmo page true
  remapCommittedPage m page pa

abbrev commitUserWriteFault (va : UInt64) : RtM B Unit := do
  let va := va &&& ~~~(PAGE - 1)
  let p ← currentProcess
  let m ← some? (p.mappings.find? (·.covers va)) .errAccessDenied
  check (m.rights &&& WRITE ≠ 0) .errAccessDenied
  commitPage m va

/-- A range that lies in one mapping of a memory object no other mapping shows, none of
whose pages is committed: the mapping, the first page and the number of pages. -/
def commitBatch (s : Runtime B) (start last : UInt64) : Option (Mapping × ℕ × ℕ) := do
  let m ← (s.mappingsOf s.current).find? fun m =>
    start ≥ m.va && last ≤ m.va.satAdd m.size && m.rights &&& WRITE != 0
  let first := ((m.offset + start - m.va) / PAGE).toNat
  let count := ((last - start) / PAGE).toNat
  let v ← s.vmo m.vmo
  match v.backing with
  | .lazyAnonymous pages =>
    if first + count ≤ pages.length ∧ ((pages.drop first).take count).all (·.isNone) ∧
        (s.mappingsForVmo m.vmo).length = 1 then some (m, first, count)
    else none
  | _ => none

/-- Allocate a run of frames, halving the request as long as it is refused. -/
def allocateRun : ℕ → ℕ → RtM B (UInt64 × ℕ)
  | 0, _ => halt
  | rounds + 1, run => do
    match ← attempt (tryBackend (Backend.allocate (UInt64.ofNat run))) with
    | .ok base => return (base, run)
    | .error e => if run > 1 then allocateRun rounds (max 1 (run / 2)) else fail e

/-- Enter a run of frames as the pages of a memory object, starting at `first`. -/
def setRun (first : ℕ) (base : UInt64) (run : ℕ) (pages : List (Option UInt64)) :
    List (Option UInt64) :=
  (List.range run).foldl
    (fun pages i => pages.set (first + i) (some (base + UInt64.ofNat i * PAGE))) pages

/-- Commit pages in runs of at most 64 frames. Each run is mapped before the next one is
allocated, and the change is marked only after the last. -/
def commitRuns (m : Mapping) (root start : UInt64) (first count : ℕ) : ℕ → ℕ → RtM B Unit
  | 0, _ => return ()
  | rounds + 1, committed =>
    if committed < count then do
      let (base, run) ← allocateRun (min 64 (count - committed)) (min 64 (count - committed))
      let s ← get
      let v ← some? (s.vmo m.vmo) .errInvalidHandle
      match v.backing with
      | .lazyAnonymous pages => do
        modify (modifyVmo m.vmo fun v =>
          { v with backing := .lazyAnonymous (setRun (first + committed) base run pages) })
        forEach (List.range run) fun i =>
          tryBackend (Backend.mapPage root (start + UInt64.ofNat (committed + i) * PAGE)
            (base + UInt64.ofNat i * PAGE) m.rights false)
        commitRuns m root start first count rounds (committed + run)
      | _ => do
        onBackend (Backend.release base (UInt64.ofNat run))
        fail .errInvalidHandle
    else return ()

def commitUserRange (va len : UInt64) : RtM B Unit := do
  let s ← get
  check (¬ (len = 0 ∨ (va.checkedAdd len).isNone ∨ ¬ s.validRange s.current va len WRITE))
    .errAccessDenied
  let start := va &&& ~~~(PAGE - 1)
  let last ← some? ((va.checkedAdd len).bind pageRound) .errInvalidArgs
  let p ← currentProcess
  match s.commitBatch start last with
  | some (m, first, count) => do
    commitRuns m p.root start first count count 0
    changed .vmo m.vmo
    onBackend Backend.flushMappings
  | none => do
    forEach (pageOffsets (last - start)) fun off => do
      let m ← some? (p.mappings.find? (·.covers (start + off))) .errAccessDenied
      commitPage m (start + off)
    onBackend Backend.flushMappings

/-! ### The clock -/

/-- `"BEXTIME1"`. -/
def TIME_PAGE_MAGIC : Bytes := ascii "BEXTIME1"

/-- The time page: an odd sequence number while the fields are being written, the next even
one after. -/
abbrev writeTimePage (base ticks frequencyHz monotonicNs : UInt64) (slew : SlewState) :
    RtM B Unit := do
  let s ← get
  let sequence := UInt32.ofNat (leValue (Backend.read s.backend (base + 16) 4))
  let fields : List (UInt64 × Bytes) :=
    [(0, TIME_PAGE_MAGIC), (8, leBytes 4 1), (12, leBytes 4 80),
      (16, leBytes 4 (sequence ||| 1).toNat), (20, leBytes 4 0), (24, wordBytes ticks),
      (32, wordBytes (max frequencyHz 1)), (40, wordBytes monotonicNs),
      (48, wordBytes slew.realtimeOffsetNs.toUInt64), (56, wordBytes slew.slewStartMonotonicNs),
      (64, wordBytes slew.slewRemainingNs.toUInt64),
      (72, leBytes 4 slew.slewRatePpm.toUInt32.toNat), (76, leBytes 4 0),
      (16, leBytes 4 ((sequence + 2) &&& ~~~1).toNat)]
  forEach fields fun (offset, bytes) => onBackend (Backend.write (base + offset) bytes)

def updateTimePage (ticks frequencyHz : UInt64) : RtM B Unit := do
  let s ← get
  match (s.timePageVmo.bind s.vmo).map Vmo.backing with
  | some (.contiguous base) =>
    writeTimePage base ticks frequencyHz s.nowNs s.realtimeSlew
  | _ => return ()

abbrev adjustClock (clock : ClockType) (offsetDelta : Int64) (rate : Int32)
    (ticks frequencyHz : UInt64) : RtM B Unit := do
  check (clock = .realtime) .errInvalidArgs
  let s ← get
  let now ← some? (Backend.monotonicNs s.backend) .errInvalidArgs
  let slew ← some? (s.realtimeSlew.adjust now offsetDelta rate).toOption .errInvalidArgs
  modify fun s => { s with realtimeSlew := slew }
  updateTimePage ticks frequencyHz
  changed .metadata 0

/-- The memory object of the time page, made when it is first asked for. -/
def timePage : RtM B ℕ := do
  let s ← get
  match s.timePageVmo with
  | some id => return id
  | none => do
    let base ← tryBackend (Backend.allocate 1)
    let id ← insertVmo
      { size := PAGE, refs := 0, device := false, bootfs := false, backing := .contiguous base }
    modify fun s => { s with timePageVmo := some id }
    changed .vmo id
    changed .metadata 0
    return id

abbrev getVdsoTimePage (ticks frequencyHz : UInt64) : RtM B ℕ := do
  let id ← timePage
  updateTimePage ticks frequencyHz
  grantCurrent (.vmo id) (READ ||| MAP ||| DUPLICATE ||| TRANSFER)

end Runtime

end Bexos
