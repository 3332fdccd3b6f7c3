/-
Container archives: from a tar file to a layer plan.

The archive half of the image reader (`lib/oci`).  `tarEntries` walks over the blocks of an
archive and collects its entries; a name comes from the header's own fields, from the header
with its leading part, from a GNU long name or from a PAX record (`tarRecord`).  `layerPlan`
turns the entries of a layer into operations on the container root; an entry whose last part
starts with `.wh.` is a marker for something to be removed.

Design notes

* Strings are lists of bytes; `text` checks that they are well formed where the code does.
* A length is a natural number; the code's checks for overflow stand where one can fail.
-/
import Mathlib.Data.List.DropRight
import Bexos.OrdMap
import Bexos.Texts

namespace Bexos
namespace Oci

def BLOCK : ℕ := 512
def MAX_LAYER_BYTES : ℕ := 256 * 1024 * 1024
def MAX_ENTRIES : ℕ := 262144
def MAX_XATTRS : ℕ := 256
def MAX_XATTR_VALUE_BYTES : ℕ := 65536

inductive Error
  | invalidLayout
  | invalidJson
  | invalidDigest
  | invalidTar
  | unsafePath
  | unsupportedMediaType
  | unsupportedPlatform
  | resourceExhausted
  deriving DecidableEq

structure Metadata where
  mode : UInt32
  uid : UInt32
  gid : UInt32
  mtime : UInt64
  deriving DecidableEq

inductive LayerOperation
  | directory (path : Bytes) (metadata : Metadata)
  | file (path data : Bytes) (metadata : Metadata)
  | symlink (path target : Bytes) (uid gid : UInt32)
  | hardlink (path target : Bytes)
  | remove (path : Bytes)
  | opaqueDirectory (path : Bytes)
  | xattrs (path : Bytes) (values : List (Bytes × Bytes))
  deriving DecidableEq

inductive TarKind
  | file
  | directory
  | symlink
  | hardlink
  deriving DecidableEq

structure TarEntry where
  path : Bytes
  link : Bytes
  kind : TarKind
  data : Bytes
  metadata : Metadata
  xattrs : List (Bytes × Bytes)

abbrev XattrMap := OrdMap Bytes Bytes

structure PaxFields where
  path : Option Bytes
  link : Option Bytes
  xattrs : XattrMap

/-- `ok_or`. -/
def okOr {α : Type} (value : Option α) (e : Error) : Except Error α :=
  match value with
  | some a => .ok a
  | none => .error e

/-- An early return when a condition does not hold. -/
def require (c : Prop) [Decidable c] (e : Error) : Except Error Unit :=
  if c then .ok () else .error e

/-- `strip_prefix`. -/
def stripLead (lead bytes : Bytes) : Option Bytes :=
  if bytes.take lead.length = lead then some (bytes.drop lead.length) else none

/-- `trim_end_matches` for one character. -/
def trimEnd (b : UInt8) (bytes : Bytes) : Bytes := bytes.rdropWhile (· == b)

/-- `rsplit_once('/')`. -/
def rsplitOnce : Bytes → Option (Bytes × Bytes)
  | [] => none
  | b :: bs =>
    match rsplitOnce bs with
    | some (parent, name) => some (b :: parent, name)
    | none => if b = 0x2f then some ([], bs) else none

/-- The bytes of a header between two positions. -/
def slice (bytes : Bytes) (start stop : ℕ) : Bytes := (bytes.take stop).drop start

def text (bytes : Bytes) : Except Error Bytes :=
  if utf8Valid bytes then .ok bytes else .error .invalidTar

def field (bytes : Bytes) : Except Error Bytes := text (bytes.takeWhile (· != 0))

/-! ### Numbers and checksums -/

def octalDigits : ℕ → Bytes → Except Error UInt64
  | out, [] => .ok (UInt64.ofNat out)
  | out, b :: bs => do
    require (0x30 ≤ b ∧ b ≤ 0x37) .invalidTar
    require (out * 8 + (b - 0x30).toNat < 2 ^ 64) .resourceExhausted
    octalDigits (out * 8 + (b - 0x30).toNat) bs

def number (bytes : Bytes) : Except Error UInt64 := do
  require (bytes.head?.all fun b => b &&& 0x80 == 0) .invalidTar
  octalDigits 0 (bytes.takeWhile fun b => b != 0 && b != 0x20)

/-- `u32::try_from(number(..)?)`. -/
def number32 (bytes : Bytes) : Except Error UInt32 := do
  let value ← number bytes
  require (value.toNat < 2 ^ 32) .invalidTar
  return value.toUInt32

def sumBytes (bytes : Bytes) : ℕ := (bytes.map UInt8.toNat).sum

/-- The eight bytes of the checksum itself count as blanks. -/
def verifyChecksum (header : Bytes) : Except Error Unit := do
  let expected ← number (slice header 148 156)
  require (expected.toNat = sumBytes (header.take 148) + 8 * 32 + sumBytes (header.drop 156))
    .invalidTar

/-- `str::parse::<usize>`: decimal digits, after a plus sign or none. -/
def parseUsize (bytes : Bytes) : Option ℕ :=
  let digits := (stripLead (ascii "+") bytes).getD bytes
  if digits ≠ [] ∧ digits.all (fun b => 0x30 ≤ b && b ≤ 0x39) then
    let value := digits.foldl (fun out b => out * 10 + (b - 0x30).toNat) 0
    if value < 2 ^ 64 then some value else none
  else none

/-! ### Extended attributes and PAX records -/

def validateXattr (name value : Bytes) : Except Error Unit :=
  require (¬ (name = [] ∨ name.length > 255 ∨ 0 ∈ name ∨ 0x2e ∉ name ∨
    value.length > MAX_XATTR_VALUE_BYTES)) .invalidTar

def base64Digit (b : UInt8) : Except Error UInt8 :=
  if 0x41 ≤ b ∧ b ≤ 0x5a then .ok (b - 0x41)
  else if 0x61 ≤ b ∧ b ≤ 0x7a then .ok (b - 0x61 + 26)
  else if 0x30 ≤ b ∧ b ≤ 0x39 then .ok (b - 0x30 + 52)
  else if b = 0x2b then .ok 62
  else if b = 0x2f then .ok 63
  else if b = 0x3d then .ok 0
  else .error .invalidTar

/-- Groups of four digits; the list is a multiple of four long. -/
def base64Chunks : Bytes → Bytes → Except Error Bytes
  | w :: x :: y :: z :: rest, output => do
    let padding := (z == 0x3d).toNat + (y == 0x3d).toNat
    require (¬ (padding ≠ 0 ∧ rest ≠ [] ∨ y = 0x3d ∧ z ≠ 0x3d)) .invalidTar
    let a ← base64Digit w
    let b ← base64Digit x
    let c ← base64Digit y
    let d ← base64Digit z
    require (¬ (w = 0x3d ∨ x = 0x3d ∨ padding = 2 ∧ b &&& 0x0f ≠ 0 ∨
      padding = 1 ∧ c &&& 0x03 ≠ 0)) .invalidTar
    let output := output ++ [a <<< 2 ||| b >>> 4] ++
      (if padding < 2 then [b <<< 4 ||| c >>> 2] else []) ++
      (if padding = 0 then [c <<< 6 ||| d] else [])
    require (output.length ≤ MAX_XATTR_VALUE_BYTES) .resourceExhausted
    base64Chunks rest output
  | _, output => .ok output

def decodeBase64 (bytes : Bytes) : Except Error Bytes := do
  if bytes = [] then return []
  require (bytes.length ≤ (MAX_XATTR_VALUE_BYTES + 2) / 3 * 4) .resourceExhausted
  require (bytes.length % 4 = 0) .invalidTar
  base64Chunks bytes []

def paxXattr (fields : PaxFields) (name value : Bytes) : Except Error PaxFields := do
  validateXattr name value
  let xattrs := fields.xattrs.insert name value
  require (fields.xattrs[name]? = none ∧ xattrs.size ≤ MAX_XATTRS) .invalidTar
  return { fields with xattrs }

def paxField (fields : PaxFields) (key value : Bytes) : Except Error PaxFields := do
  if key = ascii "path" then
    let path ← text value
    require (fields.path = none) .invalidTar
    return { fields with path := some path }
  else if key = ascii "linkpath" then
    let link ← text value
    require (fields.link = none) .invalidTar
    return { fields with link := some link }
  else if let some name := stripLead (ascii "SCHILY.xattr.") key then
    validateXattr name value
    paxXattr fields name value
  else if let some name := stripLead (ascii "LIBARCHIVE.xattr.") key then
    let value ← decodeBase64 value
    paxXattr fields name value
  else return fields

/-- Every record is at least one byte long, so the length of the bytes bounds the turns. -/
def paxRecords : ℕ → PaxFields → Bytes → Except Error PaxFields
  | _, fields, [] => .ok fields
  | 0, _, _ => .error .invalidTar
  | n + 1, fields, bytes => do
    let space ← okOr (bytes.findIdx? (· == 0x20)) .invalidTar
    let digits ← text (bytes.take space)
    let length ← okOr (parseUsize digits) .invalidTar
    require (space + 1 ≤ length ∧ length ≤ bytes.length) .invalidTar
    let record := slice bytes (space + 1) length
    require (record.getLast? = some 0x0a) .invalidTar
    let record := record.dropLast
    let separator ← okOr (record.findIdx? (· == 0x3d)) .invalidTar
    let key ← text (record.take separator)
    let fields ← paxField fields key (record.drop (separator + 1))
    paxRecords n fields (bytes.drop length)

def pax (bytes : Bytes) : Except Error PaxFields := paxRecords bytes.length ⟨none, none, ∅⟩ bytes

/-! ### The entries of an archive -/

/-- What is carried from one header to the next. -/
structure TarState where
  entries : List TarEntry := []
  pendingPath : Option Bytes := none
  pendingLink : Option Bytes := none
  pendingXattrs : XattrMap := ∅
  globalXattrs : XattrMap := ∅
  expandedXattrBytes : ℕ := 0

/-- The second map's values replace those of the first. -/
def mergeXattrs (old new : XattrMap) : XattrMap :=
  new.toList.foldl (fun m entry => m.insert entry.1 entry.2) old

def paxHeader (s : TarState) (typeflag : UInt8) (data : Bytes) : Except Error TarState := do
  let fields ← pax data
  if typeflag = 0x78 then
    let pendingXattrs := mergeXattrs s.pendingXattrs fields.xattrs
    require (pendingXattrs.size ≤ MAX_XATTRS) .resourceExhausted
    return { s with
      pendingPath := fields.path <|> s.pendingPath
      pendingLink := fields.link <|> s.pendingLink
      pendingXattrs }
  else
    let globalXattrs := mergeXattrs s.globalXattrs fields.xattrs
    require (globalXattrs.size ≤ MAX_XATTRS) .resourceExhausted
    return { s with globalXattrs }

def longName (s : TarState) (typeflag : UInt8) (data : Bytes) : Except Error TarState := do
  let value ← text data
  let value := trimEnd 0 value
  if typeflag = 0x4c then return { s with pendingPath := some value }
  else return { s with pendingLink := some value }

def tarKind (typeflag : UInt8) : Except Error TarKind :=
  if typeflag = 0 ∨ typeflag = 0x30 then .ok .file
  else if typeflag = 0x35 then .ok .directory
  else if typeflag = 0x32 then .ok .symlink
  else if typeflag = 0x31 then .ok .hardlink
  else .error .unsupportedMediaType

def tarEntry (s : TarState) (typeflag : UInt8) (header data : Bytes) : Except Error TarState := do
  let kind ← tarKind typeflag
  let lead ← field (slice header 345 500)
  let name ← field (header.take 100)
  let path := s.pendingPath.getD (if lead = [] then name else lead ++ 0x2f :: name)
  let linkname ← field (slice header 157 257)
  let link := s.pendingLink.getD linkname
  let xattrs := mergeXattrs s.globalXattrs s.pendingXattrs
  require (xattrs.size ≤ MAX_XATTRS) .resourceExhausted
  let expandedXattrBytes := s.expandedXattrBytes +
    (xattrs.toList.map fun entry => entry.1.length + entry.2.length).sum
  require (expandedXattrBytes ≤ MAX_LAYER_BYTES) .resourceExhausted
  let mode ← number32 (slice header 100 108)
  let uid ← number32 (slice header 108 116)
  let gid ← number32 (slice header 116 124)
  let mtime ← number (slice header 136 148)
  let entries := s.entries ++
    [⟨path, link, kind, data, ⟨mode, uid, gid, mtime⟩, xattrs.toList⟩]
  require (entries.length ≤ MAX_ENTRIES) .resourceExhausted
  return { entries, globalXattrs := s.globalXattrs, expandedXattrBytes }

def tarRecord (s : TarState) (header data : Bytes) : Except Error TarState :=
  let typeflag := header.getD 156 0
  if typeflag = 0x78 ∨ typeflag = 0x67 then paxHeader s typeflag data
  else if typeflag = 0x4c ∨ typeflag = 0x4b then longName s typeflag data
  else tarEntry s typeflag header data

/-- The loop over the headers; the number of blocks left bounds its turns. -/
def tarBlocks : ℕ → TarState → ℕ → Bytes → Except Error (List TarEntry)
  | _, _, _, [] => .error .invalidTar
  | 0, _, _, _ => .error .invalidTar
  | n + 1, s, zeroBlocks, bytes => do
    let header := bytes.take BLOCK
    let bytes := bytes.drop BLOCK
    if header.all (· == 0) then
      if zeroBlocks = 1 then
        require (bytes.all (· == 0)) .invalidTar
        return s.entries
      else tarBlocks n s (zeroBlocks + 1) bytes
    else
      verifyChecksum header
      let size ← number (slice header 124 136)
      require (size.toNat + (BLOCK - 1) < 2 ^ 64) .resourceExhausted
      let padded := (size.toNat + (BLOCK - 1)) / BLOCK * BLOCK
      require (padded ≤ bytes.length) .invalidTar
      let s ← tarRecord s header (bytes.take size.toNat)
      tarBlocks n s 0 (bytes.drop padded)

def tarEntries (bytes : Bytes) : Except Error (List TarEntry) := do
  require (bytes.length % BLOCK = 0) .invalidTar
  tarBlocks (bytes.length / BLOCK) {} 0 bytes

/-! ### Paths and plans -/

def safePath (path : Bytes) : Except Error Bytes := do
  let path := trimEnd 0x2f path
  let path := (stripLead (ascii "./") path).getD path
  require (¬ (path = [] ∨ path.head? = some 0x2f ∨ path.length > 4096 ∨ 0 ∈ path ∨
    (splitSlash path).any fun part =>
      part == [] || part == ascii "." || part == ascii "..")) .unsafePath
  return path

/-- How deep a relative link leads after each of its parts. -/
def linkDepths : ℤ → List Bytes → List ℤ
  | _, [] => []
  | depth, part :: parts =>
    let depth := if part = [] ∨ part = ascii "." then depth
      else if part = ascii ".." then depth - 1 else depth + 1
    depth :: linkDepths depth parts

def safeLink (path : Bytes) : Except Error Bytes := do
  require (¬ (path = [] ∨ path.length > 4096 ∨ 0 ∈ path)) .unsafePath
  if path.head? = some 0x2f then
    let _ ← safePath (path.dropWhile (· == 0x2f))
    return path
  else
    require ((linkDepths 0 (splitSlash path)).all (-64 ≤ ·)) .unsafePath
    return path

def entryOperation (entry : TarEntry) (path : Bytes) : Except Error LayerOperation :=
  match entry.kind with
  | .file => .ok (.file path entry.data entry.metadata)
  | .directory => .ok (.directory path entry.metadata)
  | .symlink => do
    let target ← safeLink entry.link
    return .symlink path target entry.metadata.uid entry.metadata.gid
  | .hardlink => do
    let target ← safePath entry.link
    return .hardlink path target

/-- The operations one entry stands for. -/
def planEntry (entry : TarEntry) : Except Error (List LayerOperation) := do
  let path ← safePath entry.path
  let (parent, name) := (rsplitOnce path).getD ([], path)
  if name = ascii ".wh..wh..opq" then return [.opaqueDirectory parent]
  else if let some removed := stripLead (ascii ".wh.") name then
    require (removed ≠ []) .unsafePath
    return [.remove (if parent = [] then removed else parent ++ 0x2f :: removed)]
  else
    let operation ← entryOperation entry path
    if entry.xattrs = [] then return [operation]
    else
      let path ← safePath entry.path
      return [operation, .xattrs path entry.xattrs]

def planEntries : List TarEntry → Except Error (List LayerOperation)
  | [] => .ok []
  | entry :: entries => do
    let operations ← planEntry entry
    let rest ← planEntries entries
    return operations ++ rest

def layerPlan (bytes : Bytes) : Except Error (List LayerOperation) := do
  let entries ← tarEntries bytes
  planEntries entries

end Oci
end Bexos
