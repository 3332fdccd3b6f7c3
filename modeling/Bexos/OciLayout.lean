/-
Container images: reading an image layout.

`parseLayout` opens an image layout, checks its documents and digests, unpacks the layers and
plans each of them.

* `plans_rooted_iff` — **a planned path leads out of the root only through a marker that names
  `.` or `..`.**  Names are checked before the `.wh.` of a marker is taken off, so `etc/.wh...`
  passes as a name and is planned as the removal of `etc/..`.

Design notes

* The JSON reader, SHA-256 and the zstd decoder are other crates' code, and `gzip::decompress` is
  this crate's own; `Codecs` holds all four as functions.
-/
import Bexos.OciArchive

namespace Bexos
namespace Oci

def MAX_ARCHIVE_BYTES : ℕ := 512 * 1024 * 1024
def MAX_IMAGE_UNPACKED_BYTES : ℕ := 512 * 1024 * 1024

/-- A JSON document; of a number only what `as_u64` finds. -/
inductive Json
  | null
  | bool (value : Bool)
  | number (value : Option UInt64)
  | string (value : Bytes)
  | array (values : List Json)
  | object (members : List (Bytes × Json))

namespace Json

def get (key : String) : Json → Option Json
  | object members => members.lookup (ascii key)
  | _ => none

def asStr : Json → Option Bytes
  | string value => some value
  | _ => none

def asArray : Json → Option (List Json)
  | array values => some values
  | _ => none

def asU64 : Json → Option UInt64
  | number value => value
  | _ => none

/-- The string under a key. -/
def str (key : String) (j : Json) : Option Bytes := (j.get key).bind asStr

end Json

structure Codecs where
  /-- `serde_json::from_slice`. -/
  json : Bytes → Option Json
  sha256 : Bytes → Bytes
  /-- What the zstd decoder yields, up to a number of bytes. -/
  unzstd : Bytes → ℕ → Option Bytes
  /-- `gzip::decompress`. -/
  gunzip : Bytes → ℕ → Except Error Bytes

structure ProcessConfig where
  arguments : List Bytes
  environment : List Bytes
  workingDirectory : Bytes
  user : Bytes

structure Image where
  process : ProcessConfig
  layers : List (List LayerOperation)
  manifestDigest : Bytes

/-- The files of the layout by their names. -/
abbrev Files := List (Bytes × Bytes)

def collectFiles : Files → List TarEntry → Except Error Files
  | files, [] => .ok files
  | files, entry :: entries =>
    if entry.kind = .file then do
      require (files.lookup entry.path = none) .invalidLayout
      collectFiles ((entry.path, entry.data) :: files) entries
    else collectFiles files entries

def required (files : Files) (path : Bytes) : Except Error Bytes :=
  okOr (files.lookup path) .invalidLayout

def nybble (value : UInt8) : Except Error UInt8 :=
  if 0x30 ≤ value ∧ value ≤ 0x39 then .ok (value - 0x30)
  else if 0x61 ≤ value ∧ value ≤ 0x66 then .ok (value - 0x61 + 10)
  else .error .invalidDigest

def digestPairs : Bytes → Except Error Bytes
  | high :: low :: rest => do
    let high ← nybble high
    let low ← nybble low
    let digest ← digestPairs rest
    return (high <<< 4 ||| low) :: digest
  | _ => .ok []

def parseDigest (value : Bytes) : Except Error Bytes := do
  let digits ← okOr (stripLead (ascii "sha256:") value) .invalidDigest
  require (digits.length = 64) .invalidDigest
  digestPairs digits

def hexDigit (value : UInt8) : UInt8 := if value < 10 then value + 0x30 else value - 10 + 0x61

def hex (bytes : Bytes) : Bytes :=
  bytes.flatMap fun byte : UInt8 => [hexDigit (byte >>> 4), hexDigit (byte &&& 0x0f)]

def requireMedia (value : Json) (allowed : List String) : Except Error Unit :=
  require ((value.str "mediaType").any (allowed.map ascii).contains) .unsupportedMediaType

def strings (value : Option Json) : Except Error (List Bytes) :=
  match value with
  | none => .ok []
  | some .null => .ok []
  | some (.array values) => values.mapM fun value =>
      okOr (value.asStr.filter fun s => s.length ≤ 4096 && 0 ∉ s) .invalidLayout
  | some _ => .error .invalidLayout

def processConfig (config : Json) : Except Error ProcessConfig := do
  let settings ← okOr (config.get "config") .invalidLayout
  let entrypoint ← strings (settings.get "Entrypoint")
  let cmd ← strings (settings.get "Cmd")
  let arguments := entrypoint ++ cmd
  require (¬ (arguments = [] ∨ arguments.length > 256)) .invalidLayout
  let environment ← strings (settings.get "Env")
  require (environment.length ≤ 256 ∧
    environment.all fun entry => 0x3d ∈ entry && entry.head? != some 0x3d) .invalidLayout
  let workingDirectory := (settings.str "WorkingDir").getD (ascii "/")
  require (workingDirectory.head? = some 0x2f ∧ (workingDirectory = ascii "/" ∨
    (safePath (workingDirectory.dropWhile (· == 0x2f))).isOk)) .unsafePath
  let user := (settings.str "User").getD []
  require (user.length ≤ 256 ∧ 0 ∉ user) .invalidLayout
  return { arguments, environment, workingDirectory, user }

section Layout

variable (c : Codecs)

def json (bytes : Bytes) : Except Error Json := okOr (c.json bytes) .invalidJson

def decompressZstd (bytes : Bytes) : Except Error Bytes := do
  let output ← okOr (c.unzstd bytes (MAX_LAYER_BYTES + 1)) .invalidLayout
  require (output.length ≤ MAX_LAYER_BYTES) .resourceExhausted
  return output

def descriptorBlob (files : Files) (descriptor : Json) : Except Error (Bytes × Bytes) := do
  let value ← okOr (descriptor.str "digest") .invalidDigest
  let digest ← parseDigest value
  let size ← okOr ((descriptor.get "size").bind Json.asU64) .invalidLayout
  let bytes ← required files (ascii "blobs/sha256/" ++ hex digest)
  require (bytes.length = size.toNat ∧ c.sha256 bytes = digest) .invalidDigest
  return (digest, bytes)

/-- What is known of a layout before its layers are read. -/
structure Layout where
  files : Files
  config : Json
  /-- Each layer's descriptor, with the digest of the unpacked layer. -/
  layers : List (Json × Json)
  manifestDigest : Bytes

def openLayout (bytes architecture : Bytes) : Except Error Layout := do
  require (¬ (bytes = [] ∨ bytes.length > MAX_ARCHIVE_BYTES)) .resourceExhausted
  let entries ← tarEntries bytes
  let files ← collectFiles [] entries
  let document ← required files (ascii "oci-layout")
  let layout ← json c document
  require (layout.str "imageLayoutVersion" = some (ascii "1.0.0")) .invalidLayout
  let document ← required files (ascii "index.json")
  let index ← json c document
  require ((index.get "schemaVersion").bind Json.asU64 = some 2) .invalidLayout
  let manifests ← okOr ((index.get "manifests").bind Json.asArray) .invalidLayout
  let descriptor ← okOr (manifests.find? fun descriptor =>
    (descriptor.get "platform").any fun platform =>
      platform.str "os" == some (ascii "linux") &&
        platform.str "architecture" == some architecture) .unsupportedPlatform
  requireMedia descriptor ["application/vnd.oci.image.manifest.v1+json"]
  let (manifestDigest, document) ← descriptorBlob c files descriptor
  let manifest ← json c document
  require ((manifest.get "schemaVersion").bind Json.asU64 = some 2 ∧
    manifest.str "mediaType" = some (ascii "application/vnd.oci.image.manifest.v1+json"))
    .invalidLayout
  let descriptor ← okOr (manifest.get "config") .invalidLayout
  requireMedia descriptor ["application/vnd.oci.image.config.v1+json"]
  let (_, document) ← descriptorBlob c files descriptor
  let config ← json c document
  let rootfs := config.get "rootfs"
  require (config.str "os" = some (ascii "linux") ∧
    config.str "architecture" = some architecture ∧
    rootfs.bind (Json.str "type") = some (ascii "layers")) .unsupportedPlatform
  let diffIds ← okOr ((rootfs.bind (Json.get "diff_ids")).bind Json.asArray) .invalidLayout
  let descriptors ← okOr ((manifest.get "layers").bind Json.asArray) .invalidLayout
  require (diffIds.length = descriptors.length ∧ descriptors.length ≤ 128) .invalidLayout
  return { files, config, layers := descriptors.zip diffIds, manifestDigest }

/-- One layer's archive, unpacked and checked against its digest. -/
def unpackLayer (files : Files) (descriptor diffId : Json) : Except Error Bytes := do
  let media ← okOr (descriptor.str "mediaType") .invalidLayout
  let (_, compressed) ← descriptorBlob c files descriptor
  let uncompressed ←
    if media = ascii "application/vnd.oci.image.layer.v1.tar" then .ok compressed
    else if media = ascii "application/vnd.oci.image.layer.v1.tar+zstd" then
      decompressZstd c compressed
    else if media = ascii "application/vnd.oci.image.layer.v1.tar+gzip" then
      c.gunzip compressed MAX_LAYER_BYTES
    else .error .unsupportedMediaType
  require (uncompressed.length ≤ MAX_LAYER_BYTES) .invalidDigest
  let value ← okOr diffId.asStr .invalidDigest
  let digest ← parseDigest value
  require (digest = c.sha256 uncompressed) .invalidDigest
  return uncompressed

/-- The loop over the layers, with the bytes and operations of those before. -/
def planLayers (files : Files) : ℕ → ℕ → List (Json × Json) →
    Except Error (List (List LayerOperation))
  | _, _, [] => .ok []
  | unpackedBytes, unpackedEntries, (descriptor, diffId) :: layers => do
    let uncompressed ← unpackLayer c files descriptor diffId
    let unpackedBytes := unpackedBytes + uncompressed.length
    require (unpackedBytes ≤ MAX_IMAGE_UNPACKED_BYTES) .resourceExhausted
    let plan ← layerPlan uncompressed
    let unpackedEntries := unpackedEntries + plan.length
    require (unpackedEntries ≤ MAX_ENTRIES) .resourceExhausted
    let plans ← planLayers files unpackedBytes unpackedEntries layers
    return plan :: plans

def parseLayout (bytes architecture : Bytes) : Except Error Image := do
  let layout ← openLayout c bytes architecture
  let layers ← planLayers c layout.files 0 0 layout.layers
  let process ← processConfig layout.config
  return { process, layers, manifestDigest := layout.manifestDigest }

/-- The archives the layers of a layout unpack to. -/
def layerArchives (bytes architecture : Bytes) : List Bytes :=
  match openLayout c bytes architecture with
  | .error _ => []
  | .ok layout =>
    layout.layers.filterMap fun layer => (unpackLayer c layout.files layer.1 layer.2).toOption

end Layout

/-! ### Paths within the root -/

/-- A relative path that goes through no empty part, `.` or `..`. -/
def Inside (path : Bytes) : Prop :=
  path.head? ≠ some 0x2f ∧
    ∀ part ∈ splitSlash path, part ≠ [] ∧ part ≠ ascii "." ∧ part ≠ ascii ".."
  deriving Decidable

/-- The paths an operation acts on; an opaque marker may stand for the root itself. -/
def LayerOperation.paths : LayerOperation → List Bytes
  | directory path _ => [path]
  | file path _ _ => [path]
  | symlink path _ _ _ => [path]
  | hardlink path target => [path, target]
  | remove path => [path]
  | opaqueDirectory path => if path = [] then [] else [path]
  | xattrs path _ => [path]

def Rooted (operations : List LayerOperation) : Prop :=
  ∀ operation ∈ operations, ∀ path ∈ operation.paths, Inside path
  deriving Decidable

def baseName (path : Bytes) : Bytes := ((rsplitOnce path).getD ([], path)).2

/-- The name is that of a marker for `.` or `..`. -/
def MarksDots (path : Bytes) : Prop :=
  baseName (trimEnd 0x2f path) = ascii ".wh.." ∨ baseName (trimEnd 0x2f path) = ascii ".wh..."
  deriving Decidable

theorem splitSlash_ne_nil (bs) : splitSlash bs ≠ [] := by
  rcases splitSlash_cases bs with ⟨-, h⟩ | ⟨w, rest, -, -, h⟩ <;> rw [h] <;> simp

theorem splitSlash_append (a b) : splitSlash (a ++ 0x2f :: b) = splitSlash a ++ splitSlash b := by
  induction a with
  | nil => rfl
  | cons x a ih =>
    rw [List.cons_append, splitSlash, splitSlash, ih]
    by_cases hx : x = 0x2f
    · rw [if_pos hx, if_pos hx, List.cons_append]
    · rw [if_neg hx, if_neg hx]
      cases hparts : splitSlash a with
      | nil => exact absurd hparts (splitSlash_ne_nil a)
      | cons w ws => rfl

theorem splitSlash_of_not_mem {bs} (h : 0x2f ∉ bs) : splitSlash bs = [bs] := by
  rcases splitSlash_cases bs with ⟨-, hsplit⟩ | ⟨w, rest, rfl, -, -⟩
  · exact hsplit
  · exact absurd (by simp) h

/-- The name is what follows the last slash. -/
theorem rsplitOnce_cases (path : Bytes) : (rsplitOnce path = none ∧ 0x2f ∉ path) ∨
      ∃ parent name, rsplitOnce path = some (parent, name) ∧ path = parent ++ 0x2f :: name ∧
        0x2f ∉ name := by
  induction path with
  | nil => exact .inl ⟨rfl, List.not_mem_nil⟩
  | cons b bs ih =>
    rcases ih with ⟨hnone, hnot⟩ | ⟨parent, name, hsome, hcut, hnot⟩
    · rw [rsplitOnce, hnone]
      by_cases hb : b = 0x2f
      · exact .inr ⟨[], bs, if_pos hb, by rw [hb]; rfl, hnot⟩
      · refine .inl ⟨if_neg hb, ?_⟩
        rw [List.mem_cons, not_or]
        exact ⟨Ne.symm hb, hnot⟩
    · rw [rsplitOnce, hsome]
      exact .inr ⟨b :: parent, name, rfl, by rw [hcut]; rfl, hnot⟩

variable {path : Bytes} {entry : TarEntry}

/-- A path inside the root is its parent, or nothing, and a name that is none of the dots. -/
theorem inside_iff : Inside path ↔
    ∀ part ∈ splitSlash path, part ≠ [] ∧ part ≠ ascii "." ∧ part ≠ ascii ".." := by
  refine ⟨And.right, fun h => ⟨?_, h⟩⟩
  intro hhead
  cases path with
  | nil => cases hhead
  | cons b bs =>
    cases hhead
    exact (h [] (by rw [splitSlash, if_pos rfl]; exact List.mem_cons_self)).1 rfl

theorem inside_append {parent name} :
    Inside (parent ++ 0x2f :: name) ↔ Inside parent ∧ Inside name := by
  simp only [inside_iff, splitSlash_append, List.mem_append, or_imp, forall_and]
  tauto

theorem inside_of_not_mem {name} (h : 0x2f ∉ name) :
    Inside name ↔ name ≠ [] ∧ name ≠ ascii "." ∧ name ≠ ascii ".." := by
  rw [inside_iff, splitSlash_of_not_mem h]
  simp

theorem require_eq_ok {p : Prop} [Decidable p] {e} : require p e = .ok () ↔ p := by
  by_cases h : p <;> simp [require, h]

theorem stripLead_eq_some {lead bytes rest} :
    stripLead lead bytes = some rest ↔ bytes = lead ++ rest := by
  unfold stripLead
  constructor
  · intro h
    split at h
    · rename_i htake
      have hdrop := Option.some.inj h
      rw [← List.take_append_drop lead.length bytes, htake, hdrop]
    · cases h
  · rintro rfl
    rw [List.take_left, if_pos rfl, List.drop_left]

theorem baseName_dotSlash (rest) : baseName (ascii "./" ++ rest) = baseName rest := by
  change baseName (0x2e :: 0x2f :: rest) = baseName rest
  unfold baseName
  rw [rsplitOnce, rsplitOnce]
  rcases rsplitOnce_cases rest with ⟨h, -⟩ | ⟨parent, name, h, -, -⟩
  · rw [h]
    rfl
  · rw [h]
    rfl

/-- A path that passes the check is inside the root and has the name it came with. -/
theorem safePath_ok {raw} (h : safePath raw = .ok path) :
    Inside path ∧ baseName path = baseName (trimEnd 0x2f raw) := by
  simp only [safePath, except_bind_eq_ok] at h
  obtain ⟨_, hsafe, heq⟩ := h
  cases heq
  have hsafe := require_eq_ok.mp hsafe
  simp only [not_or, List.any_eq_true, not_exists, not_and, Bool.or_eq_true, beq_iff_eq] at hsafe
  refine ⟨inside_iff.mpr fun part hpart => ?_, ?_⟩
  · have hnot := hsafe.2.2.2.2 part hpart
    exact ⟨hnot.1.1, hnot.1.2, hnot.2⟩
  · cases hstrip : stripLead (ascii "./") (trimEnd 0x2f raw) with
    | none => rfl
    | some rest =>
      rw [stripLead_eq_some.mp hstrip, baseName_dotSlash]
      rfl

/-! ### What an entry is planned as -/

theorem paths_entryOperation {operation} (hpath : Inside path)
    (h : entryOperation entry path = .ok operation) : ∀ p ∈ operation.paths, Inside p := by
  unfold entryOperation at h
  split at h
  · cases h
    simpa [LayerOperation.paths] using hpath
  · cases h
    simpa [LayerOperation.paths] using hpath
  · rw [except_bind_eq_ok] at h
    obtain ⟨target, -, heq⟩ := h
    cases heq
    simpa [LayerOperation.paths] using hpath
  · rw [except_bind_eq_ok] at h
    obtain ⟨target, htarget, heq⟩ := h
    cases heq
    simpa [LayerOperation.paths] using ⟨hpath, (safePath_ok htarget).1⟩

/-- What a marker removes is inside the root unless the marker names one of the dots. -/
theorem inside_removed {parent removed} (hparent : parent = [] ∨ Inside parent)
    (hslash : 0x2f ∉ removed) (hne : removed ≠ []) :
    Inside (if parent = [] then removed else parent ++ 0x2f :: removed) ↔
      ¬ (removed = ascii "." ∨ removed = ascii "..") := by
  have hname : Inside removed ↔ ¬ (removed = ascii "." ∨ removed = ascii "..") := by
    rw [inside_of_not_mem hslash, not_or]
    exact and_iff_right hne
  by_cases hroot : parent = []
  · rw [if_pos hroot]
    exact hname
  · rw [if_neg hroot, inside_append, hname]
    exact and_iff_right (hparent.resolve_left hroot)

/-- The parts a checked path splits into: a parent inside the root or none, and a name. -/
theorem rsplit_of_inside (h : Inside path) :
    (((rsplitOnce path).getD ([], path)).1 = [] ∨ Inside ((rsplitOnce path).getD ([], path)).1) ∧
      0x2f ∉ baseName path := by
  unfold baseName
  rcases rsplitOnce_cases path with ⟨hnone, hnot⟩ | ⟨parent, name, hsome, hcut, hnot⟩
  · rw [hnone]
    exact ⟨.inl rfl, hnot⟩
  · rw [hsome]
    rw [hcut, inside_append] at h
    exact ⟨.inr h.1, hnot⟩

/-- An entry is planned inside the root unless it marks one of the dots. -/
theorem rooted_planEntry {operations} (h : planEntry entry = .ok operations) :
    Rooted operations ↔ ¬ MarksDots entry.path := by
  simp only [planEntry, except_bind_eq_ok] at h
  obtain ⟨path, hsafe, h⟩ := h
  obtain ⟨hinside, hbase⟩ := safePath_ok hsafe
  obtain ⟨hparent, hslash⟩ := rsplit_of_inside hinside
  unfold MarksDots
  rw [← hbase]
  change (if baseName path = ascii ".wh..wh..opq" then _ else _) = _ at h
  split at h
  -- an opaque marker stands for the parent, which is inside the root or the root itself
  · rename_i hwhole
    cases h
    have hnot : ¬ (baseName path = ascii ".wh.." ∨ baseName path = ascii ".wh...") := by
      rw [hwhole]
      decide
    refine iff_of_true ?_ hnot
    intro operation hop p hp
    rw [List.mem_singleton.mp hop, LayerOperation.paths] at hp
    split at hp
    · cases hp
    · rename_i hne
      rw [List.mem_singleton.mp hp]
      exact hparent.resolve_left hne
  rename_i hplain
  cases hstrip : stripLead (ascii ".wh.") (baseName path) with
  -- a marker names an entry of the parent; the name alone decides whether it is inside
  | some removed =>
    have hname := stripLead_eq_some.mp hstrip
    change stripLead _ ((rsplitOnce path).getD ([], path)).2 = _ at hstrip
    simp only [hstrip, except_bind_eq_ok] at h
    obtain ⟨_, hne, heq⟩ := h
    cases heq
    have hslash' : 0x2f ∉ removed := fun hmem =>
      hslash (by rw [hname]; exact List.mem_append_right _ hmem)
    have hmark : (baseName path = ascii ".wh.." ∨ baseName path = ascii ".wh...") ↔
        (removed = ascii "." ∨ removed = ascii "..") := by
      rw [hname]
      change ascii ".wh." ++ removed = ascii ".wh." ++ ascii "." ∨
        ascii ".wh." ++ removed = ascii ".wh." ++ ascii ".." ↔ _
      rw [List.append_right_inj, List.append_right_inj]
    rw [hmark, ← inside_removed hparent hslash' (require_eq_ok.mp hne)]
    simp [Rooted, LayerOperation.paths]
  -- any other entry is planned at its own path
  | none =>
    have hnot : ¬ (baseName path = ascii ".wh.." ∨ baseName path = ascii ".wh...") := by
      rintro (hdot | hdot) <;> rw [hdot] at hstrip <;> exact absurd hstrip (by decide)
    refine iff_of_true ?_ hnot
    change stripLead _ ((rsplitOnce path).getD ([], path)).2 = _ at hstrip
    simp only [hstrip, except_bind_eq_ok] at h
    obtain ⟨operation, hop, h⟩ := h
    have hpaths := paths_entryOperation hinside hop
    split at h
    · cases h
      intro op hmem
      rw [List.mem_singleton.mp hmem]
      exact hpaths
    · obtain ⟨path', hsafe', heq⟩ := except_bind_eq_ok.mp h
      cases heq
      simpa [Rooted] using ⟨hpaths, by simpa [LayerOperation.paths] using (safePath_ok hsafe').1⟩

theorem rooted_append {a b} : Rooted (a ++ b) ↔ Rooted a ∧ Rooted b := by
  simp only [Rooted, List.mem_append, or_imp, forall_and]

theorem rooted_planEntries : ∀ {entries : List TarEntry} {operations : List LayerOperation},
    planEntries entries = .ok operations →
      (Rooted operations ↔ ∀ entry ∈ entries, ¬ MarksDots entry.path)
  | [], _, h => by
    cases h
    exact iff_of_true (fun op hop => absurd hop List.not_mem_nil)
      (fun e he => absurd he List.not_mem_nil)
  | entry :: entries, operations, h => by
    simp only [planEntries, except_bind_eq_ok] at h
    obtain ⟨first, hfirst, rest, hrest, heq⟩ := h
    cases heq
    rw [rooted_append, rooted_planEntry hfirst, rooted_planEntries hrest]
    simp

/-! ### Every layer of an image -/

/-- None of the archive's entries marks one of the dots. -/
def Unmarked (archive : Bytes) : Prop :=
  ∀ entry ∈ (tarEntries archive).toOption.getD [], ¬ MarksDots entry.path
  deriving Decidable

theorem rooted_layerPlan {archive plan} (h : layerPlan archive = .ok plan) :
    Rooted plan ↔ Unmarked archive := by
  obtain ⟨entries, hentries, hplan⟩ := except_bind_eq_ok.mp h
  rw [rooted_planEntries hplan, Unmarked, hentries]
  rfl

theorem rooted_planLayers {c files} :
    ∀ {bytes entries : ℕ} {layers : List (Json × Json)} {plans : List (List LayerOperation)},
      planLayers c files bytes entries layers = .ok plans →
      ((∀ plan ∈ plans, Rooted plan) ↔
        ∀ archive ∈ layers.filterMap fun layer => (unpackLayer c files layer.1 layer.2).toOption,
          Unmarked archive)
  | _, _, [], _, h => by
    cases h
    simp
  | _, _, (descriptor, diffId) :: layers, plans, h => by
    simp only [planLayers, except_bind_eq_ok] at h
    obtain ⟨archive, hunpack, _, -, plan, hplan, _, -, rest, hrest, heq⟩ := h
    cases heq
    rw [List.filterMap_cons_some (by rw [hunpack]; rfl)]
    rw [List.forall_mem_cons, List.forall_mem_cons, rooted_layerPlan hplan,
      rooted_planLayers hrest]

/-- **The planned paths of an image all stay inside the root just when no entry of its layers
is a marker for `.` or `..`.** -/
theorem plans_rooted_iff {c : Codecs} {bytes architecture : Bytes} {image : Image}
    (h : parseLayout c bytes architecture = .ok image) :
    (∀ plan ∈ image.layers, Rooted plan) ↔
      ∀ archive ∈ layerArchives c bytes architecture, Unmarked archive := by
  simp only [parseLayout, except_bind_eq_ok] at h
  obtain ⟨layout, hopen, plans, hplans, process, -, heq⟩ := h
  cases heq
  rw [layerArchives, hopen]
  exact rooted_planLayers hplans

/-! ### A marker for the parent directory -/

/-- A number as a header writes it. -/
def octal (width value : ℕ) : Bytes :=
  (List.range (width - 1)).reverse.map (fun i => UInt8.ofNat (0x30 + value / 8 ^ i % 8)) ++ [0]

def padTo (length : ℕ) (bytes : Bytes) : Bytes :=
  bytes ++ List.replicate (length - bytes.length) 0

/-- A regular file's header and data. -/
def tarFile (name data : Bytes) : Bytes :=
  let before := padTo 100 name ++ octal 8 0o755 ++ octal 8 0 ++ octal 8 0 ++
    octal 12 data.length ++ octal 12 1
  let after := padTo 101 (ascii "0") ++ padTo 255 (ascii "ustar" ++ 0 :: ascii "00")
  before ++ octal 8 (sumBytes before + 8 * 32 + sumBytes after) ++ after ++
    padTo ((data.length + 511) / 512 * 512) data

def tar (files : List (Bytes × Bytes)) : Bytes :=
  (files.flatMap fun file => tarFile file.1 file.2) ++ List.replicate 1024 0

mutual
/-- The text of a document, without blanks; its strings must need no escapes. -/
def Json.text : Json → Bytes
  | .null => ascii "null"
  | .bool value => if value then ascii "true" else ascii "false"
  | .number none => ascii "-1"
  | .number (some value) => (Nat.toDigits 10 value.toNat).map fun digit => UInt8.ofNat digit.toNat
  | .string value => 0x22 :: value ++ [0x22]
  | .array values => 0x5b :: [0x2c].intercalate (Json.texts values) ++ [0x5d]
  | .object members => 0x7b :: [0x2c].intercalate (Json.memberTexts members) ++ [0x7d]

def Json.texts : List Json → List Bytes
  | [] => []
  | value :: values => value.text :: Json.texts values

def Json.memberTexts : List (Bytes × Json) → List Bytes
  | [] => []
  | (key, value) :: members =>
    (0x22 :: key ++ [0x22, 0x3a] ++ value.text) :: Json.memberTexts members
end

def textMember (key value : String) : Bytes × Json := (ascii key, .string (ascii value))

def digestText (digest : String) : Json := .string (ascii "sha256:" ++ ascii digest)

def descriptorOf (media digest : String) (bytes : Bytes) (members : List (Bytes × Json)) : Json :=
  .object (textMember "mediaType" media :: (ascii "digest", digestText digest) ::
    (ascii "size", .number (some (UInt64.ofNat bytes.length))) :: members)

/-- A layer of empty files of these names. -/
def sampleLayer (names : List String) : Bytes := tar (names.map fun name => (ascii name, []))

/-- An image of one such layer, with the SHA-256 digests of its three blobs. -/
structure Sample where
  names : List String
  layerDigest : String
  configDigest : String
  manifestDigest : String

namespace Sample

variable (x : Sample)

def layer : Bytes := sampleLayer x.names

def config : Json :=
  .object [textMember "os" "linux", textMember "architecture" "riscv64",
    (ascii "rootfs", .object [textMember "type" "layers",
      (ascii "diff_ids", .array [digestText x.layerDigest])]),
    (ascii "config", .object [(ascii "Cmd", .array [.string (ascii "/bin/init")])])]

def manifest : Json :=
  .object [(ascii "schemaVersion", .number (some 2)),
    textMember "mediaType" "application/vnd.oci.image.manifest.v1+json",
    (ascii "config",
      descriptorOf "application/vnd.oci.image.config.v1+json" x.configDigest x.config.text []),
    (ascii "layers",
      .array [descriptorOf "application/vnd.oci.image.layer.v1.tar" x.layerDigest x.layer []])]

def index : Json :=
  .object [(ascii "schemaVersion", .number (some 2)),
    (ascii "manifests", .array [descriptorOf "application/vnd.oci.image.manifest.v1+json"
      x.manifestDigest x.manifest.text [(ascii "platform",
        .object [textMember "os" "linux", textMember "architecture" "riscv64"])]])]

def layoutFile : Json := .object [textMember "imageLayoutVersion" "1.0.0"]

def blobs : List (Bytes × Bytes) :=
  [(ascii x.manifestDigest, x.manifest.text), (ascii x.configDigest, x.config.text),
    (ascii x.layerDigest, x.layer)]

def layout : Bytes :=
  tar ([(ascii "oci-layout", layoutFile.text), (ascii "index.json", x.index.text)] ++
    x.blobs.map fun blob => (ascii "blobs/sha256/" ++ blob.1, blob.2))

/-- The readers at the documents and blobs of the image. -/
def codecs : Codecs where
  json bytes := [layoutFile, x.index, x.manifest, x.config].find? (·.text == bytes)
  sha256 bytes := ((x.blobs.find? (·.2 == bytes)).bind fun blob =>
    (digestPairs blob.1).toOption).getD []
  unzstd _ _ := none
  gunzip _ _ := .error .invalidLayout

def read : Except Error Image := parseLayout x.codecs x.layout (ascii "riscv64")

theorem read_ok {x : Sample} {plans} (h : x.read.toOption.map Image.layers = some plans) :
    ∃ image, x.read = .ok image ∧ image.layers = plans := by
  obtain ⟨image, himage, hplans⟩ := Option.map_eq_some_iff.mp h
  exact ⟨image, ok_of_toOption himage, hplans⟩

end Sample

def ordinaryMarkers : Sample where
  names := ["etc/.wh.old", "tmp/.wh..wh..opq"]
  layerDigest := "b492099bdbdcfaa10c0978cef74800a3d37921aff540c3b12db5d873f5a0b130"
  configDigest := "6aee4bb941da8d78391c127baf9a5a729e1d72439d67923ede040d85cb19951b"
  manifestDigest := "e2505b2e1625f420cf5633374d5ba2cac91f49d5b8784fc81ecaa829f899da8e"

/-- An image with ordinary markers is planned inside the root. -/
theorem ordinary_markers_rooted :
    ∃ image, ordinaryMarkers.read = .ok image ∧ (∀ plan ∈ image.layers, Rooted plan) ∧
      ∀ archive ∈ layerArchives ordinaryMarkers.codecs ordinaryMarkers.layout (ascii "riscv64"),
        Unmarked archive := by
  obtain ⟨image, himage, hplans⟩ := Sample.read_ok
    (show ordinaryMarkers.read.toOption.map Image.layers =
      some [[.remove (ascii "etc/old"), .opaqueDirectory (ascii "tmp")]] by decide +kernel)
  have hrooted : ∀ plan ∈ image.layers, Rooted plan := by
    rw [hplans]
    decide
  exact ⟨image, himage, hrooted, (plans_rooted_iff himage).mp hrooted⟩

def parentMarker : Sample where
  names := ["etc/.wh..."]
  layerDigest := "bfb6f2eb7d6372877c75b1e37afc87dbf5dd100fd80fe4d7703ac71294d896f4"
  configDigest := "88db111e465a43d17f55ef5b6f50b3c29902c05677d13182c06ddab528c6e9f8"
  manifestDigest := "0ba3c85321fb9c765a7237c4c277ceaa4f9b1543f7968314d7e7648929256fb5"

/-- The marker `etc/.wh...` is planned as the removal of `etc/..`. -/
theorem parent_marker_planned : ∃ image, parentMarker.read = .ok image ∧
      image.layers = [[.remove (ascii "etc/..")]] ∧ ¬ ∀ plan ∈ image.layers, Rooted plan := by
  obtain ⟨image, himage, hplans⟩ := Sample.read_ok
    (show parentMarker.read.toOption.map Image.layers =
      some [[.remove (ascii "etc/..")]] by decide +kernel)
  refine ⟨image, himage, hplans, ?_⟩
  rw [hplans]
  decide

end Oci
end Bexos
