/-
Bindings of the service broker.

`appd/registry.rs` and `appd/broker.rs`: packages publish interfaces, each with capabilities that
offer methods, and a client binds those that its manifest declares as consumed.

* `CapabilityRegistry` — published interfaces with distinct keys;
* `bindConsumedService`, `bindConsumedCapability`, `bindRuntimeCapability` — the three ways to bind;
* `Granted` — a binding is within what was published, permitted and declared;
* **`granted_of_bound`** — which bindings are.

Design notes: the kernel that creates the channels is a parameter.
-/
import Bexos.Outcome
import Bexos.ServicePolicy
import Mathlib.Data.List.Nodup

namespace Bexos.Appd

open Prog

/-! ### Manifests -/

inductive Lifecycle where
  | unspecified
  | singleton
  | userScopedSingleton
  | multipleInstance
  deriving DecidableEq

inductive ServiceActivation where
  | eager
  | lazy
  | unspecified
  deriving DecidableEq

inductive Visibility where
  | unspecified
  | pub
  | domainShared
  | priv
  deriving DecidableEq

inductive LinkType where
  | unspecified
  | required
  | optional
  deriving DecidableEq

structure Metadata where
  key : Str
  value : Str
  deriving DecidableEq

structure CapabilityMetadata where
  capability : Str
  permission : Option Str
  methodOrdinals : List UInt64
  deriving DecidableEq

structure ExposedService where
  name : Str
  protocol : Str
  lifecycle : Lifecycle
  visibility : Visibility
  bindPermission : Option Str
  metadata : List Metadata
  capabilities : List CapabilityMetadata
  activation : ServiceActivation
  idleTimeoutMs : Option UInt32
  providerProcess : Option Str

structure MethodDependency where
  ordinal : UInt64
  linkType : LinkType
  deriving DecidableEq

structure ConsumedCapability where
  capability : Str
  methods : List MethodDependency
  deriving DecidableEq

structure ConsumedService where
  name : Str
  linkType : LinkType
  filter : Option Str
  capabilities : List ConsumedCapability

/-! ### The registry -/

/-- A kernel object and the rights to it. -/
structure Endpoint where
  objectId : UInt64
  rights : UInt32
  deriving DecidableEq

structure PublishedInterface where
  providerPackage : Str
  instanceId : Option Str
  name : Str
  protocol : Str
  lifecycle : Lifecycle
  visibility : Visibility
  bindPermission : Option Str
  metadata : List Metadata
  capabilities : List CapabilityMetadata
  endpoint : Endpoint
  activation : ServiceActivation
  idleTimeoutMs : UInt32
  providerProcess : Option Str
  dormant : Bool
  deriving DecidableEq

/-- What tells a published interface from the others. -/
def PublishedInterface.key (i : PublishedInterface) : Str × Option Str × Str :=
  (i.providerPackage, i.instanceId, i.name)

inductive RegistryError where
  | duplicateInterface (providerPackage name : Str)
  | duplicateSingleton (name existingProviderPackage providerPackage : Str)
  | emptyName
  | emptyProtocol
  | invalidLazyProvider
  deriving DecidableEq

def DEFAULT_LAZY_IDLE_TIMEOUT_MS : UInt32 := 2000

structure CapabilityRegistry where
  interfaces : List PublishedInterface
  distinct : (interfaces.map PublishedInterface.key).Nodup

namespace CapabilityRegistry

def new : CapabilityRegistry := ⟨[], .nil⟩

/-- The interface that a service is published as. -/
def interfaceOf (providerPackage : Str) (instanceId : Option Str) (service : ExposedService)
    (endpoint : Endpoint) (dormant : Bool) : PublishedInterface where
  providerPackage := providerPackage
  instanceId := instanceId
  name := service.name
  protocol := service.protocol
  lifecycle := service.lifecycle
  visibility := service.visibility
  bindPermission := service.bindPermission
  metadata := service.metadata
  capabilities :=
    if service.capabilities.isEmpty then [⟨"Public".toList, none, []⟩] else service.capabilities
  endpoint := endpoint
  activation := service.activation
  idleTimeoutMs := service.idleTimeoutMs.getD
    (if service.activation = .lazy then DEFAULT_LAZY_IDLE_TIMEOUT_MS else 0)
  providerProcess := service.providerProcess
  dormant := dormant

/-- The interface with a key is in the registry once. -/
theorem eq_of_key (r : CapabilityRegistry) {i j} (hi : i ∈ r.interfaces) (hj : j ∈ r.interfaces)
    (h : i.key = j.key) : i = j :=
  List.inj_on_of_nodup_map r.distinct hi hj h

/-- Add an interface whose key is new. -/
def push (r : CapabilityRegistry) (i : PublishedInterface)
    (h : ∀ entry ∈ r.interfaces, entry.key ≠ i.key) : CapabilityRegistry where
  interfaces := r.interfaces ++ [i]
  distinct := by
    rw [List.map_append, List.map_singleton]
    refine List.nodup_append.mpr ⟨r.distinct, List.nodup_singleton _, ?_⟩
    intro k hk j hj heq
    obtain ⟨entry, hentry, rfl⟩ := List.mem_map.mp hk
    exact h entry hentry (heq.trans (List.mem_singleton.mp hj))

/-- A singleton of this name that is published already. -/
def existingSingleton? (r : CapabilityRegistry) (service : ExposedService) :
    Option PublishedInterface :=
  if service.lifecycle = .singleton then
    r.interfaces.find? fun entry => entry.lifecycle = .singleton ∧ entry.name = service.name
  else none

/-- Publish under a key unless the registry holds a `clash`. -/
def publish (r : CapabilityRegistry) (clash : PublishedInterface → Prop) [DecidablePred clash]
    (providerPackage : Str) (instanceId : Option Str) (service : ExposedService)
    (endpoint : Endpoint) (dormant : Bool)
    (hclash : ∀ entry, entry.key = (providerPackage, instanceId, service.name) → clash entry) :
    Except RegistryError CapabilityRegistry :=
  if service.name.isEmpty then .error .emptyName
  else if service.protocol.isEmpty then .error .emptyProtocol
  else if hfree : ∃ entry ∈ r.interfaces, clash entry then
    .error (.duplicateInterface providerPackage service.name)
  else
    match r.existingSingleton? service with
    | some existing =>
      .error (.duplicateSingleton service.name existing.providerPackage providerPackage)
    | none =>
      .ok (r.push (interfaceOf providerPackage instanceId service endpoint dormant)
        fun entry hentry hkey => hfree ⟨entry, hentry, hclash entry hkey⟩)

/-- An interface outside instances must be the package's only one of its name. -/
def publishInterface (r : CapabilityRegistry) (providerPackage : Str) (service : ExposedService)
    (endpoint : Endpoint) : Except RegistryError CapabilityRegistry :=
  r.publish (fun entry => entry.providerPackage = providerPackage ∧ entry.name = service.name)
    providerPackage none service endpoint false
    fun _ h => ⟨congrArg Prod.fst h, congrArg (·.2.2) h⟩

def publishInterfaceInner (r : CapabilityRegistry) (providerPackage : Str)
    (instanceId : Option Str) (service : ExposedService) (endpoint : Endpoint) (dormant : Bool) :
    Except RegistryError CapabilityRegistry :=
  r.publish (fun entry => entry.providerPackage = providerPackage ∧ entry.name = service.name ∧
      entry.instanceId = instanceId)
    providerPackage instanceId service endpoint dormant
    fun _ h => ⟨congrArg Prod.fst h, congrArg (·.2.2) h, congrArg (·.2.1) h⟩

def publishDormantInterface (r : CapabilityRegistry) (providerPackage : Str)
    (service : ExposedService) (providerProcess : Str) :
    Except RegistryError CapabilityRegistry :=
  if providerProcess.isEmpty ∨ service.activation ≠ .lazy then .error .invalidLazyProvider
  else
    r.publishInterfaceInner providerPackage none
      { service with providerProcess := some providerProcess } ⟨0, 0⟩ true

def publishInstanceInterface (r : CapabilityRegistry) (providerPackage instanceId : Str)
    (service : ExposedService) (endpoint : Endpoint) : Except RegistryError CapabilityRegistry :=
  let metadata : Metadata := ⟨"device.node_id".toList, instanceId⟩
  let service :=
    if service.metadata.any (·.key == metadata.key) then service
    else { service with metadata := service.metadata ++ [metadata] }
  r.publishInterfaceInner providerPackage (some instanceId) service endpoint false

/-- Change the interfaces, but not their keys. -/
def mapInterfaces (r : CapabilityRegistry) (f : PublishedInterface → PublishedInterface)
    (h : ∀ i, (f i).key = i.key) : CapabilityRegistry where
  interfaces := r.interfaces.map f
  distinct := by
    rw [List.map_map, show PublishedInterface.key ∘ f = PublishedInterface.key from funext h]
    exact r.distinct

def updateProviderManager (r : CapabilityRegistry) (providerPackage processName : Str)
    (endpoint : Endpoint) : CapabilityRegistry :=
  r.mapInterfaces
    (fun i =>
      if i.providerPackage = providerPackage ∧ i.providerProcess = some processName then
        { i with endpoint := endpoint, dormant := false }
      else i)
    fun i => by split <;> rfl

def updateInstanceManager (r : CapabilityRegistry) (providerPackage instanceId : Str)
    (endpoint : Endpoint) : CapabilityRegistry :=
  r.mapInterfaces
    (fun i =>
      if i.providerPackage = providerPackage ∧ i.instanceId = some instanceId then
        { i with endpoint := endpoint }
      else i)
    fun i => by split <;> rfl

def retain (r : CapabilityRegistry) (keep : PublishedInterface → Bool) : CapabilityRegistry where
  interfaces := r.interfaces.filter keep
  distinct := (List.filter_sublist.map _).nodup r.distinct

def removeInstance (r : CapabilityRegistry) (providerPackage instanceId : Str) :
    CapabilityRegistry :=
  r.retain fun i => ¬ (i.providerPackage = providerPackage ∧ i.instanceId = some instanceId)

def removeProviderPackage (r : CapabilityRegistry) (providerPackage : Str) : CapabilityRegistry :=
  r.retain fun i => i.providerPackage ≠ providerPackage

end CapabilityRegistry

/-! ### The broker -/

inductive KernelError where
  | invalidHandle
  | accessDenied
  | noMemory
  | bufferTooSmall
  | peerClosed
  | timedOut
  | alreadyExists
  | invalidArgs
  | resourceExhausted
  | transport
  deriving DecidableEq

inductive BindError where
  | notFound
  | permissionDenied
  | wrongLifecycle
  | registry (e : RegistryError)
  | kernel (e : KernelError)
  | invalidFilter
  | invalidCapability
  | ambiguous
  deriving DecidableEq

/-- The raw handles of a channel's two ends. -/
structure CreatedChannel where
  localHandle : UInt64
  remoteHandle : UInt64

/-- The rights to transfer, read and write. -/
def SERVICE_ENDPOINT_RIGHTS : UInt32 := 0x1 ||| 0x2 ||| 0x4

structure BoundCapability where
  callerPackage : Str
  callerUid : Option UInt64
  callerForeground : Bool
  providerPackage : Str
  providerInstanceId : Option Str
  serviceName : Str
  protocol : Str
  lifecycle : Lifecycle
  capability : Str
  permission : Option Str
  methodOrdinals : List UInt64
  permissionValues : List Str
  providerManager : Endpoint
  clientEndpoint : Endpoint
  providerEndpoint : Endpoint
  activation : ServiceActivation
  providerProcess : Option Str
  idleTimeoutMs : UInt32
  dormantProvider : Bool
  deriving DecidableEq

/-- The binding of a client to a capability of an interface. -/
def bindingOf (client : ClientContext) (i : PublishedInterface) (c : CapabilityMetadata)
    (methodOrdinals : List UInt64) (clientObject providerObject : UInt64) : BoundCapability where
  callerPackage := client.packageName
  callerUid := client.userId
  callerForeground := client.isForeground
  providerPackage := i.providerPackage
  providerInstanceId := i.instanceId
  serviceName := i.name
  protocol := i.protocol
  lifecycle := i.lifecycle
  capability := c.capability
  permission := c.permission
  methodOrdinals := methodOrdinals
  permissionValues := ((permissionScopeName c.permission).map client.grantedValues).getD []
  providerManager := i.endpoint
  clientEndpoint := ⟨clientObject, SERVICE_ENDPOINT_RIGHTS⟩
  providerEndpoint := ⟨providerObject, SERVICE_ENDPOINT_RIGHTS⟩
  activation := i.activation
  providerProcess := i.providerProcess
  idleTimeoutMs := i.idleTimeoutMs
  dormantProvider := i.dormant

def packageDomain (package : Str) : Str := ((splitOnce [':'] package).map Prod.fst).getD package

def canSee (i : PublishedInterface) (client : ClientContext) : Bool :=
  match i.visibility with
  | .pub => true
  | .priv => i.providerPackage = client.packageName
  | .domainShared => packageDomain i.providerPackage = packageDomain client.packageName
  | .unspecified => false

def canBind (i : PublishedInterface) (client : ClientContext) : Bool :=
  checkPermission i.bindPermission client = .allow

def metadataMatches (values required : List Metadata) : Bool :=
  required.all fun filter => values.any fun m => m.key = filter.key ∧ m.value = filter.value

/-- A value between two quotes. -/
def unquote (value : Str) (quote : Char) : Option Str :=
  (stripPrefix [quote] value).bind (stripSuffix [quote])

def parseMetadataFilter (filter : Str) : Except BindError Metadata :=
  match splitOnce "==".toList filter with
  | none => .error .invalidFilter
  | some (key, value) =>
    if (trim key).isEmpty then .error .invalidFilter
    else
      match unquote (trim value) (Char.ofNat 0x27) <|> unquote (trim value) (Char.ofNat 0x22) with
      | none => .error .invalidFilter
      | some value => .ok ⟨trim key, value⟩

/-- The metadata that a declaration asks for. -/
def requiredMetadata (consumed : ConsumedService) : Except BindError (List Metadata) :=
  match consumed.filter with
  | none => .ok []
  | some filter => (parseMetadataFilter filter).map fun m => [m]

/-- The methods that a declaration may ask of a capability. -/
def checkMethods (provider : CapabilityMetadata) : List MethodDependency → Except BindError Unit
  | [] => .ok ()
  | method :: rest =>
    if method.ordinal = 0 then .error .invalidCapability
    else if method.linkType = .required ∧ method.ordinal ∉ provider.methodOrdinals then
      .error .invalidCapability
    else checkMethods provider rest

def scopeEach (i : PublishedInterface) :
    List ConsumedCapability → Except BindError (List CapabilityMetadata)
  | [] => .ok []
  | requested :: rest =>
    if requested.capability.isEmpty then .error .invalidCapability
    else
      match i.capabilities.find? (·.capability = requested.capability) with
      | none => .error .invalidCapability
      | some provider => do
        checkMethods provider requested.methods
        let others ← scopeEach i rest
        return provider :: others

def scopedCapabilities (consumed : ConsumedService) (i : PublishedInterface) :
    Except BindError (List CapabilityMetadata) :=
  if consumed.capabilities.isEmpty then .ok i.capabilities
  else scopeEach i consumed.capabilities

/-- The loop over the requested methods, with the ordinals found so far. -/
def ordinalsFrom (c : CapabilityMetadata) :
    List MethodDependency → List UInt64 → Except BindError (List UInt64)
  | [], ordinals => .ok ordinals
  | method :: rest, ordinals =>
    if method.ordinal = 0 then .error .invalidCapability
    else if method.ordinal ∈ c.methodOrdinals then
      ordinalsFrom c rest
        (if method.ordinal ∈ ordinals then ordinals else ordinals ++ [method.ordinal])
    else if method.linkType = .required then .error .invalidCapability
    else ordinalsFrom c rest ordinals

def scopedOrdinals (consumed : ConsumedService) (c : CapabilityMetadata) :
    Except BindError (List UInt64) :=
  match consumed.capabilities.find? (·.capability = c.capability) with
  | none => .ok []
  | some requested => ordinalsFrom c requested.methods []

/-- The interfaces of a service that a client may see and bind. -/
def eligible (r : CapabilityRegistry) (client : ClientContext) (consumed : ConsumedService)
    (required : List Metadata) : List PublishedInterface :=
  r.interfaces.filter fun i =>
    i.name = consumed.name ∧ metadataMatches i.metadata required ∧ canSee i client ∧
      canBind i client

section Kernel

variable {κ : Type} (createChannel : Prog κ KernelError CreatedChannel)

/-- Bind a capability, if the client satisfies its permission and asks for some of its methods. -/
def bindEach (client : ClientContext) (consumed : ConsumedService) (i : PublishedInterface)
    (c : CapabilityMetadata) : Prog κ BindError (List BoundCapability) :=
  if checkPermission c.permission client ≠ .allow then return []
  else do
    let methodOrdinals ← lift (scopedOrdinals consumed c)
    if methodOrdinals.isEmpty then return []
    else do
      let channel ← mapErr .kernel createChannel
      return [bindingOf client i c methodOrdinals channel.localHandle channel.remoteHandle]

def bindConsumedService (r : CapabilityRegistry) (client : ClientContext)
    (consumed : ConsumedService) : Prog κ BindError (List BoundCapability) := do
  let required ← lift (requiredMetadata consumed)
  let interfaces := eligible r client consumed required
  check (interfaces ≠ []) .notFound
  let bindings ← gather
    (fun i => do
      let capabilities ← lift (scopedCapabilities consumed i)
      gather (bindEach createChannel client consumed i) capabilities)
    interfaces
  check (bindings ≠ []) .permissionDenied
  return bindings

/-- The one interface of a service that has a capability, that capability and the methods of it
that a client may call. -/
def chooseCapability (r : CapabilityRegistry) (client : ClientContext) (consumed : ConsumedService)
    (capabilityName : Str) :
    Except BindError (PublishedInterface × CapabilityMetadata × List UInt64) :=
  if capabilityName.isEmpty then .error .invalidCapability
  else
    match consumed.capabilities.filter (·.capability = capabilityName) with
    | [requested] =>
      if requested.methods.isEmpty ∨ requested.methods.any (·.ordinal = 0) then
        .error .invalidCapability
      else do
        let required ← requiredMetadata consumed
        match (eligible r client consumed required).filter
            fun i => i.capabilities.any (·.capability = capabilityName) with
        | [] => .error .notFound
        | [i] =>
          match i.capabilities.find? (·.capability = capabilityName) with
          | none => .error .invalidCapability
          | some provider =>
            if checkPermission provider.permission client ≠ .allow then .error .permissionDenied
            else do
              let methodOrdinals ← scopedOrdinals consumed provider
              if methodOrdinals.isEmpty then .error .invalidCapability
              else return (i, provider, methodOrdinals)
        | _ => .error .ambiguous
    | _ => .error .invalidCapability

def bindConsumedCapability (r : CapabilityRegistry) (client : ClientContext)
    (consumed : ConsumedService) (capabilityName : Str) : Prog κ BindError BoundCapability := do
  let (i, provider, methodOrdinals) ← lift (chooseCapability r client consumed capabilityName)
  let channel ← mapErr .kernel createChannel
  return bindingOf client i provider methodOrdinals channel.localHandle channel.remoteHandle

end Kernel

def bindConsumedCapabilityShape (r : CapabilityRegistry) (client : ClientContext)
    (consumed : ConsumedService) (capabilityName : Str) : Except BindError BoundCapability := do
  let (i, provider, methodOrdinals) ← chooseCapability r client consumed capabilityName
  return bindingOf client i provider methodOrdinals 0 0

def bindRuntimeCapability (r : CapabilityRegistry) (client : ClientContext)
    (consumed : ConsumedService) (capabilityName : Str) (providerEndpoint : Endpoint) :
    Except BindError BoundCapability := do
  if providerEndpoint.objectId = 0 then .error .invalidCapability
  else do
    let binding ← bindConsumedCapabilityShape r client consumed capabilityName
    return { binding with
      providerEndpoint := providerEndpoint, clientEndpoint := ⟨0, SERVICE_ENDPOINT_RIGHTS⟩ }

/-! ### Declared authority -/

/-- A declaration asks for a method of a capability. -/
def Requested (consumed : ConsumedService) (capability : Str) (ordinal : UInt64) : Prop :=
  ∃ r ∈ consumed.capabilities, r.capability = capability ∧ ∃ m ∈ r.methods, m.ordinal = ordinal

/-- A declaration asks for a method of a capability and cannot do without. -/
def Needed (consumed : ConsumedService) (capability : Str) (ordinal : UInt64) : Prop :=
  ∃ r ∈ consumed.capabilities, r.capability = capability ∧
    ∃ m ∈ r.methods, m.ordinal = ordinal ∧ m.linkType = .required

/-- A binding names an interface. -/
structure Names (b : BoundCapability) (i : PublishedInterface) : Prop where
  key : (b.providerPackage, b.providerInstanceId, b.serviceName) = i.key
  protocol : b.protocol = i.protocol
  lifecycle : b.lifecycle = i.lifecycle
  manager : b.providerManager = i.endpoint

/-- A binding is within what was published, permitted and declared. -/
structure Granted (r : CapabilityRegistry) (client : ClientContext) (consumed : ConsumedService)
    (b : BoundCapability) (i : PublishedInterface) (c : CapabilityMetadata) : Prop where
  published : i ∈ r.interfaces
  names : Names b i
  seen : canSee i client = true
  bound : canBind i client = true
  offered : i.capabilities.find? (·.capability = b.capability) = some c
  permission : b.permission = c.permission
  satisfied : checkPermission c.permission client = .allow
  once : b.methodOrdinals.Nodup
  ordinals : ∀ m, m ∈ b.methodOrdinals ↔ Requested consumed b.capability m ∧ m ∈ c.methodOrdinals
  needed : ∀ m, Needed consumed b.capability m → m ∈ b.methodOrdinals

/-! ### What scoping keeps -/

variable {c : CapabilityMetadata} {methods : List MethodDependency}

/-- The ordinals are those asked for and offered, each once. -/
theorem of_ordinalsFrom {found ordinals} (h : ordinalsFrom c methods found = .ok ordinals)
    (hfound : found.Nodup) :
    ordinals.Nodup ∧
      (∀ m, m ∈ ordinals ↔
        m ∈ found ∨ m ∈ c.methodOrdinals ∧ ∃ d ∈ methods, d.ordinal = m) ∧
      ∀ d ∈ methods, d.linkType = .required → d.ordinal ∈ c.methodOrdinals := by
  induction methods generalizing found with
  | nil =>
    cases h
    exact ⟨hfound, fun m => by simp, fun d hd => absurd hd List.not_mem_nil⟩
  | cons method rest ih =>
    rw [ordinalsFrom] at h
    split at h
    · cases h
    split at h
    · -- an offered method is added unless it is there
      rename_i hoffered
      have hnext : (if method.ordinal ∈ found then found else found ++ [method.ordinal]).Nodup := by
        split
        · exact hfound
        · rename_i hnew
          exact List.nodup_append.mpr ⟨hfound, List.nodup_singleton _, fun a ha b hb heq =>
            hnew (List.mem_singleton.mp hb ▸ heq ▸ ha)⟩
      obtain ⟨hnodup, hmem, hneeded⟩ := ih h hnext
      refine ⟨hnodup, fun m => ?_, List.forall_mem_cons.mpr ⟨fun _ => hoffered, hneeded⟩⟩
      have hin : m ∈ (if method.ordinal ∈ found then found else found ++ [method.ordinal]) ↔
          m ∈ found ∨ m = method.ordinal := by
        split
        · rename_i hold
          exact ⟨.inl, fun hm => hm.elim id fun heq => heq ▸ hold⟩
        · rw [List.mem_append, List.mem_singleton]
      rw [hmem, hin, List.exists_mem_cons_iff, or_assoc]
      refine or_congr_right ⟨?_, ?_⟩
      · rintro (rfl | ⟨hm, hd⟩)
        · exact ⟨hoffered, .inl rfl⟩
        · exact ⟨hm, .inr hd⟩
      · rintro ⟨hm, heq | hd⟩
        · exact .inl heq.symm
        · exact .inr ⟨hm, hd⟩
    · rename_i hmissing
      split at h
      · cases h
      rename_i hoptional
      obtain ⟨hnodup, hmem, hneeded⟩ := ih h hfound
      refine ⟨hnodup, fun m => ?_,
        List.forall_mem_cons.mpr ⟨fun hrequired => absurd hrequired hoptional, hneeded⟩⟩
      rw [hmem, List.exists_mem_cons_iff]
      refine or_congr_right (and_congr_right fun hm => ⟨.inr, ?_⟩)
      rintro (rfl | hd)
      · exact absurd hm hmissing
      · exact hd

theorem of_checkMethods (h : checkMethods c methods = .ok ()) :
    ∀ d ∈ methods, d.linkType = .required → d.ordinal ∈ c.methodOrdinals := by
  induction methods with
  | nil => exact fun d hd => absurd hd List.not_mem_nil
  | cons method rest ih =>
    rw [checkMethods] at h
    split at h
    · cases h
    split at h
    · cases h
    · rename_i hmet
      refine List.forall_mem_cons.mpr ⟨fun hrequired => ?_, ih h⟩
      by_contra hmissing
      exact hmet ⟨hrequired, hmissing⟩

/-- Each requested capability is offered, with the methods that are needed of it. -/
theorem of_scopeEach {i requests cs} (h : scopeEach i requests = .ok cs) :
    (∀ c ∈ cs, ∃ q ∈ requests, i.capabilities.find? (·.capability = q.capability) = some c) ∧
      ∀ q ∈ requests, ∃ c ∈ cs, i.capabilities.find? (·.capability = q.capability) = some c ∧
        ∀ d ∈ q.methods, d.linkType = .required → d.ordinal ∈ c.methodOrdinals := by
  induction requests generalizing cs with
  | nil =>
    cases h
    exact ⟨fun c hc => absurd hc List.not_mem_nil, fun q hq => absurd hq List.not_mem_nil⟩
  | cons requested rest ih =>
    rw [scopeEach] at h
    split at h
    · cases h
    cases hfind : i.capabilities.find? (·.capability = requested.capability) with
    | none =>
      rw [hfind] at h
      cases h
    | some provider =>
      rw [hfind] at h
      obtain ⟨_, hmethods, h⟩ := except_bind_eq_ok.mp h
      obtain ⟨others, hothers, h⟩ := except_bind_eq_ok.mp h
      cases h
      obtain ⟨hfrom, hall⟩ := ih hothers
      constructor
      · refine List.forall_mem_cons.mpr ⟨⟨requested, List.mem_cons_self, hfind⟩, ?_⟩
        intro c hc
        obtain ⟨q, hq, hc⟩ := hfrom c hc
        exact ⟨q, List.mem_cons_of_mem _ hq, hc⟩
      · refine List.forall_mem_cons.mpr
          ⟨⟨provider, List.mem_cons_self, hfind, of_checkMethods hmethods⟩, ?_⟩
        intro q hq
        obtain ⟨c, hc, hoffers⟩ := hall q hq
        exact ⟨c, List.mem_cons_of_mem _ hc, hoffers⟩

/-! ### Bindings -/

/-- What every binding has: its methods are those of the declaration's first entry for its
capability. -/
structure Shaped (r : CapabilityRegistry) (client : ClientContext) (consumed : ConsumedService)
    (b : BoundCapability) (i : PublishedInterface) (c : CapabilityMetadata) : Prop where
  published : i ∈ r.interfaces
  names : Names b i
  seen : canSee i client = true
  bound : canBind i client = true
  offered : i.capabilities.find? (·.capability = b.capability) = some c
  permission : b.permission = c.permission
  satisfied : checkPermission c.permission client = .allow
  scope : scopedOrdinals consumed c = .ok b.methodOrdinals
  some_method : b.methodOrdinals ≠ []
  needed : ∀ m, Needed consumed b.capability m → m ∈ c.methodOrdinals

/-- The first entry for a capability asks for each of its methods that another one asks for. -/
def FirstCovers (consumed : ConsumedService) (c : CapabilityMetadata) : Prop :=
  ∀ first, consumed.capabilities.find? (·.capability = c.capability) = some first →
    ∀ q ∈ consumed.capabilities, q.capability = c.capability →
      ∀ d ∈ q.methods, d.ordinal ∈ c.methodOrdinals → ∃ e ∈ first.methods, e.ordinal = d.ordinal

section Shaped

variable {r : CapabilityRegistry} {client : ClientContext} {consumed : ConsumedService}
  {b : BoundCapability} {i : PublishedInterface}
  {cs : List CapabilityMetadata} {bs : List BoundCapability}

theorem key_of_find {α κ : Type} [DecidableEq κ] {key : α → κ} {k : κ} {as : List α} {a : α}
    (h : as.find? (key · = k) = some a) : key a = k := by
  have hfound := List.find?_some h
  exact of_decide_eq_true hfound

theorem capability_of_find {name : Str} (h : cs.find? (·.capability = name) = some c) :
    c.capability = name :=
  key_of_find h

/-- The first entry for the capability of a binding. -/
theorem Shaped.first (h : Shaped r client consumed b i c) :
    ∃ first, consumed.capabilities.find? (·.capability = c.capability) = some first ∧
      b.methodOrdinals.Nodup ∧
      ∀ m, m ∈ b.methodOrdinals ↔
        m ∈ c.methodOrdinals ∧ ∃ d ∈ first.methods, d.ordinal = m := by
  have hscope := h.scope
  rw [scopedOrdinals] at hscope
  cases hfirst : consumed.capabilities.find? (·.capability = c.capability) with
  | none =>
    rw [hfirst] at hscope
    exact absurd (Except.ok.inj hscope).symm h.some_method
  | some first =>
    rw [hfirst] at hscope
    obtain ⟨hnodup, hmem, -⟩ := of_ordinalsFrom hscope .nil
    refine ⟨first, rfl, hnodup, fun m => ?_⟩
    rw [hmem, or_iff_right List.not_mem_nil]

/-- A binding is within its authority exactly if the first entry for its capability covers the
others. -/
theorem Shaped.granted_iff (h : Shaped r client consumed b i c) :
    Granted r client consumed b i c ↔ FirstCovers consumed c := by
  obtain ⟨first, hfirst, hnodup, hmem⟩ := h.first
  have hname := capability_of_find h.offered
  constructor
  · intro hgranted first' hfirst' q hq hcapability d hd hoffered
    rw [hfirst, Option.some_inj] at hfirst'
    subst hfirst'
    have hrequested : Requested consumed b.capability d.ordinal :=
      ⟨q, hq, hcapability.trans hname, d, hd, rfl⟩
    exact ((hmem _).mp ((hgranted.ordinals _).mpr ⟨hrequested, hoffered⟩)).2
  · intro hcovers
    have hordinals : ∀ m, m ∈ b.methodOrdinals ↔
        Requested consumed b.capability m ∧ m ∈ c.methodOrdinals := by
      intro m
      rw [hmem]
      constructor
      · rintro ⟨hm, d, hd, rfl⟩
        have hcapability : first.capability = c.capability := key_of_find hfirst
        exact ⟨⟨first, List.mem_of_find?_eq_some hfirst, hcapability.trans hname, d, hd, rfl⟩, hm⟩
      · rintro ⟨⟨q, hq, hcapability, d, hd, rfl⟩, hm⟩
        exact ⟨hm, hcovers first hfirst q hq (hcapability.trans hname.symm) d hd hm⟩
    refine
      { h with
        once := hnodup
        ordinals := hordinals
        needed := fun m hm => (hordinals m).mpr ⟨?_, h.needed m hm⟩ }
    obtain ⟨q, hq, hcapability, d, hd, hordinal, -⟩ := hm
    exact ⟨q, hq, hcapability, d, hd, hordinal⟩

/-- The interface and the capability of a binding are determined by it. -/
theorem Shaped.unique (h : Shaped r client consumed b i c) {i' c'}
    (h' : Granted r client consumed b i' c') : i' = i ∧ c' = c := by
  have hi : i' = i := r.eq_of_key h'.published h.published (h'.names.key.symm.trans h.names.key)
  subst hi
  exact ⟨rfl, Option.some_inj.mp (h'.offered.symm.trans h.offered)⟩

theorem names_bindingOf (methodOrdinals clientObject providerObject) :
    Names (bindingOf client i c methodOrdinals clientObject providerObject) i := ⟨rfl, rfl, rfl, rfl⟩

variable {required : List Metadata} {requested : ConsumedCapability} {ordinals : List UInt64}

theorem mem_eligible :
    i ∈ eligible r client consumed required ↔ i ∈ r.interfaces ∧ i.name = consumed.name ∧
      metadataMatches i.metadata required = true ∧ canSee i client = true ∧
        canBind i client = true := by
  rw [eligible, List.mem_filter, decide_eq_true_eq]

variable {κ : Type} {createChannel : Prog κ KernelError CreatedChannel}

theorem lift_eq_ok {σ ε α : Type} {x s t a} :
    (lift x : Prog σ ε α) s = .ok a t ↔ x = .ok a ∧ s = t := by
  cases x with
  | error e => exact ⟨fun h => (by cases h), fun h => (by cases h.1)⟩
  | ok b =>
    rw [Except.ok.injEq]
    exact Outcome.ok.injEq _ _ _ _ ▸ Iff.rfl

variable {s t : κ}

/-- A capability is bound if the client satisfies its permission and the declaration's first entry
for it asks for some of its methods. -/
theorem of_bindEach (h : bindEach createChannel client consumed i c s = .ok bs t) :
    (∀ b ∈ bs, checkPermission c.permission client = .allow ∧ b.methodOrdinals ≠ [] ∧
      scopedOrdinals consumed c = .ok b.methodOrdinals ∧ b.capability = c.capability ∧
      b.permission = c.permission ∧ Names b i) ∧
    (checkPermission c.permission client = .allow →
      ∃ ordinals, scopedOrdinals consumed c = .ok ordinals ∧ (ordinals ≠ [] → bs ≠ [])) := by
  rw [bindEach] at h
  split at h
  · rename_i hdenied
    obtain ⟨rfl, -⟩ := pure_eq_ok.mp h
    exact ⟨fun b hb => absurd hb List.not_mem_nil, fun hallowed => absurd hallowed hdenied⟩
  rename_i hallowed
  obtain ⟨ordinals, u, hordinals, h⟩ := bind_eq_ok.mp h
  obtain ⟨hscope, rfl⟩ := lift_eq_ok.mp hordinals
  split at h
  · rename_i hnone
    obtain ⟨rfl, -⟩ := pure_eq_ok.mp h
    exact ⟨fun b hb => absurd hb List.not_mem_nil,
      fun _ => ⟨ordinals, hscope, fun hsome => absurd (List.isEmpty_iff.mp hnone) hsome⟩⟩
  · rename_i hsome
    obtain ⟨channel, v, -, h⟩ := bind_eq_ok.mp h
    obtain ⟨rfl, -⟩ := pure_eq_ok.mp h
    refine ⟨fun b hb => ?_, fun _ => ⟨ordinals, hscope, fun _ => List.cons_ne_nil _ _⟩⟩
    rw [List.mem_singleton.mp hb]
    exact ⟨not_not.mp hallowed, fun hnil => hsome (List.isEmpty_iff.mpr hnil), hscope, rfl, rfl,
      names_bindingOf _ _ _⟩

/-- The capabilities that an interface binds. -/
theorem scopeEach_of_scopedCapabilities (h : scopedCapabilities consumed i = .ok cs)
    (hsome : consumed.capabilities ≠ []) :
    scopeEach i consumed.capabilities = .ok cs := by
  rwa [scopedCapabilities, if_neg fun hnone => hsome (List.isEmpty_iff.mp hnone)] at h

/-- Each interface that is eligible binds its capabilities, and there are no other bindings. -/
theorem of_bindConsumedService
    (h : bindConsumedService createChannel r client consumed s = .ok bs t) :
    ∃ required, requiredMetadata consumed = .ok required ∧
      (∀ b ∈ bs, ∃ i ∈ eligible r client consumed required, ∃ cs,
        scopedCapabilities consumed i = .ok cs ∧ ∃ c ∈ cs, ∃ s' t' bs',
          bindEach createChannel client consumed i c s' = .ok bs' t' ∧ b ∈ bs') ∧
      ∀ i ∈ eligible r client consumed required, ∃ cs,
        scopedCapabilities consumed i = .ok cs ∧ ∀ c ∈ cs, ∃ s' t' bs',
          bindEach createChannel client consumed i c s' = .ok bs' t' ∧ bs' ⊆ bs := by
  obtain ⟨required, u, hlift, h⟩ := bind_eq_ok.mp h
  obtain ⟨hrequired, rfl⟩ := lift_eq_ok.mp hlift
  obtain ⟨_, u, -, h⟩ := bind_eq_ok.mp h
  obtain ⟨bindings, v, hgather, h⟩ := bind_eq_ok.mp h
  obtain ⟨_, w, -, h⟩ := bind_eq_ok.mp h
  obtain ⟨rfl, -⟩ := pure_eq_ok.mp h
  obtain ⟨hfrom, hall⟩ := of_gather hgather
  refine ⟨required, hrequired, fun b hb => ?_, fun i hi => ?_⟩
  · obtain ⟨i, hi, s', t', bs', hrun, hb⟩ := hfrom b hb
    obtain ⟨cs, u', hlift, hinner⟩ := bind_eq_ok.mp hrun
    obtain ⟨hcs, rfl⟩ := lift_eq_ok.mp hlift
    exact ⟨i, hi, cs, hcs, (of_gather hinner).1 b hb⟩
  · obtain ⟨s', t', bs', hrun, hsub⟩ := hall i hi
    obtain ⟨cs, u', hlift, hinner⟩ := bind_eq_ok.mp hrun
    obtain ⟨hcs, rfl⟩ := lift_eq_ok.mp hlift
    refine ⟨cs, hcs, fun c hc => ?_⟩
    obtain ⟨s'', t'', bs'', hrun, hsub'⟩ := (of_gather hinner).2 c hc
    exact ⟨s'', t'', bs'', hrun, fun b hb => hsub (hsub' hb)⟩

/-- A binding of a scoped capability. -/
theorem shaped_of_bindEach (hi : i ∈ eligible r client consumed required)
    (hcs : scopedCapabilities consumed i = .ok cs) (hc : c ∈ cs)
    (h : bindEach createChannel client consumed i c s = .ok bs t) (hb : b ∈ bs) :
    Shaped r client consumed b i c := by
  obtain ⟨hallowed, hsome, hscope, hcapability, hpermission, hnames⟩ := (of_bindEach h).1 b hb
  obtain ⟨hpublished, -, -, hsee, hbind⟩ := mem_eligible.mp hi
  have hdeclared : consumed.capabilities ≠ [] := by
    intro hnone
    rw [scopedOrdinals, hnone, List.find?_nil] at hscope
    exact hsome (Except.ok.inj hscope).symm
  obtain ⟨hfrom, hall⟩ := of_scopeEach (scopeEach_of_scopedCapabilities hcs hdeclared)
  have hoffered : i.capabilities.find? (·.capability = b.capability) = some c := by
    obtain ⟨q, -, hfind⟩ := hfrom c hc
    rw [hcapability, capability_of_find hfind]
    exact hfind
  refine ⟨hpublished, hnames, hsee, hbind, hoffered, hpermission, hallowed, hscope, hsome, ?_⟩
  rintro m ⟨q, hq, hname, d, hd, rfl, hrequired⟩
  obtain ⟨c', -, hfind, hneeded⟩ := hall q hq
  rw [hname, hoffered, Option.some_inj] at hfind
  exact hfind ▸ hneeded d hd hrequired

section Only

variable (h : consumed.capabilities.filter (·.capability = c.capability) = [requested])
include h

theorem eq_of_only {q} (hq : q ∈ consumed.capabilities)
    (hcapability : q.capability = c.capability) : q = requested := by
  rw [← List.mem_singleton, ← h, List.mem_filter]
  exact ⟨hq, decide_eq_true hcapability⟩

/-- The only entry for a capability covers it. -/
theorem firstCovers_of_only : FirstCovers consumed c := by
  intro first hfirst q hq hcapability d hd _
  have hsame := eq_of_only h (List.mem_of_find?_eq_some hfirst) (key_of_find hfirst)
  rw [eq_of_only h hq hcapability] at hd
  exact ⟨d, hsame ▸ hd, rfl⟩

/-- The methods that the only entry for a capability needs are offered. -/
theorem needed_of_only (hscope : scopedOrdinals consumed c = .ok ordinals) :
    ∀ m, Needed consumed c.capability m → m ∈ c.methodOrdinals := by
  have hfirst : consumed.capabilities.find? (·.capability = c.capability) = some requested := by
    rw [← List.head?_filter, h, List.head?_cons]
  rw [scopedOrdinals, hfirst] at hscope
  obtain ⟨-, -, hneeded⟩ := of_ordinalsFrom hscope .nil
  rintro m ⟨q, hq, hcapability, d, hd, rfl, hrequired⟩
  exact hneeded d (eq_of_only h hq hcapability ▸ hd) hrequired

end Only

/-- What is chosen is the only entry of its name, and its methods are those of the binding. -/
theorem of_chooseCapability {name}
    (h : chooseCapability r client consumed name = .ok (i, c, ordinals)) (hb : Names b i)
    (hcapability : b.capability = c.capability) (hpermission : b.permission = c.permission)
    (hordinals : b.methodOrdinals = ordinals) : Granted r client consumed b i c := by
  rw [chooseCapability] at h
  split at h
  · cases h
  split at h
  · rename_i requested hone
    split at h
    · cases h
    obtain ⟨required, -, h⟩ := except_bind_eq_ok.mp h
    split at h
    · cases h
    · rename_i i' hchosen
      split at h
      · cases h
      rename_i provider hfind
      split at h
      · cases h
      rename_i hallowed
      obtain ⟨found, hscope, h⟩ := except_bind_eq_ok.mp h
      split at h
      · cases h
      rename_i hsome
      cases h
      have hname : c.capability = name := capability_of_find hfind
      obtain ⟨hpublished, -, -, hsee, hbind⟩ := mem_eligible.mp
        (List.mem_of_mem_filter (hchosen ▸ List.mem_singleton_self i))
      rw [← hname] at hone hfind
      have hshaped : Shaped r client consumed b i c :=
        ⟨hpublished, hb, hsee, hbind, hcapability ▸ hfind, hpermission, not_not.mp hallowed,
          hordinals ▸ hscope, hordinals ▸ fun hnil => hsome (List.isEmpty_iff.mpr hnil),
          hcapability ▸ needed_of_only hone hscope⟩
      exact hshaped.granted_iff.mpr (firstCovers_of_only hone)
    · cases h
  · cases h

end Shaped

/-- For each capability that a client is given, the first entry of the declaration covers the
others. -/
def Covered (r : CapabilityRegistry) (client : ClientContext) (consumed : ConsumedService) : Prop :=
  ∀ required, requiredMetadata consumed = .ok required →
    ∀ i ∈ eligible r client consumed required, ∀ q ∈ consumed.capabilities, ∀ c,
      i.capabilities.find? (·.capability = q.capability) = some c →
      checkPermission c.permission client = .allow →
      (∀ first, consumed.capabilities.find? (·.capability = c.capability) = some first →
        ∃ e ∈ first.methods, e.ordinal ∈ c.methodOrdinals) →
      FirstCovers consumed c

section Kernel

variable {κ : Type} {createChannel : Prog κ KernelError CreatedChannel} {r : CapabilityRegistry}
  {client : ClientContext} {consumed : ConsumedService}

/-- All bindings of a service are granted exactly if the declaration covers what it asks for. -/
theorem granted_iff_covered {s t : κ} {bs : List BoundCapability}
    (h : bindConsumedService createChannel r client consumed s = .ok bs t) :
    (∀ b ∈ bs, ∃ i c, Granted r client consumed b i c) ↔ Covered r client consumed := by
  obtain ⟨required, hrequired, hfrom, hall⟩ := of_bindConsumedService h
  constructor
  · intro hgranted required' hrequired' i hi q hq c hfind hallowed hasks
    rw [hrequired, Except.ok.injEq] at hrequired'
    subst hrequired'
    obtain ⟨cs, hcs, hbinds⟩ := hall i hi
    have hdeclared : consumed.capabilities ≠ [] := List.ne_nil_of_mem hq
    obtain ⟨c', hc', hfind', -⟩ :=
      (of_scopeEach (scopeEach_of_scopedCapabilities hcs hdeclared)).2 q hq
    rw [hfind, Option.some_inj] at hfind'
    subst hfind'
    obtain ⟨s', t', bs', hrun, hsub⟩ := hbinds c hc'
    -- the capability is bound, so that its binding tells what the first entry asks for
    obtain ⟨ordinals, hscope, hbound⟩ := (of_bindEach hrun).2 hallowed
    have hsome : ordinals ≠ [] := by
      intro hnone
      rw [scopedOrdinals] at hscope
      cases hfirst : consumed.capabilities.find? (·.capability = c.capability) with
      | none =>
        have hne := List.find?_eq_none.mp hfirst q hq
        exact hne (decide_eq_true (capability_of_find hfind).symm)
      | some first =>
        rw [hfirst] at hscope
        obtain ⟨e, he, hoffered⟩ := hasks first hfirst
        have hmem := ((of_ordinalsFrom hscope .nil).2.1 e.ordinal).mpr (.inr ⟨hoffered, e, he, rfl⟩)
        rw [hnone] at hmem
        exact absurd hmem List.not_mem_nil
    obtain ⟨b, hb⟩ := List.exists_mem_of_ne_nil _ (hbound hsome)
    have hshaped := shaped_of_bindEach hi hcs hc' hrun hb
    obtain ⟨i', c', hb'⟩ := hgranted b (hsub hb)
    obtain ⟨rfl, rfl⟩ := hshaped.unique hb'
    exact hshaped.granted_iff.mp hb'
  · intro hcovered b hb
    obtain ⟨i, hi, cs, hcs, c, hc, s', t', bs', hrun, hb⟩ := hfrom b hb
    have hshaped := shaped_of_bindEach hi hcs hc hrun hb
    refine ⟨i, c, hshaped.granted_iff.mpr ?_⟩
    obtain ⟨first, hfirst, -, hmem⟩ := hshaped.first
    have hcapability : first.capability = c.capability := key_of_find hfirst
    refine hcovered required hrequired i hi first (List.mem_of_find?_eq_some hfirst) c ?_
      hshaped.satisfied fun first' hfirst' => ?_
    · rw [hcapability, capability_of_find hshaped.offered]
      exact hshaped.offered
    · rw [hfirst, Option.some_inj] at hfirst'
      subst hfirst'
      obtain ⟨m, hm⟩ := List.exists_mem_of_ne_nil _ hshaped.some_method
      obtain ⟨hoffered, d, hd, rfl⟩ := (hmem m).mp hm
      exact ⟨d, hd, hoffered⟩

/-- **Bindings stay within declared authority** when the first entry of a declaration for a
capability covers the others; the bindings of one capability, for which the declaration must have
a single entry, always do. -/
theorem granted_of_bound (createChannel : Prog κ KernelError CreatedChannel)
    (r : CapabilityRegistry) (client : ClientContext) (consumed : ConsumedService) :
    (∀ s bs t, bindConsumedService createChannel r client consumed s = .ok bs t →
      ((∀ b ∈ bs, ∃ i c, Granted r client consumed b i c) ↔ Covered r client consumed)) ∧
    (∀ name s b t, bindConsumedCapability createChannel r client consumed name s = .ok b t →
      ∃ i c, Granted r client consumed b i c) ∧
    (∀ name endpoint b, bindRuntimeCapability r client consumed name endpoint = .ok b →
      ∃ i c, Granted r client consumed b i c) := by
  refine ⟨fun s bs t h => granted_iff_covered h, ?_, ?_⟩
  · intro name s b t h
    obtain ⟨⟨i, c, ordinals⟩, u, hlift, h⟩ := bind_eq_ok.mp h
    obtain ⟨hchoose, rfl⟩ := lift_eq_ok.mp hlift
    obtain ⟨channel, v, -, h⟩ := bind_eq_ok.mp h
    obtain ⟨rfl, -⟩ := pure_eq_ok.mp h
    exact ⟨i, c, of_chooseCapability hchoose (names_bindingOf _ _ _) rfl rfl rfl⟩
  · intro name endpoint b h
    rw [bindRuntimeCapability] at h
    split at h
    · cases h
    obtain ⟨shape, hshape, h⟩ := except_bind_eq_ok.mp h
    obtain ⟨⟨i, c, ordinals⟩, hchoose, hshape⟩ := except_bind_eq_ok.mp hshape
    cases hshape
    cases h
    exact ⟨i, c, of_chooseCapability hchoose ⟨rfl, rfl, rfl, rfl⟩ rfl rfl rfl⟩

end Kernel

/-! ### A capability declared twice -/

/-- A kernel that numbers the ends of its channels. -/
def numbering : Prog UInt64 KernelError CreatedChannel := fun n => .ok ⟨n, n + 1⟩ (n + 2)

/-- A published interface with one capability of two methods. -/
def logRegistry : CapabilityRegistry :=
  CapabilityRegistry.new.push
    (CapabilityRegistry.interfaceOf "bexos.log".toList none
      ⟨"bexos.log.Sink".toList, "Sink".toList, .singleton, .pub, none, [],
        [⟨"Write".toList, none, [1, 2]⟩], .eager, none, none⟩
      ⟨9, 3⟩ false)
    fun _ h => absurd h List.not_mem_nil

def plainClient : ClientContext := ⟨"bexos.shell".toList, [], [], true, none⟩

/-- A declaration with one entry for the capability. -/
def onceDeclared : ConsumedService :=
  ⟨"bexos.log.Sink".toList, .required, none, [⟨"Write".toList, [⟨1, .optional⟩, ⟨2, .required⟩]⟩]⟩

theorem covered_once (r client) : Covered r client onceDeclared := by
  intro required _ i _ q hq c hfind _ _
  have hname : c.capability = "Write".toList :=
    (capability_of_find hfind).trans (congrArg _ (List.mem_singleton.mp hq))
  have honly : onceDeclared.capabilities.filter (·.capability = c.capability) =
      onceDeclared.capabilities := by
    rw [hname]
    decide +kernel
  exact firstCovers_of_only honly

/-- All three bindings of the capability are granted. -/
theorem granted_of_bound_once :
    (∃ bs t, bindConsumedService numbering logRegistry plainClient onceDeclared 1 = .ok bs t ∧
      bs.map BoundCapability.methodOrdinals = [[1, 2]] ∧
      ∀ b ∈ bs, ∃ i c, Granted logRegistry plainClient onceDeclared b i c) ∧
    (∃ b t, bindConsumedCapability numbering logRegistry plainClient onceDeclared
        "Write".toList 1 = .ok b t ∧
      ∃ i c, Granted logRegistry plainClient onceDeclared b i c) ∧
    ∃ b, bindRuntimeCapability logRegistry plainClient onceDeclared "Write".toList ⟨5, 3⟩ = .ok b ∧
      ∃ i c, Granted logRegistry plainClient onceDeclared b i c := by
  obtain ⟨hservice, hcapability, hruntime⟩ :=
    granted_of_bound numbering logRegistry plainClient onceDeclared
  refine ⟨?_, ?_, ?_⟩
  · have hrun : (bindConsumedService numbering logRegistry plainClient onceDeclared
        1).returned?.any (fun x => x.1.map BoundCapability.methodOrdinals = [[1, 2]]) = true := by
      decide +kernel
    obtain ⟨⟨bs, t⟩, hreturned, hordinals⟩ := (Option.any_eq_true _ _).mp hrun
    have hok := Outcome.eq_ok_of_returned? hreturned
    exact ⟨bs, t, hok, of_decide_eq_true hordinals,
      (hservice 1 bs t hok).mpr (covered_once logRegistry plainClient)⟩
  · have hrun : (bindConsumedCapability numbering logRegistry plainClient onceDeclared
        "Write".toList 1).returned?.isSome = true := by
      decide +kernel
    obtain ⟨⟨b, t⟩, hreturned⟩ := Option.isSome_iff_exists.mp hrun
    have hok := Outcome.eq_ok_of_returned? hreturned
    exact ⟨b, t, hok, hcapability _ 1 b t hok⟩
  · have hrun : (bindRuntimeCapability logRegistry plainClient onceDeclared "Write".toList
        ⟨5, 3⟩).toOption.isSome = true := by
      decide +kernel
    obtain ⟨b, hsome⟩ := Option.isSome_iff_exists.mp hrun
    have hok := ok_of_toOption hsome
    exact ⟨b, hok, hruntime _ _ b hok⟩

/-- The same methods, in two entries. -/
def twiceDeclared : ConsumedService :=
  ⟨"bexos.log.Sink".toList, .required, none,
    [⟨"Write".toList, [⟨1, .optional⟩]⟩, ⟨"Write".toList, [⟨2, .required⟩]⟩]⟩

/-- **A required method is missing** from the bindings of a capability that is declared twice. -/
theorem needed_method_missing :
    ∃ bs t, bindConsumedService numbering logRegistry plainClient twiceDeclared 1 = .ok bs t ∧
      ∃ b ∈ bs, Needed twiceDeclared b.capability 2 ∧ 2 ∉ b.methodOrdinals := by
  have hrun : (bindConsumedService numbering logRegistry plainClient twiceDeclared 1).returned?.any
      (fun x => x.1.any fun b => b.capability = "Write".toList ∧ 2 ∉ b.methodOrdinals) = true := by
    decide +kernel
  obtain ⟨⟨bs, t⟩, hreturned, hany⟩ := (Option.any_eq_true _ _).mp hrun
  obtain ⟨b, hb, hfacts⟩ := List.any_eq_true.mp hany
  obtain ⟨hcapability, hmissing⟩ := of_decide_eq_true hfacts
  refine ⟨bs, t, Outcome.eq_ok_of_returned? hreturned, b, hb, ?_, hmissing⟩
  exact ⟨_, List.mem_cons_of_mem _ List.mem_cons_self, hcapability.symm, _, List.mem_cons_self,
    rfl, rfl⟩

end Bexos.Appd
