import KeyReader.Extension.Manifest
import KeyReader.OrderedMap
import KeyReader.Table

/-! The state of the extension host, its permissions and capabilities, and the suspension of an
extension, which can suspend others in turn. -/

namespace KeyReader.Extension

open Machine Std

inductive SnapshotKind
  | application
  | document
  | viewport
  | selection
  | annotation
  | theme
  | capabilities
  deriving DecidableEq

inductive LifecycleEvent
  | installed
  | validated
  | activated
  | applicationReady
  | documentOpening (generation : GenerationId)
  | documentOpened (generation : GenerationId)
  | documentClosing (generation : GenerationId)
  | documentClosed (generation : GenerationId)
  | suspended (reason : String)
  | resumed
  | settingsChanged (keys : List String)
  | upgrading (start target : ExtensionVersion)
  | unloading

inductive EventSource
  | host
  | extension (id : ExtensionId)

inductive ExtensionEvent
  | lifecycle (event : LifecycleEvent)
  | commandInvoked (command : CommandId) (payload : DataValue)
  | capabilitiesChanged (snapshot : CapabilitySnapshot)
  | snapshotChanged (snapshot : SnapshotKind) (value : DataValue)
  | effectCompleted (effect : EffectId) (result : EffectResult)
  | taskCancelled (task : TaskId) (reason : String)
  | custom (event : NamespacedId) (payload : DataValue)

structure EventEnvelope where
  cause : CauseContext
  source : EventSource
  sequence : Nat
  event : ExtensionEvent

inductive EventSubscription
  | lifecycle
  | commands
  | capabilities
  | snapshot (kind : SnapshotKind)
  | effectResults
  | custom (event : NamespacedId)
  deriving DecidableEq

/-- What an extension returns from a call: a new state, if any, and requested effects. -/
structure ExtensionUpdate where
  state : Option Fields
  effects : List EffectRequest

def ExtensionUpdate.default : ExtensionUpdate := ⟨none, []⟩

structure ActivationContext where
  extension : ExtensionId
  generation : GenerationId
  cause : CauseContext
  capabilities : CapabilitySnapshot

inductive UpdateDelivery
  | immediate
  | deferred
  deriving DecidableEq

/-- The call that a background adapter has completed. -/
inductive DeferredCall
  | activation (cause : CauseContext)
  | event (envelope : EventEnvelope)
  | resume (cause : CauseContext)

structure DeferredNativeUpdate where
  generation : GenerationId
  call : DeferredCall
  result : Except ExtensionError ExtensionUpdate

/-- The trait of extension instances: each call answers and changes the instance.  What a background
worker does in the meantime is part of the instance. -/
class NativeExtension (G : Type) where
  subscriptions : G → List EventSubscription
  activate : G → ActivationContext → Except ExtensionError ExtensionUpdate × G
  handleEvent : G → EventEnvelope → Except ExtensionError ExtensionUpdate × G
  updateDelivery : G → UpdateDelivery
  drainDeferredUpdates : G → Nat → List DeferredNativeUpdate × G
  pendingDeferredWork : G → Nat
  invalidateDocumentScope : G → G
  suspend : G → String → G
  resume : G → ActivationContext → Except ExtensionError ExtensionUpdate × G

/-- What the host takes from elsewhere: whether a version meets a requirement, and the findings of
the validation in the sections of a manifest before and after the behaviors of its commands. -/
class Platform where
  versionMatches : CompatibleVersion → ExtensionVersion → Bool
  earlierErrors : ExtensionManifest → List ValidationError
  laterErrors : ExtensionManifest → List ValidationError

/-- `validate_with`. -/
def ExtensionManifest.validate [Platform] (manifest : ExtensionManifest)
    (limits : ValidationLimits) : List ValidationError :=
  Platform.earlierErrors manifest ++
    manifest.validateBehaviors limits 0 [] manifest.contributions.commandBehaviors ++
    Platform.laterErrors manifest

structure HostConfig where
  validationLimits : ValidationLimits
  safeMode : Bool
  maximumQueuedEvents : Nat
  maximumEventsPerTick : Nat
  maximumEventsPerCausePerTick : Nat
  maximumEffectsPerEvent : Nat
  maximumDispatchDepth : Nat
  violationsBeforeSuspension : Nat
  allowedLicenseExpressions : List String

def HostConfig.default : HostConfig where
  validationLimits := .default
  safeMode := false
  maximumQueuedEvents := 4096
  maximumEventsPerTick := 256
  maximumEventsPerCausePerTick := 32
  maximumEffectsPerEvent := 64
  maximumDispatchDepth := 32
  violationsBeforeSuspension := 3
  allowedLicenseExpressions := ["0BSD", "Apache-2.0", "BSD-2-Clause", "BSD-3-Clause", "CC0-1.0",
    "ISC", "MIT", "Unlicense", "Zlib", "MIT OR Apache-2.0", "Apache-2.0 OR MIT"]

inductive PermissionDecision
  | granted
  | denied
  | undecided
  deriving DecidableEq

structure PermissionEntry where
  permission : Permission
  decision : PermissionDecision

inductive HostError
  | registry (error : RegistryError)
  | notInstalled (extension : ExtensionId)
  | invalidState (extension : ExtensionId) (state : LifecycleState)
  | safeMode (extension : ExtensionId)
  | licenseDenied (extension : ExtensionId) (license : String)
  | dependencyUnavailable (extension dependency : ExtensionId) (reason : String)
  | requiredCapabilityUnavailable (extension : ExtensionId) (capability : CapabilityId)
  | permissionsRequired (extension : ExtensionId) (permissions : List PermissionRequest)
  | permissionDenied (extension : ExtensionId) (permission : Permission)
  | adapterUnavailable (extension : ExtensionId)
  | unsupportedEntrypoint (extension : ExtensionId)
  | extensionFailed (extension : ExtensionId) (error : ExtensionError)
  | eventRejected (message : String)
  | effectNotPending (extension : ExtensionId) (effect : EffectId)

/-- An effect that the host has accepted, with the places in the host's history at which it and the
requests that share its result were accepted. -/
structure AcceptedEffect extends ArbitratedEffect where
  acceptances : List Nat

structure ActiveRuntime (G : Type) where
  generation : GenerationId
  capabilities : CapabilitySnapshot
  subscriptions : List EventSubscription
  /-- The instance of the extension, unless it is declarative. -/
  guest : Option G
  state : Fields
  violations : Nat

structure QueuedEvent where
  target : ExtensionId
  envelope : EventEnvelope
  rootCause : CauseId
  eligibleTick : Nat

structure PendingEffect where
  generation : GenerationId
  cause : CauseContext
  leader : EffectId
  /-- The place in the host's history at which the effect was accepted. -/
  acceptance : Nat

/-- What the host has done for an update, and the lifecycle state of its extension then. -/
inductive Occurrence
  | patched (extension : ExtensionId) (state : Option LifecycleState)
  | accepted (extension : ExtensionId) (generation : GenerationId) (request : EffectRequest)
      (state : Option LifecycleState)
  /-- The completion of an effect was queued for the acceptance at a place.  `answered` are the
  acceptances of the effect that was answered. -/
  | completed (acceptance : Nat) (answered : List Nat)

/-- Semantic host of the extensions.  Its history is not part of the source: nothing reads it. -/
structure ExtensionHost (G : Type) where
  config : HostConfig
  registry : ExtTreeMap ExtensionId PackageRecord
  adapters : AList fun _ : NativeAdapterId => GenerationId → G
  wasmAdapters : AList fun _ : ExtensionId =>
    ExtensionEntrypoint → GenerationId → Except ExtensionError G
  runtimes : ExtTreeMap ExtensionId (ActiveRuntime G)
  hostCapabilities : ExtTreeMap CapabilityId ExtensionVersion
  capabilityPermissions : AList fun _ : CapabilityId => Permission
  snapshotPermissions : List (SnapshotKind × List Permission)
  permissionDecisions : AList fun _ : ExtensionId => List PermissionEntry
  persistedSettings : AList fun _ : ExtensionId => DataValue
  queue : List QueuedEvent
  pendingEffects : AList fun _ : ExtensionId × EffectId => PendingEffect
  tick : Nat
  nextCause : Nat
  nextEventSequence : Nat
  nextGeneration : Nat
  history : List Occurrence

open SnapshotKind
def snapshotNamespace : SnapshotKind → String
  | .application => "application"
  | .document => "document"
  | .viewport => "viewport"
  | .selection => "selection"
  | annotation => "annotation"
  | .theme => "theme"
  | .capabilities => "capabilities"

namespace ExtensionHost

variable {G : Type}

def new (config : HostConfig) : ExtensionHost G :=
  { config, registry := ∅, adapters := ∅, wasmAdapters := ∅, runtimes := ∅, hostCapabilities := ∅
    capabilityPermissions := ∅, snapshotPermissions := [], permissionDecisions := ∅
    persistedSettings := ∅, queue := [], pendingEffects := ∅, tick := 0, nextCause := 1
    nextEventSequence := 1, nextGeneration := 1, history := [] }

section

variable (host : ExtensionHost G)

section

variable (extension : ExtensionId)

def setRuntime (runtime : ActiveRuntime G) :
    ExtensionHost G :=
  { host with runtimes := host.runtimes.insert extension runtime }

def state (host : ExtensionHost G) (extension : ExtensionId) : Option LifecycleState :=
  host.registry[extension]?.map (·.state)

/-- `transition` of the record of an extension. -/
def transition (host : ExtensionHost G) (extension : ExtensionId) (target : LifecycleState) :
    Except HostError (ExtensionHost G) :=
  match host.registry[extension]? with
  | none => .error (.notInstalled extension)
  | some record =>
    match record.transition target with
    | .error error => .error (.registry error)
    | .ok record => .ok { host with registry := host.registry.insert extension record }

def permissionDecision (permission : Permission) : PermissionDecision :=
  match (host.permissionDecisions.lookup extension).bind
      fun entries => entries.find? (·.permission = permission) with
  | some entry => entry.decision
  | none => .undecided

def permissionIsGranted (permission : Permission) : Bool :=
  host.registry[extension]?.any (fun record =>
    record.manifest.permissions.any (·.permission = permission)) &&
    host.permissionDecision extension permission = .granted

def snapshotIsAuthorized (snapshot : SnapshotKind) : Bool :=
  host.runtimes[extension]?.any (fun runtime =>
    runtime.subscriptions.any (· = .snapshot snapshot)) &&
    (host.snapshotPermissions.find? (·.1 = snapshot)).all fun (_, permissions) =>
      permissions.all (host.permissionIsGranted extension)

def storagePermissionIsGranted (area : StorageArea) : Bool :=
  host.registry[extension]?.any fun record => record.manifest.permissions.any fun request =>
    match request.permission with
    | .storage stored _ =>
      stored = area && host.permissionDecision extension request.permission = .granted
    | _ => false

def capabilityIsGranted (capability : CapabilityId) : Bool :=
  host.runtimes[extension]?.any fun runtime =>
    runtime.capabilities.granted.any (·.capability = capability)

def contributionExists (contribution : ContributionId) : Bool :=
  host.registry[extension]?.any fun record =>
    record.manifest.contributions.menus.any (·.id = contribution) ||
      record.manifest.contributions.views.any (·.id = contribution)

def contributionPermission (contribution : ContributionId) : Option Permission := do
  let record ← host.registry[extension]?
  let view ← record.manifest.contributions.views.find? (·.id = contribution)
  view.slot.permission

def purgeSnapshotNamespacesForPermission (permission : Permission) : ExtensionHost G :=
  let namespaces := (host.snapshotPermissions.filter (permission ∈ ·.2)).map fun (snapshot, _) =>
    snapshotNamespace snapshot
  match host.runtimes[extension]? with
  | none => host
  | some runtime => host.setRuntime extension { runtime with
      state := namespaces.foldl (fun state key => Assoc.remove key state) runtime.state }

def setPermissionDecision (permission : Permission)
    (decision : PermissionDecision) : ExtensionHost G :=
  let entries := (host.permissionDecisions.lookup extension).getD []
  let entries :=
    if entries.any (·.permission = permission) then
      entries.replaceF fun entry =>
        if entry.permission = permission then some { entry with decision } else none
    else entries ++ [⟨permission, decision⟩]
  let host := { host with permissionDecisions := host.permissionDecisions.insert extension entries }
  if decision ≠ .granted then host.purgeSnapshotNamespacesForPermission extension permission
  else host

def clearPermissionDecisions :
    ExtensionHost G :=
  let permissions := ((host.permissionDecisions.lookup extension).getD []).map (·.permission)
  permissions.foldl (fun host permission =>
      host.purgeSnapshotNamespacesForPermission extension permission)
    { host with permissionDecisions := host.permissionDecisions.erase extension }

end

def requireCapabilityPermission (id : CapabilityId) (permission : Permission) : ExtensionHost G :=
  { host with capabilityPermissions := host.capabilityPermissions.insert id permission }

def requireSnapshotPermissions (snapshot : SnapshotKind)
    (permissions : List Permission) : ExtensionHost G :=
  if host.snapshotPermissions.any (·.1 = snapshot) then
    { host with snapshotPermissions := host.snapshotPermissions.replaceF fun entry =>
        if entry.1 = snapshot then some (entry.1, permissions) else none }
  else { host with snapshotPermissions := host.snapshotPermissions ++ [(snapshot, permissions)] }

def freshGeneration : GenerationId × ExtensionHost G :=
  (host.nextGeneration, { host with nextGeneration := saturatingAdd host.nextGeneration 1 })

def rootCause : CauseContext × ExtensionHost G :=
  (⟨⟨0, host.nextCause⟩, none, 0⟩, { host with nextCause := saturatingAdd host.nextCause 1 })

def childCause (parent : CauseContext) : Option (CauseContext × ExtensionHost G) :=
  if host.config.maximumDispatchDepth ≤ parent.depth then none
  else some (⟨⟨0, host.nextCause⟩, some parent.id, parent.depth + 1⟩,
    { host with nextCause := saturatingAdd host.nextCause 1 })

def capabilityOffers : List ProvidedCapability :=
  host.hostCapabilities.toList.map (fun (id, version) => ⟨id, version⟩) ++
    (host.runtimes.keys.filter fun provider => host.state provider = some .active).flatMap
      fun provider => host.registry[provider]?.elim [] (·.manifest.capabilities.provided)

end

variable [Platform]

def matchingOffer (offers : List ProvidedCapability) (request : CapabilityRequest) :
    Option ProvidedCapability :=
  offers.find? fun offer => offer.id = request.id &&
    Platform.versionMatches request.version offer.version

def resolveCapabilities (host : ExtensionHost G) (manifest : ExtensionManifest) :
    Except HostError CapabilitySnapshot :=
  let offered := fun request => (matchingOffer host.capabilityOffers request).isSome
  let grant := fun (request : CapabilityRequest) =>
    (⟨manifest.id, request.id, request.scope⟩ : CapabilityGrant)
  match manifest.capabilities.required.find? (!offered ·) with
  | some request => .error (.requiredCapabilityUnavailable manifest.id request.id)
  | none => .ok
    { granted := manifest.capabilities.required.map grant ++
        (manifest.capabilities.optional.filter offered).map grant
      missingOptional := (manifest.capabilities.optional.filter (!offered ·)).map (·.id) }

/-- How a part of the host suspends an extension that is active, for a reason. -/
abbrev Suspension (G : Type) := ExtensionHost G → ExtensionId → String → ExtensionHost G

section

variable (suspend : Suspension G) (host : ExtensionHost G)

/-- `record_violation`, where `suspend` suspends. -/
def recordViolationBy (extension : ExtensionId) (message : String) : ExtensionHost G :=
  match host.runtimes[extension]? with
  | none => host
  | some runtime =>
    let violations := min (runtime.violations + 1) 65535
    let host := host.setRuntime extension { runtime with violations }
    if host.config.violationsBeforeSuspension ≤ violations ∧
        host.state extension = some .active then
      suspend host extension ("repeated host budget violations: " ++ message)
    else host

/-- `enqueue_event_internal`, where `suspend` suspends. -/
def enqueueEventInternalBy (target : ExtensionId) (source : EventSource) (event : ExtensionEvent)
    (cause : CauseContext) (rootCause : CauseId) : Except HostError Unit × ExtensionHost G :=
  if ¬host.registry.contains target then (.error (.notInstalled target), host)
  else if host.config.maximumDispatchDepth < cause.depth then
    (.error (.eventRejected "maximum dispatch depth exceeded"),
      recordViolationBy suspend host target "event exceeded maximum dispatch depth")
  else if host.config.maximumQueuedEvents ≤ host.queue.length then
    (.error (.eventRejected "event queue is full"),
      recordViolationBy suspend host target "event queue capacity exceeded")
  else (.ok (), { host with
    nextEventSequence := saturatingAdd host.nextEventSequence 1
    queue := host.queue ++ [{
      target
      envelope := { cause, source, sequence := host.nextEventSequence, event }
      rootCause
      eligibleTick := saturatingAdd host.tick 1 }] })

/-- `enqueue_host_event`, where `suspend` suspends. -/
def enqueueHostEventBy (target : ExtensionId)
    (event : ExtensionEvent) : Except HostError CauseContext × ExtensionHost G :=
  let (cause, host) := host.rootCause
  match enqueueEventInternalBy suspend host target .host event cause cause.id with
  | (.ok (), host) => (.ok cause, host)
  | (.error error, host) => (.error error, host)

/-- `broadcast_capability_changes`, where `suspend` suspends. -/
def broadcastCapabilityChangesBy :
    ExtensionHost G :=
  let updates := (host.runtimes.toList.filter fun (id, _) => host.state id = some .active).map
    fun (id, runtime) => (id, runtime.capabilities)
  updates.foldl (fun host (id, snapshot) =>
    (enqueueHostEventBy suspend host id (.capabilitiesChanged snapshot)).2) host

def resolveActive : List (ExtensionId × Except HostError CapabilitySnapshot) :=
  (host.registry.toList.filter fun (_, record) => record.state = .active).map
    fun (id, record) => (id, host.resolveCapabilities record.manifest)

def setCapabilities (id : ExtensionId) (snapshot : CapabilitySnapshot) :
    ExtensionHost G :=
  match host.runtimes[id]? with
  | none => host
  | some runtime => host.setRuntime id { runtime with capabilities := snapshot }

/-- `reconcile_active_capabilities`, where `suspend` suspends. -/
def reconcileActiveCapabilitiesBy :
    ExtensionHost G :=
  let resolved := host.resolveActive
  let updates := resolved.filterMap fun (id, result) => result.toOption.map (id, ·)
  let suspended := resolved.filterMap fun (id, result) =>
    match result with
    | .ok _ => none
    | .error _ => some id
  suspended.foldl (fun host id =>
      suspend host id "required capability provider became unavailable")
    (updates.foldl (fun host (id, snapshot) => host.setCapabilities id snapshot) host)

end

variable [NativeExtension G]

section

variable (host : ExtensionHost G)

section

variable (extension : ExtensionId)

def dropWork : ExtensionHost G :=
  { host with
    queue := host.queue.filter (·.target ≠ extension)
    pendingEffects := Table.retain (·.1 ≠ extension) host.pendingEffects }

/-- The call of the instance's `suspend`. -/
def suspendGuest (reason : String) :
    ExtensionHost G :=
  match host.runtimes[extension]? with
  | none => host
  | some runtime => host.setRuntime extension { runtime with
      guest := runtime.guest.map (NativeExtension.suspend · reason) }

/-- `suspend`, where `suspend` suspends the extensions that lose a capability or a place in the
queue. -/
def suspendBy (suspend : Suspension G) (host : ExtensionHost G) (extension : ExtensionId)
    (reason : String) : Except HostError (ExtensionHost G) :=
  match host.state extension with
  | none => .error (.notInstalled extension)
  | some .active => do
    let host ← (host.suspendGuest extension reason).transition extension .suspended
    let host := host.dropWork extension
    let host := reconcileActiveCapabilitiesBy suspend host
    .ok (broadcastCapabilityChangesBy suspend host)
  | some state => .error (.invalidState extension state)

/-- A suspension whose error is ignored, with fuel for the suspensions that it brings about.  Each
of them leaves one active extension fewer. -/
def suspendFuel : Nat → Suspension G
  | 0, host, _, _ => host
  | fuel + 1, host, extension, reason =>
    match suspendBy (suspendFuel fuel) host extension reason with
    | .ok host => host
    | .error _ => host

def activeCount : Nat :=
  host.registry.toList.countP fun (_, record) => record.state = .active

/-- A suspension whose error is ignored. -/
def suspendOrIgnore (reason : String) :
    ExtensionHost G :=
  suspendFuel host.activeCount host extension reason

def suspend (reason : String) : Except HostError (ExtensionHost G) :=
  suspendBy suspendOrIgnore host extension reason

def recordViolation (message : String) :
    ExtensionHost G :=
  recordViolationBy suspendOrIgnore host extension message

end

def enqueueEventInternal (target : ExtensionId) (source : EventSource) (event : ExtensionEvent)
    (cause : CauseContext) (rootCause : CauseId) :
    Except HostError Unit × ExtensionHost G :=
  enqueueEventInternalBy suspendOrIgnore host target source event cause rootCause

def enqueueHostEvent (target : ExtensionId) (event : ExtensionEvent) :
    Except HostError CauseContext × ExtensionHost G :=
  enqueueHostEventBy suspendOrIgnore host target event

def broadcastCapabilityChanges : ExtensionHost G :=
  broadcastCapabilityChangesBy suspendOrIgnore host

def reconcileActiveCapabilities : ExtensionHost G :=
  reconcileActiveCapabilitiesBy suspendOrIgnore host

def enqueueExtensionEvent (source target : ExtensionId) (parent : CauseContext)
    (event : ExtensionEvent) :
    Except HostError CauseContext × ExtensionHost G :=
  if host.state source ≠ some .active then
    (.error (.eventRejected ("event source " ++ source ++ " is not active")), host)
  else match host.childCause parent with
    | none => (.error (.eventRejected "maximum dispatch depth exceeded"),
        host.recordViolation target "extension event exceeded maximum dispatch depth")
    | some (cause, host) =>
      match host.enqueueEventInternal target (.extension source) event cause parent.id with
      | (.ok (), host) => (.ok cause, host)
      | (.error error, host) => (.error error, host)

end

end ExtensionHost

end KeyReader.Extension
