import KeyReader.Extension.Dispatch
import KeyReader.Transition

/-! The public operations of the extension host, and its runs. -/

namespace KeyReader.Extension

open Checked

structure ActivationReport where
  extension : ExtensionId
  generation : GenerationId
  capabilities : CapabilitySnapshot
  effects : List AcceptedEffect

namespace ExtensionHost

variable {G : Type}

section

variable (host : ExtensionHost G) (extension : ExtensionId)

def extensionSettings : Option DataValue :=
  (host.runtimes[extension]?.bind fun runtime => Assoc.get "settings" runtime.state) <|>
    host.persistedSettings.lookup extension

def restoreExtensionSettings (settings : DataValue) : Except HostError (ExtensionHost G) := do
  let record ← okOr host.registry[extension]? (.notInstalled extension)
  let settings ← (normalizePersistedSettings record.manifest settings
    host.config.validationLimits).mapError .eventRejected
  let host := { host with
    persistedSettings := host.persistedSettings.insert extension settings }
  match host.runtimes[extension]? with
  | none => .ok host
  | some runtime => .ok (host.setRuntime extension { runtime with
      state := Assoc.insert "settings" settings runtime.state })

def extensionSettingsWithUpdate (key : String)
    (value : DataValue) : Except HostError DataValue := do
  let record ← okOr host.registry[extension]? (.notInstalled extension)
  let definition ← okOr (record.manifest.settings.find? (·.key = key))
    (.eventRejected ("unknown setting '" ++ key ++ "'"))
  ensure (¬definition.sensitive)
    (.eventRejected ("sensitive setting '" ++ key ++ "' requires a host secret provider"))
  ensure (definition.valueType.accepts value) (.eventRejected
    ("setting '" ++ key ++ "' has the wrong type or is outside its declared range"))
  let settings ← match host.extensionSettings extension with
    | some (.record settings) => .ok settings
    | some _ => .error (.eventRejected "persisted extension settings are not a record")
    | none => .ok []
  let path := segmentsOf key
  if (getDataPath settings path).any (·.eq value) then .ok (.record settings)
  else do
    let settings ← (setDataPath settings path value).mapError .eventRejected
    .ok (.record settings)

def registerNativeAdapter (id : NativeAdapterId) (create : GenerationId → G) : ExtensionHost G :=
  { host with adapters := host.adapters.insert id create }

def registerWasmAdapter
    (create : ExtensionEntrypoint → GenerationId → Except ExtensionError G) : ExtensionHost G :=
  { host with wasmAdapters := host.wasmAdapters.insert extension create }

def removeWasmAdapter : ExtensionHost G :=
  { host with wasmAdapters := host.wasmAdapters.erase extension }

end

/-- `check_dependency_cycle` with the extensions being visited and those that were.  The fuel bounds
the depth: each level visits another installed extension. -/
def checkDependencyCycle (host : ExtensionHost G) : Nat → List ExtensionId × List ExtensionId →
    ExtensionId → Except HostError (List ExtensionId × List ExtensionId)
  | 0, visits, _ => .ok visits
  | fuel + 1, (visiting, visited), extension =>
    if extension ∈ visited then .ok (visiting, visited)
    else if extension ∈ visiting then
      .error (.dependencyUnavailable extension extension "dependency cycle")
    else do
      let dependencies := host.registry[extension]?.elim [] fun record =>
        (record.manifest.dependencies.map (·.id)).filter (host.registry.contains ·)
      let (visiting, visited) ← dependencies.foldlM (host.checkDependencyCycle fuel)
        (extension :: visiting, visited)
      .ok (visiting.filter (· ≠ extension), extension :: visited)

variable [Platform]

section

variable (host : ExtensionHost G)

section

variable (manifest : ExtensionManifest)

def install (metadata : PackageMetadata) : Except HostError (ExtensionHost G) := do
  ensure (manifest.license ∈ host.config.allowedLicenseExpressions)
    (.licenseDenied manifest.id manifest.license)
  ensure (¬host.registry.contains manifest.id) (.registry (.alreadyInstalled manifest.id))
  let errors := manifest.validate host.config.validationLimits
  ensure (errors = []) (.registry (.invalidManifest manifest.id errors))
  .ok { host with
    registry := host.registry.insert manifest.id { manifest, metadata, state := .validated } }

def replace (metadata : PackageMetadata) : Except HostError (ExtensionHost G) := do
  ensure (¬(host.registry[manifest.id]?.any (·.state ∈ [.active, .suspended, .unloading])))
    (.registry (.packageBusy manifest.id))
  let errors := manifest.validate host.config.validationLimits
  ensure (errors = []) (.registry (.invalidManifest manifest.id errors))
  .ok { host with
    registry := host.registry.insert manifest.id { manifest, metadata, state := .validated } }

def checkDependency (dependency : ExtensionDependency) : Except HostError Unit :=
  match host.registry[dependency.id]? with
  | none => ensure dependency.optional
      (.dependencyUnavailable manifest.id dependency.id "not installed")
  | some record => do
    ensure (Platform.versionMatches dependency.version record.manifest.version)
      (.dependencyUnavailable manifest.id dependency.id ("installed version " ++
        record.manifest.version ++ " does not match " ++ dependency.version))
    ensure (dependency.optional ∨ record.state = .active) (.dependencyUnavailable manifest.id
      dependency.id "required dependency is not active")

def checkDependencies : Except HostError Unit := do
  let _ ← host.checkDependencyCycle (host.registry.size + 1) ([], []) manifest.id
  manifest.dependencies.forM (host.checkDependency manifest)

def checkActivationPermissions : Except HostError Unit := do
  let required := manifest.permissions.filter (·.required)
  match required.find? fun request =>
      host.permissionDecision manifest.id request.permission = .denied with
  | some request => .error (.permissionDenied manifest.id request.permission)
  | none =>
    let undecided := required.filter fun request =>
      host.permissionDecision manifest.id request.permission = .undecided
    ensure (undecided = []) (.permissionsRequired manifest.id undecided)

end

/-- The checks of `activate` and `resume` of a package that may run. -/
def checkStart (record : PackageRecord) : Except HostError CapabilitySnapshot := do
  ensure (¬(host.config.safeMode ∧ ¬record.metadata.origin.allowedInSafeMode))
    (.safeMode record.manifest.id)
  host.checkDependencies record.manifest
  let capabilities ← host.resolveCapabilities record.manifest
  host.checkActivationPermissions record.manifest
  .ok capabilities

end

variable [NativeExtension G]

section

variable (host : ExtensionHost G)

section

variable (extension : ExtensionId)

def failActivation : ExtensionHost G :=
  host.transitionOrIgnore extension .failed

def instantiate (entrypoint : ExtensionEntrypoint) (context : ActivationContext) :
    Except HostError (Option G × List EventSubscription × ExtensionUpdate) :=
  let start := fun (guest : G) =>
    match NativeExtension.activate guest context with
    | (.ok update, next) => .ok (some next, NativeExtension.subscriptions guest, update)
    | (.error error, _) => .error (.extensionFailed extension error)
  match entrypoint with
  | .declarative _ => .ok (none, [], .default)
  | .nativeBuiltin adapter _ =>
    match host.adapters.lookup adapter with
    | none => .error (.adapterUnavailable extension)
    | some create => start (create context.generation)
  | .wasmComponent _ _ _ =>
    match host.wasmAdapters.lookup extension with
    | none => .error (.unsupportedEntrypoint extension)
    | some create =>
      match create entrypoint context.generation with
      | .ok guest => start guest
      | .error error => .error (.extensionFailed extension error)

/-- The settings of the last run enter the first state, if they are still valid. -/
def restoreSettings (manifest : ExtensionManifest) : Fields × ExtensionHost G :=
  let state := initialExtensionState manifest
  match host.persistedSettings.lookup extension with
  | none => (state, host)
  | some settings =>
    match normalizePersistedSettings manifest settings host.config.validationLimits with
    | .ok settings => (Assoc.insert "settings" settings state,
        { host with persistedSettings := host.persistedSettings.insert extension settings })
    | .error _ =>
      (state, { host with persistedSettings := host.persistedSettings.erase extension })

/-- The end of `activate`: the runtime of a new instance, and its first update. -/
def startRuntime (record : PackageRecord) (context : ActivationContext) (guest : Option G)
    (subscriptions : List EventSubscription) (update : ExtensionUpdate) :
    Except HostError ActivationReport × ExtensionHost G :=
  let extension := context.extension
  match host.transition extension .active with
  | .error error => (.error error, host)
  | .ok host =>
    let (state, host) := host.restoreSettings extension record.manifest
    let host := host.setRuntime extension
      { generation := context.generation, capabilities := context.capabilities, subscriptions
        guest, state, violations := 0 }
    let (host, effects) := host.arbitrateUpdate extension context.generation context.cause update []
    (.ok { extension, generation := context.generation, capabilities := context.capabilities
           effects }, host.broadcastCapabilityChanges)

/-- The part of `activate` after the change to `Validated`. -/
def activateValidated (record : PackageRecord) :
    Except HostError ActivationReport × ExtensionHost G :=
  match host.checkStart record with
  | .error error => (.error error, host)
  | .ok capabilities =>
    let (generation, host) := host.freshGeneration
    let (cause, host) := host.rootCause
    let context : ActivationContext := { extension, generation, cause, capabilities }
    match host.instantiate extension record.manifest.entrypoint context with
    | .error error => (.error error, host.failActivation extension)
    | .ok (guest, subscriptions, update) =>
      host.startRuntime record context guest subscriptions update

def activate : Except HostError ActivationReport × ExtensionHost G :=
  match host.registry[extension]? with
  | none => (.error (.notInstalled extension), host)
  | some record =>
    if record.state = .disabled ∨ record.state = .failed then
      match host.transition extension .validated with
      | .error error => (.error error, host)
      | .ok host => host.activateValidated extension record
    else if record.state ≠ .validated then
      (.error (.invalidState extension record.state), host)
    else host.activateValidated extension record

/-- The call of the instance's `resume`. -/
def resumeGuest (runtime : ActiveRuntime G) (context : ActivationContext) :
    Except ExtensionError ExtensionUpdate × ActiveRuntime G :=
  match runtime.guest with
  | none => (.ok .default, runtime)
  | some guest =>
    let (outcome, guest) := NativeExtension.resume guest context
    (outcome, { runtime with guest := some guest })

/-- The part of `resume` after its checks. -/
def resumeChecked (capabilities : CapabilitySnapshot) :
    Except HostError (List AcceptedEffect) × ExtensionHost G :=
  let (cause, host) := host.rootCause
  match host.runtimes[extension]? with
  -- a suspended extension has a runtime
  | none => (.error (.notInstalled extension), host)
  | some runtime =>
    let (outcome, runtime) := resumeGuest { runtime with capabilities }
      { extension, generation := runtime.generation, cause, capabilities }
    let host := host.setRuntime extension runtime
    match outcome with
    | .error error => (.error (.extensionFailed extension error), host)
    | .ok update =>
      match host.transition extension .active with
      | .error error => (.error error, host)
      | .ok host =>
        let (host, effects) := host.arbitrateUpdate extension runtime.generation cause update []
        (.ok effects, host.broadcastCapabilityChanges)

def resume : Except HostError (List AcceptedEffect) × ExtensionHost G :=
  match host.registry[extension]? with
  | none => (.error (.notInstalled extension), host)
  | some record =>
    if record.state ≠ .suspended then (.error (.invalidState extension record.state), host)
    else match host.checkStart record with
      | .error error => (.error error, host)
      | .ok capabilities => host.resumeChecked extension capabilities

/-- The end of the runtime, whose settings are kept. -/
def closeRuntime : ExtensionHost G :=
  match host.runtimes[extension]?.bind fun runtime => Assoc.get "settings" runtime.state with
  | some settings => { host with
      runtimes := host.runtimes.erase extension
      persistedSettings := host.persistedSettings.insert extension settings }
  | none => host.removeRuntime extension

/-- The change to `Disabled` in `unload`. -/
def disable (state : LifecycleState) : Except HostError (ExtensionHost G) :=
  match state with
  | .active | .suspended => do
    let host ← host.transition extension .unloading
    (host.closeRuntime extension).transition extension .disabled
  | .installed | .validated | .failed | .unloading => host.transition extension .disabled
  | .removed => .error (.notInstalled extension)
  | .disabled => .ok host

def unload : Except HostError (ExtensionHost G) :=
  match host.state extension with
  | none => .error (.notInstalled extension)
  | some .disabled => .ok host
  | some state => do
    let host ← host.disable extension state
    .ok ((host.dropWork extension).reconcileActiveCapabilities.broadcastCapabilityChanges)

/-- A removal.  Its errors leave the host as it is: an unloaded package can be removed. -/
def remove : Except HostError (ExtensionHost G) := do
  let host ← host.unload extension
  let host ← host.transition extension .removed
  .ok { host with
    permissionDecisions := host.permissionDecisions.erase extension
    persistedSettings := host.persistedSettings.erase extension
    registry := host.registry.erase extension }

end

def setSafeMode (enabled : Bool) : ExtensionHost G :=
  let host := { host with config := { host.config with safeMode := enabled } }
  if ¬enabled then host
  else
    let toSuspend := (host.registry.toList.filter fun (_, record) =>
      record.state = .active && !record.metadata.origin.allowedInSafeMode).map (·.1)
    toSuspend.foldl (fun host extension => host.suspendOrIgnore extension "safe mode enabled") host

def registerHostCapability (id : CapabilityId) (version : ExtensionVersion) : ExtensionHost G :=
  { host with hostCapabilities := host.hostCapabilities.insert id version }
    |>.reconcileActiveCapabilities |>.broadcastCapabilityChanges

def removeHostCapability (id : CapabilityId) : ExtensionHost G :=
  { host with
    hostCapabilities := host.hostCapabilities.erase id
    capabilityPermissions := host.capabilityPermissions.erase id }
    |>.reconcileActiveCapabilities |>.broadcastCapabilityChanges

/-- A runtime at the barrier between two documents. -/
def invalidateRuntime (snapshots : List SnapshotKind) (runtime : ActiveRuntime G) :
    ActiveRuntime G :=
  { runtime with
    guest := runtime.guest.map NativeExtension.invalidateDocumentScope
    state := snapshots.foldl (fun state snapshot =>
      Assoc.remove (snapshotNamespace snapshot) state) runtime.state }

def invalidateDocumentScope (snapshots : List SnapshotKind) :
    ExtensionHost G :=
  { host with
    queue := []
    pendingEffects := ∅
    runtimes := host.runtimes.map fun _ runtime => invalidateRuntime snapshots runtime }

/-- An active extension is told about a change of a setting. -/
def announceSetting (extension : ExtensionId) (key : String) :
    Except HostError Unit × ExtensionHost G :=
  if host.state extension = some .active then
    match host.enqueueHostEvent extension (.lifecycle (.settingsChanged [key])) with
    | (.ok _, host) => (.ok (), host)
    | (.error error, host) => (.error error, host)
  else (.ok (), host)

def updateExtensionSetting (extension : ExtensionId) (key : String)
    (value : DataValue) : Except HostError Unit × ExtensionHost G :=
  match host.extensionSettingsWithUpdate extension key value with
  | .error error => (.error error, host)
  | .ok settings =>
    if (host.extensionSettings extension).any (·.eq settings) then (.ok (), host)
    else
      match host.announceSetting extension key with
      | (.error error, host) => (.error error, host)
      | (.ok (), host) =>
        match host.restoreExtensionSettings extension settings with
        | .error error => (.error error, host)
        | .ok host => (.ok (), host)

def invokeCommand (command : CommandId) (payload : DataValue) :
    Except HostError CauseContext × ExtensionHost G :=
  if ¬host.registry[command.owner]?.any fun record =>
      record.manifest.contributions.commands.any (·.id = command) then
    (.error (.eventRejected ("command " ++ command.owner ++ "/" ++ command.name ++
      " is not declared")), host)
  else if ¬valueIsBounded payload host.config.validationLimits then
    (.error (.eventRejected
      "command payload exceeds host limits or contains invalid state keys"), host)
  else host.enqueueHostEvent command.owner (.commandInvoked command payload)

end

end ExtensionHost

inductive Operation (G : Type)
  | install (manifest : ExtensionManifest) (metadata : PackageMetadata)
  | replace (manifest : ExtensionManifest) (metadata : PackageMetadata)
  | registerNativeAdapter (id : NativeAdapterId) (create : GenerationId → G)
  | registerWasmAdapter (extension : ExtensionId)
      (create : ExtensionEntrypoint → GenerationId → Except ExtensionError G)
  | removeWasmAdapter (extension : ExtensionId)
  | registerHostCapability (id : CapabilityId) (version : ExtensionVersion)
  | removeHostCapability (id : CapabilityId)
  | requireCapabilityPermission (id : CapabilityId) (permission : Permission)
  | requireSnapshotPermissions (snapshot : SnapshotKind) (permissions : List Permission)
  | setPermissionDecision (extension : ExtensionId) (permission : Permission)
      (decision : PermissionDecision)
  | clearPermissionDecisions (extension : ExtensionId)
  | invalidateDocumentScope (snapshots : List SnapshotKind)
  | restoreExtensionSettings (extension : ExtensionId) (settings : DataValue)
  | updateExtensionSetting (extension : ExtensionId) (key : String) (value : DataValue)
  | activate (extension : ExtensionId)
  | enqueueHostEvent (target : ExtensionId) (event : ExtensionEvent)
  | enqueueExtensionEvent (source target : ExtensionId) (parent : CauseContext)
      (event : ExtensionEvent)
  | invokeCommand (command : CommandId) (payload : DataValue)
  | processTick
  /-- The answer to the accepted effect with a number. -/
  | completeEffect (number : Nat) (result : EffectResult)
  | suspend (extension : ExtensionId) (reason : String)
  | resume (extension : ExtensionId)
  | unload (extension : ExtensionId)
  | remove (extension : ExtensionId)
  | setSafeMode (enabled : Bool)

/-- The host and the accepted effects that it has handed out, of which each can be answered. -/
structure Session (G : Type) where
  host : ExtensionHost G
  effects : List AcceptedEffect

namespace Session

variable {G : Type} [Platform] [NativeExtension G]

def new (config : HostConfig) : Session G := ⟨.new config, []⟩

/-- The session after an operation that may fail and then changes nothing. -/
def after (session : Session G) (result : Except HostError (ExtensionHost G)) : Session G :=
  match result with
  | .ok host => { session with host }
  | .error _ => session

def handOut (session : Session G) (host : ExtensionHost G) (effects : List AcceptedEffect) :
    Session G :=
  ⟨host, session.effects ++ effects⟩

def step (session : Session G) : Operation G → Option (Session G)
  | .install manifest metadata => some (session.after (session.host.install manifest metadata))
  | .replace manifest metadata => some (session.after (session.host.replace manifest metadata))
  | .registerNativeAdapter id create =>
    some { session with host := session.host.registerNativeAdapter id create }
  | .registerWasmAdapter extension create =>
    some { session with host := session.host.registerWasmAdapter extension create }
  | .removeWasmAdapter extension =>
    some { session with host := session.host.removeWasmAdapter extension }
  | .registerHostCapability id version =>
    some { session with host := session.host.registerHostCapability id version }
  | .removeHostCapability id =>
    some { session with host := session.host.removeHostCapability id }
  | .requireCapabilityPermission id permission =>
    some { session with host := session.host.requireCapabilityPermission id permission }
  | .requireSnapshotPermissions snapshot permissions =>
    some { session with host := session.host.requireSnapshotPermissions snapshot permissions }
  | .setPermissionDecision extension permission decision =>
    some { session with
      host := session.host.setPermissionDecision extension permission decision }
  | .clearPermissionDecisions extension =>
    some { session with host := session.host.clearPermissionDecisions extension }
  | .invalidateDocumentScope snapshots =>
    some { session with host := session.host.invalidateDocumentScope snapshots }
  | .restoreExtensionSettings extension settings =>
    some (session.after (session.host.restoreExtensionSettings extension settings))
  | .updateExtensionSetting extension key value =>
    some { session with host := (session.host.updateExtensionSetting extension key value).2 }
  | .activate extension =>
    match session.host.activate extension with
    | (.ok report, host) => some (session.handOut host report.effects)
    | (.error _, host) => some { session with host }
  | .enqueueHostEvent target event =>
    some { session with host := (session.host.enqueueHostEvent target event).2 }
  | .enqueueExtensionEvent source target parent event =>
    some { session with host := (session.host.enqueueExtensionEvent source target parent event).2 }
  | .invokeCommand command payload =>
    some { session with host := (session.host.invokeCommand command payload).2 }
  | .processTick =>
    let (host, report) := session.host.processTick
    some (session.handOut host report.effects)
  | .completeEffect number result =>
    session.effects[number]?.map fun effect =>
      { session with host := (session.host.completeEffect effect result).2 }
  | .suspend extension reason =>
    some (session.after (session.host.suspend extension reason))
  | .resume extension =>
    match session.host.resume extension with
    | (.ok effects, host) => some (session.handOut host effects)
    | (.error _, host) => some { session with host }
  | .unload extension => some (session.after (session.host.unload extension))
  | .remove extension => some (session.after (session.host.remove extension))
  | .setSafeMode enabled => some { session with host := session.host.setSafeMode enabled }

end Session

/-- Declarative extensions have no instance. -/
@[reducible] def noInstances : NativeExtension Empty where
  subscriptions := nofun
  activate := nofun
  handleEvent := nofun
  updateDelivery := nofun
  drainDeferredUpdates := nofun
  pendingDeferredWork := nofun
  invalidateDocumentScope := nofun
  suspend := nofun
  resume := nofun

/-- Requirements of exact versions, and manifests whose other sections are without findings. -/
@[reducible] def exactVersions : Platform where
  versionMatches requirement version := requirement = "=" ++ version
  earlierErrors _ := []
  laterErrors _ := []

def declarativeManifest (id : ExtensionId) (capabilities : CapabilityRequirements) :
    ExtensionManifest where
  id
  version := "1.0.0"
  license := "MIT"
  entrypoint := .declarative "main.ui"
  dependencies := []
  capabilities
  permissions := []
  contributions := ⟨[], [], [], []⟩
  settings := []

end KeyReader.Extension
