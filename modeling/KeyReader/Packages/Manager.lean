import KeyReader.Moves
import KeyReader.Packages.Format

/-! The manager of the local packages: installation, permissions, and upgrades that are undone when
the activation of the new package fails. -/

namespace KeyReader.Extension

variable {G : Type} [NativeExtension G]

def ExtensionHost.pendingExtensionWork (host : ExtensionHost G) (extension : ExtensionId) : Nat :=
  (host.runtimes[extension]?.bind (·.guest)).elim 0 NativeExtension.pendingDeferredWork

end KeyReader.Extension

namespace KeyReader.Packages

open Attempt hiding ofExcept
open Extension Package Std

/-- A candidate that waits for the decision of the user. -/
structure PendingUpgrade (G : Type) where
  candidate : ManagedPackage G
  resetAuthority : Bool
  permissionsToApprove : List PermissionRequest

structure PermissionSnapshot where
  decisions : List (Permission × PermissionDecision)

/-- What an upgrade keeps of the old package until the activation of the new one is settled. -/
structure ActivatingUpgrade (G : Type) where
  old : ManagedPackage G
  oldLifecycle : LifecycleState
  permissionSnapshot : PermissionSnapshot

structure ActivationAttempt where
  report : PackageInstallReport
  runtimeFailed : Bool

structure InstallableExtensionManager (G : Type) where
  loader : PackageLoader
  verifier : SignatureVerifier
  wasm : WasmRuntime G
  packages : ExtTreeMap ExtensionId (ManagedPackage G)
  pendingUpgrades : ExtTreeMap ExtensionId (PendingUpgrade G)
  activatingUpgrades : ExtTreeMap ExtensionId (ActivatingUpgrade G)

/-- The manager and the host that its operations take. -/
structure PackageSystem (G : Type) where
  manager : InstallableExtensionManager G
  host : ExtensionHost G

/-- What is at a path. -/
structure PackageSource where
  path : String
  node : Node

abbrev Manages (G α : Type) := Attempt (PackageSystem G) ExtensionPackageError α

variable {G ν : Type}

def changeManager
    (change : InstallableExtensionManager G → InstallableExtensionManager G) : Manages G Unit :=
  changing fun system => { system with manager := change system.manager }

def changeHost (change : ExtensionHost G → ExtensionHost G) : Manages G Unit :=
  changing fun system => { system with host := change system.host }

/-- An operation of the host that changes nothing when it fails. -/
def onHost (operation : ExtensionHost G → Except HostError (ExtensionHost G)) : Manages G Unit :=
  ofOutcome fun system =>
    match operation system.host with
    | .ok host => (.ok (), { system with host })
    | .error error => (.error (.host error), system)

section

variable (extension : ExtensionId)

/-- `packages.get(extension).expect(message)`. -/
def expectManaged (message : String) : Manages G (ManagedPackage G) := do
  let packages ← reading (·.manager.packages)
  okOr packages[extension]? (.package (.panic message))

def requireManaged : Manages G Unit := do
  let packages ← reading (·.manager.packages)
  ensure (packages.contains extension = true) (.notManaged extension)

def dropPendingUpgrade : Manages G Unit :=
  changeManager fun manager => { manager with
    pendingUpgrades := manager.pendingUpgrades.erase extension }

def dropActivatingUpgrade : Manages G Unit :=
  changeManager fun manager => { manager with
    activatingUpgrades := manager.activatingUpgrades.erase extension }

def putPackage (managed : ManagedPackage G) : Manages G Unit :=
  changeManager fun manager => { manager with
    packages := manager.packages.insert extension managed }

def putPendingUpgrade (pending : PendingUpgrade G) : Manages G Unit :=
  changeManager fun manager => { manager with
    pendingUpgrades := manager.pendingUpgrades.insert extension pending }

def putActivatingUpgrade (activating : ActivatingUpgrade G) : Manages G Unit :=
  changeManager fun manager => { manager with
    activatingUpgrades := manager.activatingUpgrades.insert extension activating }

def registerManagedAdapter (managed : ManagedPackage G) : Manages G Unit :=
  changeHost fun host =>
    match managed.adapter with
    | some adapter => host.registerWasmAdapter adapter.extension adapter.create
    | none => host

def setPermissionDecisions (decisions : List (Permission × PermissionDecision)) : Manages G Unit :=
  changeHost fun host => decisions.foldl (fun host (permission, decision) =>
    host.setPermissionDecision extension permission decision) host

end

/-- The requests that a package cannot run without. -/
def requiredPermissions (manifest : ExtensionManifest) : List PermissionRequest :=
  manifest.permissions.filter (·.required)

/-- The permissions that two manifests request, each once. -/
def requestedPermissions (old new : ExtensionManifest) : List Permission :=
  (old.permissions ++ new.permissions).foldl (fun permissions request =>
    if permissions.contains request.permission then permissions
    else permissions ++ [request.permission]) []

def snapshotOf (decisions : Permission → PermissionDecision) (old new : ExtensionManifest) :
    PermissionSnapshot where
  decisions := (requestedPermissions old new).map fun permission =>
    (permission, decisions permission)

def capturePermissionSnapshot (host : ExtensionHost G) (extension : ExtensionId)
    (old new : ExtensionManifest) : PermissionSnapshot :=
  snapshotOf (host.permissionDecision extension) old new

def restorePermissionSnapshot (extension : ExtensionId) (snapshot : PermissionSnapshot) :
    Manages G Unit := do
  changeHost (·.clearPermissionDecisions extension)
  setPermissionDecisions extension snapshot.decisions

def rejectExternalNative (package : LoadedPackage) : Except ExtensionPackageError Unit :=
  match package.manifest.entrypoint with
  | .nativeBuiltin _ _ => .error (.externalNativeEntrypoint package.manifest.id)
  | _ => .ok ()

def checkLicensePolicy (manifest : ExtensionManifest) : Manages G Unit := do
  let host ← reading (·.host)
  ensure (manifest.license ∈ host.config.allowedLicenseExpressions)
    (.host (.licenseDenied manifest.id manifest.license))

def PackageSystem.activeLocalPackageCount (system : PackageSystem G) : Nat :=
  (system.manager.packages.keys.filter fun extension =>
    system.host.state extension = some .active).length

namespace InstallableExtensionManager

section

variable (manager : InstallableExtensionManager G)

/-- The bytes that the budget counts beside those of a candidate. -/
def budgetedBytes (candidate : ExtensionId) : Nat × Nat :=
  ((manager.packages.values.map (componentBytes ·.package)).sum,
    ((manager.pendingUpgrades.toList.filter (·.1 ≠ candidate)).map
      (componentBytes ·.2.candidate.package)).sum)

def checkComponentByteBudget (candidate : LoadedPackage) : Except ExtensionPackageError Unit :=
  let (managed, pending) := manager.budgetedBytes candidate.manifest.id
  Checked.ensure (componentBudgetAllows managed pending (componentBytes candidate) = true)
    (.compiledComponentBytesLimit maxCompiledComponentBytes)

def compileComponentAdapter (package : LoadedPackage) :
    Except ExtensionPackageError (Option (WasmExtensionAdapter G)) :=
  match package.manifest.entrypoint with
  | .wasmComponent component world _ => do
    let blob ← Checked.okOr package.component
      (.package (.panic "validated Wasm package retains its declared component"))
    let adapter ← (compileHostAdapter manager.wasm
      { extension := package.manifest.id, component, world
        subscriptions := subscriptionsForManifest package.manifest.toExtensionManifest }
      blob.bytes).mapError .wasm
    .ok (some adapter)
  | _ => .ok none

end

variable [Platform] (surroundings : Surroundings ν)

def load (manager : InstallableExtensionManager G) (source : PackageSource) :
    Except ExtensionPackageError LoadedPackage :=
  let loaded := match source.node with
    | .directory _ | .unlisted _ => manager.loader.loadDevelopmentDirectory
        surroundings.libraries manager.verifier source.path source.node
    | _ => manager.loader.loadKeyext surroundings.libraries manager.verifier source.path source.node
  loaded.mapError .package

def loadManaged (manager : InstallableExtensionManager G) (source : PackageSource) :
    Except ExtensionPackageError (ManagedPackage G) := do
  let package ← manager.load surroundings source
  rejectExternalNative package
  let uiKind ← validateDeclarativeUi surroundings package
  let _ ← referencedAssetBlobs surroundings package
  Checked.ensure (manager.packages.contains package.manifest.id = true ∨
      manager.packages.size < maxInstalledLocalPackages)
    (.installedPackageLimit maxInstalledLocalPackages)
  manager.checkComponentByteBudget package
  let adapter ← manager.compileComponentAdapter package
  .ok { package, uiKind, adapter }

end InstallableExtensionManager

variable [Platform] [NativeExtension G]

def unload (extension : ExtensionId) : Manages G Unit := onHost (·.unload extension)

def activate (extension : ExtensionId) : Manages G (Except HostError ActivationReport) :=
  ofOutcome fun system =>
    let (outcome, host) := system.host.activate extension
    (.ok outcome, { system with host })

def replace (managed : ManagedPackage G) : Manages G Unit :=
  onHost (·.replace managed.manifest.toExtensionManifest (packageMetadata managed.package))

/-- How an activation ended, and whether the runtime failed. -/
def activation (extension : ExtensionId) : Manages G (PackageActivation × Bool) := do
  let system ← reading id
  if system.host.state extension = some .active then pure (.active, false)
  else if maxActiveLocalPackages ≤ system.activeLocalPackageCount then
    unload extension
    pure (.inactive ("active local extension limit of " ++ toString maxActiveLocalPackages ++
      " reached"), false)
  else
    match ← activate extension with
    | .ok _ => pure (.active, false)
    | .error (.permissionsRequired _ permissions) =>
      unload extension
      pure (.awaitingPermissions permissions, false)
    | .error error =>
      let host ← reading (·.host)
      unload extension
      pure (.inactive (safeActivationReason error), host.state extension = some .failed)

section

variable (extension : ExtensionId)

def activationReport : Manages G ActivationAttempt := do
  let managed ← expectManaged extension "activation is only attempted for a managed package"
  let (activation, runtimeFailed) ← activation extension
  pure { report := packageReport managed activation, runtimeFailed }

def restoreLifecycle (lifecycle : LifecycleState) : Manages G Unit :=
  match lifecycle with
  | .active => do
    match ← activate extension with
    | .ok _ => pure ()
    | .error error => throw (.host error)
  | .suspended => throw (.upgradeWhileSuspended extension)
  | .disabled => unload extension
  | .validated => pure ()
  | .failed => do
    match ← activate extension with
    | .ok _ => unload extension
    | .error error =>
      let host ← reading (·.host)
      if host.state extension = some .failed then pure () else throw (.host error)
  | .installed | .unloading | .removed => unload extension

section

variable (old : ManagedPackage G) (oldLifecycle : LifecycleState)

def rollbackUpgrade (snapshot : PermissionSnapshot) : Manages G Unit := do
  unload extension
  changeHost (·.removeWasmAdapter extension)
  replace old
  registerManagedAdapter old
  putPackage extension old
  restorePermissionSnapshot extension snapshot
  restoreLifecycle extension oldLifecycle

/-- An upgrade is undone, and its failure is the answer. -/
def failUpgrade (snapshot : PermissionSnapshot)
    (reason : String) : Manages G PackageInstallReport := do
  match ← caught (rollbackUpgrade extension old oldLifecycle snapshot) with
  | .error error => throw (.upgradeRollbackFailed extension (safePackageErrorReason error))
  | .ok () => throw (.upgradeActivationFailed extension reason)

def restoreUnreplacedPackage : Manages G Unit := do
  registerManagedAdapter old
  restoreLifecycle extension oldLifecycle

def activateReplacement : Manages G ActivationAttempt :=
  match oldLifecycle with
  | .active => activationReport extension
  | .suspended => throw (.upgradeWhileSuspended extension)
  | _ => do
    unload extension
    let managed ← expectManaged extension "replacement package is managed"
    pure { report := packageReport managed (.inactive "extension remains disabled")
           runtimeFailed := false }

/-- Whether a settled upgrade has brought back the lifecycle state of the old package. -/
def lifecycleRestored (state : Option LifecycleState) : Bool :=
  match oldLifecycle with
  | .active => state = some .active
  | .disabled => state = some .disabled
  | .suspended => false
  | _ => true

def failureReason : PackageActivation → String
  | .inactive reason => reason
  | .awaitingPermissions _ => "additional permissions are required"
  | .activating => "extension runtime did not settle activation"
  | .active => "extension runtime failed during activation"

/-- The end of an upgrade whose package has been replaced. -/
def finishUpgrade (snapshot : PermissionSnapshot) : Manages G PackageInstallReport := do
  match ← caught (activateReplacement extension oldLifecycle) with
  | .error error => failUpgrade extension old oldLifecycle snapshot (safePackageErrorReason error)
  | .ok attempt =>
    let host ← reading (·.host)
    if oldLifecycle = .active ∧ 0 < host.pendingExtensionWork extension then
      putActivatingUpgrade extension { old, oldLifecycle, permissionSnapshot := snapshot }
      pure { attempt.report with activation := .activating }
    else if attempt.runtimeFailed = true ∨
        lifecycleRestored oldLifecycle (host.state extension) = false then
      failUpgrade extension old oldLifecycle snapshot (failureReason attempt.report.activation)
    else pure attempt.report

/-- The refusal of a package by the host is undone. -/
def undoReplacement (snapshot : PermissionSnapshot)
    (error : ExtensionPackageError) : Manages G PackageInstallReport := do
  restorePermissionSnapshot extension snapshot
  match ← caught (restoreUnreplacedPackage extension old oldLifecycle) with
  | .error error => throw (.upgradeRollbackFailed extension (safePackageErrorReason error))
  | .ok () => throw error

end

def commitUpgrade (pending : PendingUpgrade G) : Manages G PackageInstallReport := do
  let managed := pending.candidate
  let extension := managed.id
  let system ← reading id
  let old ← okOr system.manager.packages[extension]? (.notManaged extension)
  let oldLifecycle ← okOr (system.host.state extension) (.notManaged extension)
  ensure (oldLifecycle ≠ .suspended) (.upgradeWhileSuspended extension)
  let snapshot := capturePermissionSnapshot system.host extension old.manifest.toExtensionManifest
    managed.manifest.toExtensionManifest
  unload extension
  changeHost (·.removeWasmAdapter extension)
  changeHost fun host =>
    if pending.resetAuthority = true then host.clearPermissionDecisions extension else host
  setPermissionDecisions extension
    (pending.permissionsToApprove.map fun request => (request.permission, .granted))
  match ← caught (replace managed) with
  | .error error => undoReplacement extension old oldLifecycle snapshot error
  | .ok () =>
    registerManagedAdapter managed
    putPackage extension managed
    dropPendingUpgrade extension
    finishUpgrade extension old oldLifecycle snapshot

def pendingUpgrade (decisions : Permission → PermissionDecision) (old managed : ManagedPackage G) :
    PendingUpgrade G :=
  let inheritsAuthority := verifiedSignerContinuity old.package managed.package
  { candidate := managed
    resetAuthority := !inheritsAuthority
    permissionsToApprove :=
      (requiredPermissions managed.manifest.toExtensionManifest).filter fun request =>
        !inheritsAuthority || decide (decisions request.permission ≠ .granted) }

def upgradeLoaded (managed : ManagedPackage G) : Manages G PackageInstallReport := do
  let extension := managed.id
  Attempt.ofExcept (rejectExternalNative managed.package)
  checkLicensePolicy managed.manifest.toExtensionManifest
  let system ← reading id
  let old ← okOr system.manager.packages[extension]? (.notManaged extension)
  ensure (system.host.state extension ≠ some .suspended) (.upgradeWhileSuspended extension)
  ensure (old.manifest.publisher.id = managed.manifest.publisher.id) (.publisherMismatch extension)
  dropPendingUpgrade extension
  let pending := pendingUpgrade (system.host.permissionDecision extension) old managed
  if pending.permissionsToApprove ≠ [] then
    putPendingUpgrade extension pending
    pure (packageReport managed (.awaitingPermissions pending.permissionsToApprove))
  else commitUpgrade pending

/-- The end of one upgrade whose activation is over. -/
def settleUpgrade : Manages G PackageInstallReport := do
  let activating ← reading (·.manager.activatingUpgrades)
  let activating ← okOr activating[extension]? (.package (.panic "ready upgrade remains tracked"))
  dropActivatingUpgrade extension
  let host ← reading (·.host)
  if host.state extension = some .active then
    let managed ← expectManaged extension "activating package remains managed"
    pure (packageReport managed .active)
  else
    failUpgrade extension activating.old activating.oldLifecycle activating.permissionSnapshot
      "extension runtime failed during activation"

end

/-- The upgrades whose activation is over. -/
def PackageSystem.readyUpgrades (system : PackageSystem G) : List ExtensionId :=
  system.manager.activatingUpgrades.keys.filter fun extension =>
    system.host.pendingExtensionWork extension = 0

def settleActivatingUpgrades :
    Manages G (List (ExtensionId × Except ExtensionPackageError PackageInstallReport)) := do
  let system ← reading id
  system.readyUpgrades.mapM fun extension => do
    let result ← caught (settleUpgrade extension)
    pure (extension, result)

def installLoadedInactive (managed : ManagedPackage G) : Manages G Unit := do
  Attempt.ofExcept (rejectExternalNative managed.package)
  checkLicensePolicy managed.manifest.toExtensionManifest
  let packages ← reading (·.manager.packages)
  ensure (packages.size < maxInstalledLocalPackages)
    (.installedPackageLimit maxInstalledLocalPackages)
  onHost (·.install managed.manifest.toExtensionManifest (packageMetadata managed.package))
  registerManagedAdapter managed
  putPackage managed.id managed

def installLoaded (managed : ManagedPackage G) : Manages G PackageInstallReport := do
  installLoadedInactive managed
  let attempt ← activationReport managed.id
  pure attempt.report

section
variable (surroundings : Surroundings ν)

def checkPredecessor (system : PackageSystem G) (manifest : PackageManifest) :
    Except ExtensionPackageError Unit :=
  match system.manager.packages[manifest.id]? with
  | some current => do
    Checked.ensure (system.host.state manifest.id ≠ some .suspended)
      (.upgradeWhileSuspended manifest.id)
    Checked.ensure (current.manifest.publisher.id = manifest.publisher.id)
      (.publisherMismatch manifest.id)
  | none =>
    Checked.ensure (system.host.state manifest.id = none) (.host (.eventRejected ("extension " ++
      manifest.id ++ " is already owned by the host and cannot be replaced by a local package")))

def previewManaged (managed : ManagedPackage G) : Manages G PackageInstallPreview := do
  Attempt.ofExcept (rejectExternalNative managed.package)
  checkLicensePolicy managed.manifest.toExtensionManifest
  let system ← reading id
  let manifest := managed.manifest
  Attempt.ofExcept (checkPredecessor system manifest)
  let referencedAssets ← Attempt.ofExcept (referencedAssetBlobs surroundings managed.package)
  pure { extension := manifest.id, name := manifest.name, description := manifest.description
         version := manifest.version, license := manifest.license, source := managed.package.source
         publisherVerified := managed.package.signature.isSome
         requiredPermissions := requiredPermissions manifest.toExtensionManifest
         isUpgrade := system.manager.packages.contains manifest.id, uiKind := managed.uiKind
         contentSha256 := managed.package.contentSha256, referencedAssets }

def loadManaged (source : PackageSource) : Manages G (ManagedPackage G) := do
  let manager ← reading (·.manager)
  Attempt.ofExcept (manager.loadManaged surroundings source)

def installReviewed (source : PackageSource) (reviewed : PackageInstallPreview) :
    Manages G PackageInstallReport := do
  let managed ← loadManaged surroundings source
  let current ← previewManaged surroundings managed
  ensure (current = reviewed) (.packageChangedAfterReview current.extension)
  if current.isUpgrade = true then upgradeLoaded managed else installLoaded managed

/-- What the application has stored of a package. -/
structure RegisteredPackageRestore where
  source : PackageSource
  expectedExtension : ExtensionId
  expectedContentSha256 : String
  permissionDecisions : List (Permission × PermissionDecision)
  settings : Option DataValue
  enabled : Bool

def restoreStoredSettings (extension : ExtensionId) (settings : Option DataValue) :
    Manages G Unit :=
  match settings with
  | some settings => onHost (·.restoreExtensionSettings extension settings)
  | none => pure ()

def restoreRegistered (stored : RegisteredPackageRestore) : Manages G PackageInstallReport := do
  let extension := stored.expectedExtension
  let managed ← loadManaged surroundings stored.source
  ensure (managed.manifest.id = extension) (.storedIdentityMismatch extension managed.manifest.id)
  ensure (managed.package.contentSha256.toHex = stored.expectedContentSha256)
    (.storedContentHashMismatch extension)
  Attempt.ofExcept (stored.permissionDecisions.forM fun (permission, _) =>
    Checked.ensure (managed.manifest.permissions.any (·.permission = permission) = true)
      (.storedPermissionMismatch extension permission))
  installLoadedInactive managed
  setPermissionDecisions extension stored.permissionDecisions
  restoreStoredSettings extension stored.settings
  if stored.enabled = true then
    let attempt ← activationReport extension
    pure attempt.report
  else
    unload extension
    let managed ← expectManaged extension "restored package is managed"
    pure (packageReport managed (.inactive "extension remains disabled"))

end

section

variable (extension : ExtensionId)

def grantPermissionsAndActivate : Manages G PackageInstallReport := do
  requireManaged extension
  let manager ← reading (·.manager)
  match manager.pendingUpgrades[extension]? with
  | some pending =>
    dropPendingUpgrade extension
    match ← caught (commitUpgrade pending) with
    | .ok report => pure report
    | .error error =>
      putPendingUpgrade extension pending
      throw error
  | none =>
    let managed ← expectManaged extension "managed package exists"
    setPermissionDecisions extension ((requiredPermissions managed.manifest.toExtensionManifest).map
        fun request => (request.permission, .granted))
    let attempt ← activationReport extension
    pure attempt.report

def denyPermissions : Manages G Unit := do
  requireManaged extension
  let manager ← reading (·.manager)
  dropPendingUpgrade extension
  if manager.pendingUpgrades.contains extension = true then pure ()
  else
    let managed ← expectManaged extension "managed package exists"
    setPermissionDecisions extension ((requiredPermissions managed.manifest.toExtensionManifest).map
        fun request => (request.permission, .denied))
    unload extension

def disable : Manages G Unit := do
  requireManaged extension
  dropPendingUpgrade extension
  dropActivatingUpgrade extension
  unload extension

def enable : Manages G PackageInstallReport := do
  requireManaged extension
  let managed ← expectManaged extension "managed package exists"
  let host ← reading (·.host)
  let permissions := (requiredPermissions managed.manifest.toExtensionManifest).filter
    fun request => host.permissionDecision extension request.permission ≠ .granted
  if permissions ≠ [] then pure (packageReport managed (.awaitingPermissions permissions))
  else
    let attempt ← activationReport extension
    pure attempt.report

end

def remove (extension : ExtensionId) : Manages G Unit := do
  requireManaged extension
  dropPendingUpgrade extension
  dropActivatingUpgrade extension
  onHost (·.remove extension)
  changeHost (·.removeWasmAdapter extension)
  changeManager fun manager => { manager with packages := manager.packages.erase extension }

def setPermissionDecision (extension : ExtensionId) (permission : Permission)
    (decision : PermissionDecision) : Manages G Unit := do
  let packages ← reading (·.manager.packages)
  let managed ← okOr packages[extension]? (.notManaged extension)
  let request ← okOr (managed.manifest.permissions.find? (·.permission = permission))
    (.storedPermissionMismatch extension permission)
  changeHost (·.setPermissionDecision extension permission decision)
  let host ← reading (·.host)
  if request.required = true ∧ decision ≠ .granted ∧
      (host.state extension = some .active ∨ host.state extension = some .suspended) then
    dropActivatingUpgrade extension
    unload extension
  else pure ()

end KeyReader.Packages
