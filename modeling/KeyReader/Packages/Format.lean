import KeyReader.Attempt
import KeyReader.Extension.Operations
import KeyReader.Package.Loader

/-! The packages that the application manages: what their previews, reports and errors say, their
declarative UI, and their WebAssembly adapters. -/

namespace KeyReader.Packages

open Checked Extension Package Std

def maxInstalledLocalPackages : Nat := 32

def maxActiveLocalPackages : Nat := 8

def maxCompiledComponentBytes : Nat := 64 * 1024 * 1024

inductive PackageActivation
  | active
  | activating
  | awaitingPermissions (permissions : List PermissionRequest)
  | inactive (reason : String)
  deriving DecidableEq

structure PackageInstallReport where
  extension : ExtensionId
  name : String
  version : ExtensionVersion
  license : String
  publisherVerified : Bool
  activation : PackageActivation

/-- What the user is shown of a package before it is installed. -/
structure PackageInstallPreview where
  extension : ExtensionId
  name : String
  description : String
  version : ExtensionVersion
  license : String
  source : PackageSourceKind
  publisherVerified : Bool
  requiredPermissions : List PermissionRequest
  isUpgrade : Bool
  uiKind : Option String
  contentSha256 : Sha256Digest
  referencedAssets : List (PackagePath × Bytes)
  deriving DecidableEq

/-- A diagnostic of the WebAssembly runtime, by its message. -/
structure WasmDiagnostic where
  message : String

inductive ExtensionPackageError
  | package (failure : Package.Failure)
  | wasm (diagnostic : WasmDiagnostic)
  | host (error : HostError)
  | externalNativeEntrypoint (extension : ExtensionId)
  | invalidDeclarativeUi (extension : ExtensionId) (reason : String)
  | upgradeActivationFailed (extension : ExtensionId) (reason : String)
  | upgradeRollbackFailed (extension : ExtensionId) (reason : String)
  | upgradeWhileSuspended (extension : ExtensionId)
  | publisherMismatch (extension : ExtensionId)
  | packageChangedAfterReview (extension : ExtensionId)
  | notManaged (extension : ExtensionId)
  | installedPackageLimit (maximum : Nat)
  | compiledComponentBytesLimit (maximumBytes : Nat)
  | missingReferencedAsset (extension : ExtensionId) (path : PackagePath)
  | storedIdentityMismatch (expected actual : ExtensionId)
  | storedContentHashMismatch (extension : ExtensionId)
  | storedPermissionMismatch (extension : ExtensionId) (permission : Permission)

def debugList (texts : List String) : String := "[" ++ ", ".intercalate texts ++ "]"

/-- The domains of a package's permission, which have no character to escape. -/
def debugDomains (domains : List String) : String :=
  debugList (domains.map fun domain => "DomainPattern(\"" ++ domain ++ "\")")

def debugAccess : DocumentAccess → String
  | .activeDocument => "ActiveDocument"
  | .userApprovedDocuments => "UserApprovedDocuments"

def debugMutation : DocumentMutation → String
  | .redact => "Redact"
  | .editAnnotations => "EditAnnotations"
  | .rewriteDocument => "RewriteDocument"

def debugArea : StorageArea → String
  | .settings => "Settings"
  | .document => "Document"
  | .ephemeralCache => "EphemeralCache"

def debugNetwork : NetworkScope → String
  | .none => "None"
  | .declaredDomains domains => "DeclaredDomains(" ++ debugDomains domains ++ ")"
  | .declaredAndUserApproved domains => "DeclaredAndUserApproved(" ++ debugDomains domains ++ ")"
  | .publicInternet => "PublicInternet"

def debugPermission : Permission → String
  | .readDocumentMetadata => "ReadDocumentMetadata"
  | .readDocumentText access => "ReadDocumentText(" ++ debugAccess access ++ ")"
  | .readSelection => "ReadSelection"
  | .navigateDocument => "NavigateDocument"
  | .addDocumentOverlays => "AddDocumentOverlays"
  | .addSidePanel => "AddSidePanel"
  | .readAnnotations => "ReadAnnotations"
  | .writeAnnotations => "WriteAnnotations"
  | .mutateDocument mutation => "MutateDocument(" ++ debugMutation mutation ++ ")"
  | .clipboardWrite => "ClipboardWrite"
  | .openExternalUrl => "OpenExternalUrl"
  | .storage area quotaBytes => "Storage(StoragePermission \x7b area: " ++ debugArea area ++
      ", quota_bytes: " ++ toString quotaBytes ++ " \x7d)"
  | .network scope => "Network(" ++ debugNetwork scope ++ ")"

def safeActivationReason : HostError → String
  | .safeMode _ => "disabled while safe mode is enabled"
  | .licenseDenied _ _ => "package license is not allowed"
  | .dependencyUnavailable _ dependency _ =>
    "required extension dependency " ++ dependency ++ " is unavailable"
  | .requiredCapabilityUnavailable _ capability =>
    "required host capability " ++ capability ++ " is unavailable"
  | .permissionsRequired _ _ => "additional permissions are required"
  | .permissionDenied _ permission =>
    "required permission " ++ debugPermission permission ++ " was denied"
  | .adapterUnavailable _ => "extension runtime is unavailable"
  | .unsupportedEntrypoint _ => "extension runtime is unavailable"
  | .extensionFailed _ _ => "extension runtime failed during activation"
  | .registry _ => "extension is not in an activatable state"
  | .notInstalled _ => "extension is not in an activatable state"
  | .invalidState _ _ => "extension is not in an activatable state"
  | .eventRejected _ => "extension is not in an activatable state"
  | .effectNotPending _ _ => "extension is not in an activatable state"

def safePackageErrorReason : ExtensionPackageError → String
  | .host error => safeActivationReason error
  | .wasm _ => "WebAssembly runtime restoration failed"
  | .package _ => "stored package restoration failed"
  | .externalNativeEntrypoint _ => "stored package requested unsupported native execution"
  | .invalidDeclarativeUi _ _ => "stored package UI validation failed"
  | .upgradeActivationFailed _ _ => "nested package rollback failed"
  | .upgradeRollbackFailed _ _ => "nested package rollback failed"
  | .upgradeWhileSuspended _ => "suspended package cannot be upgraded"
  | .publisherMismatch _ => "stored package publisher identity changed"
  | .packageChangedAfterReview _ => "stored package changed after review"
  | .notManaged _ => "stored package is no longer managed"
  | .installedPackageLimit _ => "local package count limit reached"
  | .compiledComponentBytesLimit _ => "local component byte budget reached"
  | .missingReferencedAsset _ _ => "stored package references a missing UI asset"
  | .storedIdentityMismatch _ _ => "stored package identity changed"
  | .storedContentHashMismatch _ => "stored package content changed after review"
  | .storedPermissionMismatch _ _ => "stored package permission declaration changed"

/-- The WebAssembly runtime: its limit, and how it starts a worker on the bytes of a component. -/
structure WasmRuntime (G : Type) where
  maximumComponentBytes : Nat
  spawn : Bytes → List EventSubscription → GenerationId → Except ExtensionError G

/-- The libraries, and the assets that the menus and views of a manifest name, in their order. -/
structure Surroundings (ν : Type) where
  libraries : Libraries ν
  /-- `as_u64` of a JSON number. -/
  asU64 : ν → Option Nat
  namedAssets : PackageManifest → List PackagePath

structure WasmExtensionAdapter (G : Type) where
  extension : ExtensionId
  create : ExtensionEntrypoint → GenerationId → Except ExtensionError G

structure WasmHostAdapterConfig where
  extension : ExtensionId
  component : PackagePath
  world : String
  subscriptions : List EventSubscription

def validateEntrypoint (entrypoint : ExtensionEntrypoint) (config : WasmHostAdapterConfig) :
    Except ExtensionError Unit :=
  match entrypoint with
  | .wasmComponent component world _ =>
    ensure (component = config.component ∧ world = config.world)
      ⟨.conflict, "registered component bytes do not match the active package manifest", false⟩
  | _ =>
    .error ⟨.invalidRequest, "WebAssembly adapter received a non-component entrypoint", false⟩

variable {G ν : Type}

def compileHostAdapter (wasm : WasmRuntime G) (config : WasmHostAdapterConfig) (bytes : Bytes) :
    Except WasmDiagnostic (WasmExtensionAdapter G) := do
  ensure (bytes.length ≤ wasm.maximumComponentBytes) ⟨"component is " ++ toString bytes.length ++
    " bytes; limit is " ++ toString wasm.maximumComponentBytes ++ " bytes"⟩
  .ok { extension := config.extension
        create entrypoint generation := do
          validateEntrypoint entrypoint config
          wasm.spawn bytes config.subscriptions generation }

inductive PdfCapability
  | documentMetadata
  | pageMetadata
  | outline
  | links
  | text
  | selection
  | viewport
  | navigation
  | overlays
  deriving DecidableEq

def PdfCapability.all : List PdfCapability :=
  [.documentMetadata, .pageMetadata, .outline, .links, .text, .selection, .viewport, .navigation,
    .overlays]

def PdfCapability.name : PdfCapability → String
  | .documentMetadata => "key:pdf/document-metadata"
  | .pageMetadata => "key:pdf/page-metadata"
  | .outline => "key:pdf/outline"
  | .links => "key:pdf/links"
  | .text => "key:pdf/text"
  | .selection => "key:pdf/selection"
  | .viewport => "key:pdf/viewport"
  | .navigation => "key:pdf/navigation"
  | .overlays => "key:pdf/overlays"

def PdfCapability.fromName (name : String) : Option PdfCapability :=
  PdfCapability.all.find? (·.name = name)

def subscriptionsForManifest (manifest : ExtensionManifest) : List EventSubscription :=
  let requested := (manifest.capabilities.required ++ manifest.capabilities.optional).filterMap
    fun request => PdfCapability.fromName request.id
  [.lifecycle, .commands, .capabilities, .effectResults] ++
    (if requested.any (· ∈ [.documentMetadata, .pageMetadata, .outline, .links, .text]) then
      [.snapshot .document] else []) ++
    (if requested.contains .viewport then [.snapshot .viewport] else []) ++
    (if requested.contains .selection then [.snapshot .selection] else []) ++
    (if manifest.permissions.any (fun request =>
        request.permission ∈ [.readAnnotations, .writeAnnotations]) then
      [.snapshot SnapshotKind.annotation] else [])

structure ManagedPackage (G : Type) where
  package : LoadedPackage
  uiKind : Option String
  adapter : Option (WasmExtensionAdapter G)

def ManagedPackage.manifest (managed : ManagedPackage G) : PackageManifest :=
  managed.package.manifest

def ManagedPackage.id (managed : ManagedPackage G) : ExtensionId := managed.package.manifest.id

def packageReport (managed : ManagedPackage G) (activation : PackageActivation) :
    PackageInstallReport where
  extension := managed.manifest.id
  name := managed.manifest.name
  version := managed.manifest.version
  license := managed.manifest.license
  publisherVerified := managed.package.signature.isSome
  activation

section

variable (package : LoadedPackage)

def componentBytes : Nat :=
  package.component.elim 0 (·.bytes.length)

def componentBudgetAllows (managed pending candidate : Nat) : Bool :=
  managed + pending + candidate ≤ maxCompiledComponentBytes

def packageMetadata : PackageMetadata where
  origin := match package.source with
    | .developmentDirectory => .trustedLocal
    | .keyextArchive => .thirdParty

def signerIdentitiesMatch (old new : Option (String × String)) : Bool :=
  match old, new with
  | some old, some new => old = new
  | _, _ => false

def verifiedSignerIdentity : Option (String × String) :=
  package.signature.map fun signature => (signature.signer.keyId, signature.signer.identity)

end

def verifiedSignerContinuity (old new : LoadedPackage) : Bool :=
  signerIdentitiesMatch (verifiedSignerIdentity old) (verifiedSignerIdentity new)

def semanticNameIsSafe (value : String) : Bool :=
  !value.isEmpty && value.utf8ByteSize ≤ 64 && value.toList.all fun character =>
    character.isLower || character.isDigit || ['-', '_', '.'].contains character

/-- The members of a JSON object: the last one of a name counts. -/
def members (fields : List (String × Json ν)) : ExtTreeMap String (Json ν) :=
  fields.foldl (fun object field => object.insert field.1 field.2) ∅

def isSafeString : Json ν → Bool
  | .string value => semanticNameIsSafe value
  | _ => false

def validateBinding (binding : String × Json ν) : Except String Unit := do
  ensure (semanticNameIsSafe binding.1 = true) "binding names must be bounded semantic identifiers"
  match binding.2 with
  | .array segments =>
    ensure (segments ≠ [] ∧ segments.length ≤ 16) "binding paths must contain 1 to 16 segments"
    ensure (segments.all isSafeString = true)
      "binding path segments must be bounded semantic identifiers"
  | _ => .error "binding paths must be arrays"

def validateBindingMap (value : Json ν) : Except String Unit :=
  match value with
  | .object fields => do
    let bindings := members fields
    ensure (0 < bindings.size ∧ bindings.size ≤ 256)
      "binding collections must contain 1 to 256 entries"
    bindings.toList.forM validateBinding
  | _ => .error "binding collections must be objects"

def allowedUiFields : List String :=
  ["schema_version", "kind", "bindings", "state", "updates_from", "tokens_only", "note"]

def isVersionOne (asU64 : ν → Option Nat) : Json ν → Bool
  | .number value => asU64 value = some 1
  | _ => false

def uiPayloadKind (asU64 : ν → Option Nat) (value : Json ν) : Except String String :=
  match value with
  | .object fields => do
    let object := members fields
    ensure (∀ field ∈ object.keys, field ∈ allowedUiFields) "payload contains an unsupported field"
    ensure (object["schema_version"]?.any (isVersionOne asU64) = true) "schema_version must be 1"
    let kind ← match object["kind"]? with
      | some (.string kind) =>
        if semanticNameIsSafe kind then .ok kind
        else .error "kind must be a bounded semantic identifier"
      | _ => .error "kind must be a bounded semantic identifier"
    ["bindings", "state"].forM fun field =>
      match object[field]? with
      | some value => validateBindingMap value
      | none => .ok ()
    ensure (object["updates_from"]?.all isSafeString = true)
      "updates_from must be a bounded semantic identifier"
    ensure (object["tokens_only"]?.all (fun value => match value with
      | .bool _ => true
      | _ => false) = true) "tokens_only must be a boolean"
    ensure (object["note"]?.all (fun value => match value with
      | .string _ => true
      | _ => false) = true) "note must be a string"
    .ok kind
  | _ => .error "payload root must be an object"

def validateDeclarativeUi (surroundings : Surroundings ν) (package : LoadedPackage) :
    Except ExtensionPackageError (Option String) :=
  match package.ui with
  | none => .ok none
  | some ui =>
    let kind : Except String String := match surroundings.libraries.jsonFromSlice ui.bytes with
      | .error _ => .error "payload is not valid JSON"
      | .ok value => uiPayloadKind surroundings.asU64 value
    (kind.map some).mapError (.invalidDeclarativeUi package.manifest.id)

def referencedAssetBlobs (surroundings : Surroundings ν) (package : LoadedPackage) :
    Except ExtensionPackageError (List (PackagePath × Bytes)) :=
  (surroundings.namedAssets package.manifest).mapM fun path => do
    let blob ← okOr package.assets[path]? (.missingReferencedAsset package.manifest.id path)
    .ok (path, blob.bytes)

end KeyReader.Packages
