import KeyReader.Assoc
import KeyReader.Extension.Protocol
import KeyReader.Machine

/-! Bounded values: the limits that the host puts on them, and paths into the records of a state. -/

namespace KeyReader.Extension

open Machine

/-- The limits of a value, a path and an identifier. -/
structure ValidationLimits where
  maximumStringBytes : Nat
  maximumListItems : Nat
  maximumValueNodes : Nat
  maximumValueDepth : Nat
  maximumBindingSegments : Nat

def ValidationLimits.default : ValidationLimits :=
  { maximumStringBytes := 16384, maximumListItems := 1024, maximumValueNodes := 4096
    maximumValueDepth := 16, maximumBindingSegments := 16 }

/-- Neither infinite nor a NaN. -/
def F64.isFinite (x : F64) : Bool := x.bits &&& 0x7FF0000000000000 != 0x7FF0000000000000

/-- The place of a float that is not a NaN in the order of the floats. -/
def F64.rank (x : F64) : Int :=
  let magnitude : Int := (x.bits &&& 0x7FFFFFFFFFFFFFFF).toNat
  if x.bits.msb then -magnitude else magnitude

/-- `x <= y`. -/
def F64.le (x y : F64) : Bool := !x.isNan && !y.isNan && x.rank ≤ y.rank

/-- The fields of a record or of an extension's state: a `BTreeMap<String, DataValue>`. -/
abbrev Fields := List (String × DataValue)

def stateKeyIsSafe (key : String) (limits : ValidationLimits) : Bool :=
  !key.isEmpty && key.utf8ByteSize ≤ limits.maximumStringBytes &&
    key.toList.all fun c => c.isAlphanum || c == '-' || c == '_'

mutual

/-- The number of nodes once `value` is counted too, if it is bounded. -/
def DataValue.visit (limits : ValidationLimits) : DataValue → Nat → Nat → Option Nat
  | value, depth, nodes =>
    let nodes := saturatingAdd nodes 1
    if limits.maximumValueNodes < nodes ∨ limits.maximumValueDepth < depth then none
    else match value with
      | .number value => if value.isFinite then some nodes else none
      | .string value =>
        if value.utf8ByteSize ≤ limits.maximumStringBytes then some nodes else none
      | .list values =>
        if values.length ≤ limits.maximumListItems then
          DataValue.visitList limits values (depth + 1) nodes
        else none
      | .record fields =>
        if fields.length ≤ limits.maximumListItems then
          DataValue.visitFields limits fields (depth + 1) nodes
        else none
      | .null => some nodes
      | .boolean _ => some nodes
      | .integer _ => some nodes

def DataValue.visitList (limits : ValidationLimits) : List DataValue → Nat → Nat → Option Nat
  | [], _, nodes => some nodes
  | value :: values, depth, nodes =>
    (value.visit limits depth nodes).bind (DataValue.visitList limits values depth)

def DataValue.visitFields (limits : ValidationLimits) :
    List (String × DataValue) → Nat → Nat → Option Nat
  | [], _, nodes => some nodes
  | (key, value) :: fields, depth, nodes =>
    if stateKeyIsSafe key limits then
      (value.visit limits depth nodes).bind (DataValue.visitFields limits fields depth)
    else none

end

def valueIsBounded (value : DataValue) (limits : ValidationLimits) : Bool :=
  (value.visit limits 1 0).isSome

def stateIsBounded (state : Fields) (limits : ValidationLimits) : Bool :=
  state.length ≤ limits.maximumListItems && state.all (fun field => stateKeyIsSafe field.1 limits) &&
    valueIsBounded (.record state) limits

/-- A path of keys into a state. -/
structure StateBinding where
  segments : List String
  deriving DecidableEq

/-- `set_path` of `set_state_binding`: what is not a record on the way becomes one. -/
def setPath : Fields → List String → DataValue → Fields
  | record, [], _ => record
  | record, [head], value => Assoc.insert head value record
  | record, head :: next :: tail, value =>
    let child := match Assoc.get head record with
      | some (.record child) => child
      | _ => []
    Assoc.insert head (.record (setPath child (next :: tail) value)) record

def setStateBinding (state : Fields) (binding : StateBinding) (value : DataValue) : Fields :=
  setPath state binding.segments value

/-- `get_data_path`, which is also `get_path` of `normalize_persisted_settings`. -/
def getDataPath : Fields → List String → Option DataValue
  | _, [] => none
  | record, [head] => Assoc.get head record
  | record, head :: next :: tail =>
    match Assoc.get head record with
    | some (.record child) => getDataPath child (next :: tail)
    | _ => none

/-- `set_data_path`: what is on the way has to be a record. -/
def setDataPath : Fields → List String → DataValue → Except String Fields
  | _, [], _ => .error "setting key cannot be empty"
  | record, [head], value => .ok (Assoc.insert head value record)
  | record, head :: next :: tail, value =>
    let path := ".".intercalate (head :: next :: tail)
    match (Assoc.get head record).getD (.record []) with
    | .record child => do
      let child ← setDataPath child (next :: tail) value
      .ok (Assoc.insert head (.record child) record)
    | _ => .error ("setting path '" ++ path ++ "' crosses a non-record value")

/-- `key.split('.')`. -/
def segmentsOf (key : String) : List String := (key.toList.splitOn '.').map String.ofList

theorem get_setPath {record : Fields} {path : List String} {value : DataValue} {key : String}
    (h : path.head? ≠ some key) : Assoc.get key (setPath record path value) =
      Assoc.get key record := by
  match path with
  | [] => rfl
  | [head] =>
    rw [setPath, Assoc.get_insert, if_neg]
    rintro rfl
    exact h rfl
  | head :: next :: tail =>
    rw [setPath, Assoc.get_insert, if_neg]
    rintro rfl
    exact h rfl

end KeyReader.Extension

/-! What an extension declares about itself, the validation of its command behaviors, and the
registry's record of it. -/

namespace KeyReader.Extension

open Machine

abbrev NativeAdapterId := NamespacedId

abbrev ExtensionVersion := String

/-- A version requirement. -/
abbrev CompatibleVersion := String

inductive CapabilityScope
  | application
  | activeDocument
  | documentSet
  | namespacedStorage (area : StorageArea)
  | domains (patterns : List String)
  deriving DecidableEq

structure CapabilityRequest where
  id : CapabilityId
  version : CompatibleVersion
  scope : CapabilityScope

structure ProvidedCapability where
  id : CapabilityId
  version : ExtensionVersion

structure CapabilityRequirements where
  required : List CapabilityRequest
  optional : List CapabilityRequest
  provided : List ProvidedCapability

structure CapabilityGrant where
  extension : ExtensionId
  capability : CapabilityId
  scope : CapabilityScope
  deriving DecidableEq

structure CapabilitySnapshot where
  granted : List CapabilityGrant
  missingOptional : List CapabilityId
  deriving DecidableEq

inductive DocumentAccess
  | activeDocument
  | userApprovedDocuments
  deriving DecidableEq

inductive DocumentMutation
  | redact
  | editAnnotations
  | rewriteDocument
  deriving DecidableEq

inductive NetworkScope
  | none
  | declaredDomains (domains : List String)
  | declaredAndUserApproved (domains : List String)
  | publicInternet
  deriving DecidableEq

/-- User-sensitive authority. -/
inductive Permission
  | readDocumentMetadata
  | readDocumentText (access : DocumentAccess)
  | readSelection
  | navigateDocument
  | addDocumentOverlays
  | addSidePanel
  | readAnnotations
  | writeAnnotations
  | mutateDocument (mutation : DocumentMutation)
  | clipboardWrite
  | openExternalUrl
  | storage (area : StorageArea) (quotaBytes : Nat)
  | network (scope : NetworkScope)
  deriving DecidableEq

structure PermissionRequest where
  permission : Permission
  reason : String
  required : Bool
  deriving DecidableEq

inductive ContributionSlot
  | commandPalette
  | topToolbar
  | pdfFloatingToolbar
  | selectionContextPill
  | documentOverlay
  | hoverCard
  | sidePanel
  | contextMenu
  | statusArea
  | settingsPanel
  deriving DecidableEq

structure CommandDefinition where
  id : CommandId

structure MenuContribution where
  id : ContributionId

structure UiContribution where
  id : ContributionId
  slot : ContributionSlot

inductive CommandBehaviorAction
  | setState (binding : StateBinding)
  | openContribution (contribution : ContributionId)
  | closeContribution (contribution : ContributionId)
  deriving DecidableEq

/-- A behavior that the host executes for a command. -/
structure CommandBehavior where
  command : CommandId
  action : CommandBehaviorAction

structure ContributionSet where
  commands : List CommandDefinition
  commandBehaviors : List CommandBehavior
  menus : List MenuContribution
  views : List UiContribution

inductive SettingType
  | boolean
  | integer (minimum maximum : Option Int)
  | number (minimum maximum : Option F64)
  | string (maximumBytes : Option Nat)
  | choice (options : List DataValue)
  | stringList (maximumItems maximumItemBytes : Option Nat)

def SettingType.accepts : SettingType → DataValue → Bool
  | .boolean, .boolean _ => true
  | .integer minimum maximum, .integer value =>
    minimum.all (· ≤ value) && maximum.all (value ≤ ·)
  | .number minimum maximum, .number value =>
    value.isFinite && minimum.all (·.le value) && maximum.all (value.le ·)
  | .string maximumBytes, .string value => maximumBytes.all (value.utf8ByteSize ≤ ·)
  | .choice options, value => options.any (·.eq value)
  | .stringList maximumItems maximumItemBytes, .list values =>
    maximumItems.all (values.length ≤ ·) && values.all fun
      | .string value => maximumItemBytes.all (value.utf8ByteSize ≤ ·)
      | _ => false
  | _, _ => false

structure SettingDefinition where
  key : String
  valueType : SettingType
  default : DataValue
  sensitive : Bool

inductive ExtensionEntrypoint
  | declarative (ui : String)
  | wasmComponent (component world : String) (ui : Option String)
  | nativeBuiltin (adapter : NativeAdapterId) (ui : Option String)

structure ExtensionDependency where
  id : ExtensionId
  version : CompatibleVersion
  optional : Bool
  deriving DecidableEq

structure ExtensionManifest where
  id : ExtensionId
  version : ExtensionVersion
  license : String
  entrypoint : ExtensionEntrypoint
  dependencies : List ExtensionDependency
  capabilities : CapabilityRequirements
  permissions : List PermissionRequest
  contributions : ContributionSet
  /-- The fields of the settings schema. -/
  settings : List SettingDefinition

inductive ValidationCode
  | unsupportedSchema
  | invalidIdentifier
  | invalidPackagePath
  | invalidEntrypoint
  | invalidField
  | stringTooLong
  | limitExceeded
  | duplicate
  | foreignNamespace
  | unknownCommand
  | unknownContribution
  | missingDependency
  | incompatibleDependency
  | dependencyCycle
  | orderingCycle
  | invalidDomain
  | invalidSetting
  | invalidValue
  deriving DecidableEq

structure ValidationError where
  code : ValidationCode
  path : String
  message : String
  deriving DecidableEq

def hostStateNamespaceIsReserved (segment : String) : Bool :=
  segment ∈ ["application", "document", "viewport", "selection", "annotation", "theme",
    "capabilities"]

def segmentIsValid (limits : ValidationLimits) (segment : String) : Bool :=
  !segment.isEmpty && segment.utf8ByteSize ≤ limits.maximumStringBytes &&
    segment.toList.all fun c => c.isAlphanum || c == '-' || c == '_'

def validateBinding (limits : ValidationLimits) (path : String) (binding : StateBinding) :
    List ValidationError :=
  if binding.segments = [] ∨ limits.maximumBindingSegments < binding.segments.length ∨
      ¬binding.segments.all (segmentIsValid limits) then
    [⟨.invalidField, path, "state binding has invalid or excessive path segments"⟩]
  else []

/-- The permission that the opening of a view needs. -/
def ContributionSlot.permission : ContributionSlot → Option Permission
  | .sidePanel => some .addSidePanel
  | .settingsPanel => some .addSidePanel
  | .documentOverlay => some .addDocumentOverlays
  | _ => none

namespace ExtensionManifest

/-- The key of the setting that a binding below `settings` names. -/
def settingKey (binding : StateBinding) : String := ".".intercalate (binding.segments.drop 1)

section

variable (manifest : ExtensionManifest) (limits : ValidationLimits)

def validateSetState (path : String) (binding : StateBinding) : List ValidationError :=
  validateBinding limits (path ++ ".binding") binding ++
    if binding.segments.head? = some "settings" then
      match manifest.settings.find? (·.key = settingKey binding) with
      | none => [⟨.invalidSetting, path ++ ".binding", "SetState binding names an unknown setting"⟩]
      | some setting =>
        if setting.sensitive then [⟨.invalidSetting, path ++ ".binding",
          "sensitive settings cannot be exposed through declarative state"⟩]
        else []
    else if binding.segments.head?.any hostStateNamespaceIsReserved then
      [⟨.invalidField, path ++ ".binding", "SetState cannot write a host-owned snapshot namespace"⟩]
    else []

def validateContribution (path : String) (opens : Bool)
    (contribution : ContributionId) : List ValidationError :=
  if contribution.owner ≠ manifest.id then [⟨.foreignNamespace, path ++ ".contribution",
    "command behavior contribution must be owned by the extension"⟩]
  else match manifest.contributions.views.find? (·.id = contribution) with
    | none => [⟨.unknownContribution, path ++ ".contribution",
        "command behavior target is not a declared view contribution"⟩]
    | some view =>
      match view.slot.permission with
      | some permission =>
        if opens ∧ ¬manifest.permissions.any (fun request =>
            request.required && request.permission = permission) then
          [⟨.invalidField, path, "opening this contribution requires a matching required permission"⟩]
        else []
      | none => []

def validateBehavior (index : Nat) (earlier : List CommandId)
    (behavior : CommandBehavior) : List ValidationError :=
  let path := "contributions.command_behaviors[" ++ toString index ++ "]"
  (if manifest.contributions.commands.any (·.id = behavior.command) then []
    else [⟨.unknownCommand, path ++ ".command", "command is not declared by this extension"⟩]) ++
  (if behavior.command ∈ earlier then [⟨.duplicate, path ++ ".command",
      "schema v1 permits at most one declarative behavior per command"⟩]
    else []) ++
  match behavior.action with
  | .setState binding => manifest.validateSetState limits path binding
  | .openContribution contribution => manifest.validateContribution path true contribution
  | .closeContribution contribution => manifest.validateContribution path false contribution

/-- The part of `validate_contributions` about the behaviors of commands. -/
def validateBehaviors (manifest : ExtensionManifest) (limits : ValidationLimits) :
    Nat → List CommandId → List CommandBehavior → List ValidationError
  | _, _, [] => []
  | index, earlier, behavior :: behaviors =>
    manifest.validateBehavior limits index earlier behavior ++
      manifest.validateBehaviors limits (index + 1) (behavior.command :: earlier) behaviors

/-- A key of a setting: segments of lower-case letters, digits and dashes. -/
def keyIsCanonical (key : String) : Bool :=
  let segments := segmentsOf key
  !key.isEmpty && key.utf8ByteSize ≤ limits.maximumStringBytes &&
    saturatingAdd segments.length 1 ≤ limits.maximumBindingSegments &&
    segments.all fun segment =>
      !segment.isEmpty && segment.utf8ByteSize ≤ limits.maximumStringBytes &&
        segment.toList.all fun c => c.isLower || c.isDigit || c == '-'

/-- The part of `validate_settings` about the keys and the types of the defaults. -/
def validateSettings :
    List ValidationError :=
  manifest.settings.zipIdx.flatMap fun (setting, index) =>
    let path := "settings.fields[" ++ toString index ++ "]"
    (if keyIsCanonical limits setting.key then []
      else [⟨.invalidSetting, path ++ ".key", "setting key is not canonical"⟩]) ++
    (if setting.key ∈ (manifest.settings.take index).map (·.key) then
        [⟨.duplicate, path ++ ".key", "duplicate setting key"⟩]
      else []) ++
    if setting.valueType.accepts setting.default then []
    else [⟨.invalidSetting, path ++ ".default", "default does not satisfy the setting type"⟩]

end

end ExtensionManifest

inductive LifecycleState
  | installed
  | validated
  | active
  | suspended
  | disabled
  | failed
  | unloading
  | removed
  deriving DecidableEq

def lifecycleTransitionAllowed : LifecycleState → LifecycleState → Bool
  | .installed, target => target ∈ [.validated, .disabled, .removed]
  | .validated, target => target ∈ [.active, .disabled, .failed, .removed]
  | .active, target => target ∈ [.suspended, .disabled, .failed, .unloading]
  | .suspended, target => target ∈ [.active, .disabled, .failed, .unloading]
  | .failed, target => target ∈ [.disabled, .validated, .removed]
  | .disabled, target => target ∈ [.validated, .removed]
  | .unloading, target => target ∈ [.disabled, .removed]
  | .removed, _ => false

inductive PackageOrigin
  | bundled
  | trustedLocal
  | thirdParty
  deriving DecidableEq

def PackageOrigin.allowedInSafeMode (origin : PackageOrigin) : Bool := origin = .bundled

structure PackageMetadata where
  origin : PackageOrigin

structure PackageRecord where
  manifest : ExtensionManifest
  metadata : PackageMetadata
  state : LifecycleState

inductive RegistryError
  | alreadyInstalled (extension : ExtensionId)
  | notInstalled (extension : ExtensionId)
  | packageBusy (extension : ExtensionId)
  | invalidManifest (extension : ExtensionId) (errors : List ValidationError)
  | invalidTransition (extension : ExtensionId) (start target : LifecycleState)

def PackageRecord.transition (record : PackageRecord) (state : LifecycleState) :
    Except RegistryError PackageRecord :=
  if lifecycleTransitionAllowed record.state state then .ok { record with state }
  else .error (.invalidTransition record.manifest.id record.state state)

def initialExtensionState (manifest : ExtensionManifest) : Fields :=
  (manifest.settings.filter (!·.sensitive)).foldl (fun state setting =>
    setStateBinding state ⟨"settings" :: segmentsOf setting.key⟩ setting.default) []

/-- A setting of the persisted record, copied to the normalized and the observed settings. -/
def normalizeSetting (incoming : Fields) (copies : Fields × Fields) (setting : SettingDefinition) :
    Except String (Fields × Fields) :=
  match getDataPath incoming (segmentsOf setting.key) with
  | none => .ok copies
  | some value =>
    if setting.valueType.accepts value then
      let binding : StateBinding := ⟨"settings" :: segmentsOf setting.key⟩
      .ok (setStateBinding copies.1 binding value, setStateBinding copies.2 binding value)
    else .error ("persisted value for setting '" ++ setting.key ++ "' has the wrong type or range")

def normalizePersistedSettings (manifest : ExtensionManifest) (settings : DataValue)
    (limits : ValidationLimits) : Except String DataValue :=
  match settings with
  | .record incoming =>
    if ¬valueIsBounded (.record incoming) limits then
      .error "persisted extension settings exceed host bounds"
    else do
      let (normalized, observed) ← (manifest.settings.filter (!·.sensitive)).foldlM
        (normalizeSetting incoming) (initialExtensionState manifest, [])
      let observed := match Assoc.get "settings" observed with
        | some (.record observed) => observed
        | _ => []
      if DataValue.eqFields observed incoming then
        .ok ((Assoc.get "settings" normalized).getD (.record []))
      else .error "persisted extension settings contain unknown or sensitive keys"
  | _ => .error "persisted extension settings must be a record"

end KeyReader.Extension
