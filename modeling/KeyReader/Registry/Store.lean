import KeyReader.Registry.Format

/-! The extension registry: the entries in memory, the file that holds them, and the operations that
write the file before they change the memory. -/

namespace KeyReader.Registry

open Checked Extension Package Std

/-- The state of one extension package that the user selected. -/
structure ExtensionRegistryEntry where
  extension : ExtensionId
  sourcePath : Bytes
  expectedContentSha256 : String
  enabled : Bool
  requiredPermissions : List StoredPermissionDecision
  settings : Option DataValue

/-- An entry that is not checked yet: its source is not canonical. -/
structure ExtensionRegistryEntryInput where
  extension : ExtensionId
  sourcePath : Bytes
  expectedContentSha256 : String
  enabled : Bool
  requiredPermissions : List StoredPermissionDecision
  settings : Option DataValue

abbrev RegistryEntries := ExtTreeMap ExtensionId ExtensionRegistryEntry

structure ExtensionRegistry where
  path : Bytes
  entries : RegistryEntries

/-- An entry as the file has it. -/
structure RegistryEntryWire where
  extension : ExtensionId
  sourcePath : String
  expectedContentSha256 : String
  enabled : Bool
  requiredPermissions : List StoredPermissionDecision
  settings : Option DataValue

structure RegistryDocument where
  schemaVersion : Nat
  entries : List RegistryEntryWire

def RequiredPermissionDecision.name : RequiredPermissionDecision → String
  | .granted => "granted"
  | .denied => "denied"

def StoredPermissionDecision.toJson (stored : StoredPermissionDecision) : JsonValue :=
  .object [("permission", stored.permission.toJson), ("decision", .string stored.decision.name)]

def StoredPermissionDecision.ofJson (json : JsonValue) : Option StoredPermissionDecision :=
  match Json.structFields ["permission", "decision"] true json with
  | some [some permission, some decision] => do
    let permission ← Permission.ofJson permission
    let decision ← readNamed RequiredPermissionDecision.name [.granted, .denied] decision
    some ⟨permission, decision⟩
  | _ => none

def settingsMember : Option DataValue → List (String × JsonValue)
  | none => []
  | some settings => [("settings", settings.toJson)]

def RegistryEntryWire.toJson (wire : RegistryEntryWire) : JsonValue :=
  .object ([("extension", .string wire.extension), ("source_path", .string wire.sourcePath),
    ("expected_content_sha256", .string wire.expectedContentSha256),
    ("enabled", .bool wire.enabled),
    ("required_permissions", .array (wire.requiredPermissions.map StoredPermissionDecision.toJson))]
    ++ settingsMember wire.settings)

/-- `Option<DataValue>`, which is `None` by default. -/
def readSettings : Option JsonValue → Option (Option DataValue)
  | none => some none
  | some .null => some none
  | some settings => (DataValue.ofJson settings).map some

def RegistryEntryWire.ofJson (json : JsonValue) : Option RegistryEntryWire :=
  match Json.structFields ["extension", "source_path", "expected_content_sha256", "enabled",
      "required_permissions", "settings"] true json with
  | some [some extension, some sourcePath, some hash, some enabled, some permissions, settings] => do
    let extension ← (Json.readString extension).bind parseExtensionId
    let sourcePath ← Json.readString sourcePath
    let expectedContentSha256 ← Json.readString hash
    let enabled ← Json.readBool enabled
    let requiredPermissions ← Json.readArray StoredPermissionDecision.ofJson permissions
    let settings ← readSettings settings
    some { extension, sourcePath, expectedContentSha256, enabled, requiredPermissions, settings }
  | _ => none

def RegistryDocument.toJson (document : RegistryDocument) : JsonValue :=
  .object [("schema_version", .number (.posInt (.ofNat document.schemaVersion))),
    ("entries", .array (document.entries.map RegistryEntryWire.toJson))]

def RegistryDocument.ofJson (json : JsonValue) : Option RegistryDocument :=
  match Json.structFields ["schema_version", "entries"] true json with
  | some [some schemaVersion, some entries] => do
    let schemaVersion ← readU16 schemaVersion
    let entries ← Json.readArray RegistryEntryWire.ofJson entries
    some ⟨schemaVersion, entries⟩
  | _ => none

section
variable (serde : SerdeJson)

def validateWire (wire : RegistryEntryWire) : Checks ExtensionRegistryEntry := do
  validateContentHash wire.expectedContentSha256
  let sourcePath := pathBytes wire.sourcePath
  validateStoredSourcePath sourcePath
  let requiredPermissions ← validatePermissionDecisions serde wire.requiredPermissions
  let settings ← validateSettings serde wire.settings
  .ok { extension := wire.extension, sourcePath
        expectedContentSha256 := wire.expectedContentSha256, enabled := wire.enabled
        requiredPermissions, settings }

def loadEntry (entries : RegistryEntries) (wire : RegistryEntryWire) : Checks RegistryEntries := do
  let entry ← validateWire serde wire
  ensure (entries[entry.extension]?.isNone) (.duplicateExtension entry.extension)
  .ok (entries.insert entry.extension entry)

/-- The entries of the file, which is missing or has these bytes. -/
def loadEntries : Option Bytes → Checks RegistryEntries
  | none => .ok ∅
  | some bytes => do
    ensure (bytes.length ≤ maxRegistryBytes) (.registryTooLarge bytes.length maxRegistryBytes)
    let json ← okOr (serde.fromSlice bytes) .json
    let document ← okOr (RegistryDocument.ofJson json) .json
    ensure (document.schemaVersion = registrySchemaVersion)
      (.unsupportedSchema document.schemaVersion)
    ensure (document.entries.length ≤ maxRegistryEntries)
      (.tooManyEntries document.entries.length maxRegistryEntries)
    document.entries.foldlM (loadEntry serde) ∅

/-- `ExtensionRegistry::load`. -/
def ExtensionRegistry.load (path : Bytes) (file : Option Bytes) : Checks ExtensionRegistry := do
  validateRegistryPath path
  let entries ← loadEntries serde file
  .ok ⟨path, entries⟩

def validateInput (canonicalize : Bytes → Checks Bytes) (input : ExtensionRegistryEntryInput) :
    Checks ExtensionRegistryEntry := do
  validateContentHash input.expectedContentSha256
  let sourcePath ← canonicalize input.sourcePath
  validateStoredSourcePath sourcePath
  let requiredPermissions ← validatePermissionDecisions serde input.requiredPermissions
  let settings ← validateSettings serde input.settings
  .ok { extension := input.extension, sourcePath
        expectedContentSha256 := input.expectedContentSha256, enabled := input.enabled
        requiredPermissions, settings }

def entryWire (entry : ExtensionRegistryEntry) : RegistryEntryWire where
  extension := entry.extension
  sourcePath := toStringLossy serde entry.sourcePath
  expectedContentSha256 := entry.expectedContentSha256
  enabled := entry.enabled
  requiredPermissions := entry.requiredPermissions
  settings := entry.settings

def entriesDocument (entries : RegistryEntries) : RegistryDocument :=
  ⟨registrySchemaVersion, entries.toList.map fun entry => entryWire serde entry.2⟩

/-- The bytes that are written for these entries. -/
def entriesBytes (entries : RegistryEntries) : Bytes :=
  serde.toVecPretty (entriesDocument serde entries).toJson ++ [10]

/-- The bytes of the file once the entries are written, where `write` is what comes of the atomic
replacement of the file. -/
def persistEntries (write : Checks Unit) (entries : RegistryEntries) : Checks Bytes := do
  ensure (entries.size ≤ maxRegistryEntries) (.tooManyEntries entries.size maxRegistryEntries)
  let bytes := entriesBytes serde entries
  ensure (bytes.length ≤ maxRegistryBytes) (.registryTooLarge bytes.length maxRegistryBytes)
  write
  .ok bytes

structure Stored where
  registry : ExtensionRegistry
  file : Option Bytes

namespace Stored

section

variable (stored : Stored) (write : Checks Unit)

def commit (entries : RegistryEntries) : Checks Stored := do
  let bytes ← persistEntries serde write entries
  .ok ⟨{ stored.registry with entries }, some bytes⟩

section

variable (extension : ExtensionId)

def modify (change : ExtensionRegistryEntry → Checks ExtensionRegistryEntry) : Checks Stored := do
  let entry ← okOr stored.registry.entries[extension]? (.extensionNotFound extension)
  let entry ← change entry
  stored.commit serde write (stored.registry.entries.insert extension entry)

def upsert (canonicalize : Bytes → Checks Bytes)
    (input : ExtensionRegistryEntryInput) : Checks Stored := do
  let entry ← validateInput serde canonicalize input
  stored.commit serde write (stored.registry.entries.insert entry.extension entry)

def remove : Checks Stored :=
  match stored.registry.entries[extension]? with
  | none => .ok stored
  | some _ => stored.commit serde write (stored.registry.entries.erase extension)

def setEnabled (enabled : Bool) :
    Checks Stored := do
  let entry ← okOr stored.registry.entries[extension]? (.extensionNotFound extension)
  let entries := stored.registry.entries.insert extension { entry with enabled }
  if entry.enabled = enabled then .ok stored else stored.commit serde write entries

section

variable (permission : Permission)

/-- The decision for a permission, in its place or at the end. -/
def putDecision (decision : RequiredPermissionDecision)
    (decisions : List StoredPermissionDecision) : Checks (List StoredPermissionDecision) :=
  match decisions.findIdx? (fun stored => stored.permission = permission) with
  | some index => .ok (decisions.modify index fun stored => { stored with decision })
  | none => do
    ensure (decisions.length ≠ maxPermissionDecisions)
      (.tooManyPermissionDecisions (maxPermissionDecisions + 1) maxPermissionDecisions)
    .ok (decisions ++ [⟨permission, decision⟩])

def setPermissionDecision (decision : RequiredPermissionDecision) : Checks Stored :=
  stored.modify serde write extension fun entry => do
    validatePermission permission
    let decisions ← putDecision permission decision entry.requiredPermissions
    .ok { entry with requiredPermissions := sortPermissionDecisions serde decisions }

def replacePermissionDecisions
    (requiredPermissions : List StoredPermissionDecision) : Checks Stored := do
  let requiredPermissions ← validatePermissionDecisions serde requiredPermissions
  stored.modify serde write extension fun entry => .ok { entry with requiredPermissions }

def replaceSettings (settings : Option DataValue) : Checks Stored := do
  let settings ← validateSettings serde settings
  stored.modify serde write extension fun entry => .ok { entry with settings }

def clearPermissionDecision : Checks Stored := do
  let entry ← okOr stored.registry.entries[extension]? (.extensionNotFound extension)
  let requiredPermissions :=
    entry.requiredPermissions.filter fun stored => stored.permission ≠ permission
  let entries := stored.registry.entries.insert extension { entry with requiredPermissions }
  if requiredPermissions.length = entry.requiredPermissions.length then .ok stored
  else stored.commit serde write entries

end

end

end

end Stored

end

end KeyReader.Registry
