import KeyReader.Extension.Wire
import KeyReader.Package.Loader

/-! The format of the extension registry: its limits, its errors, and the checks that an entry has to
pass before it is kept, whether it comes from the application or from the file. -/

namespace KeyReader.Registry

open Checked Extension Machine Package

def maxRegistryBytes : Nat := 1024 * 1024

def maxRegistryEntries : Nat := 512

def maxSourcePathBytes : Nat := 4096

def maxPermissionDecisions : Nat := 64

def maxPermissionDomains : Nat := 128

def maxSettingsBytes : Nat := 256 * 1024

def maxSettingsNodes : Nat := 4096

def maxSettingsDepth : Nat := 16

def sha256HexBytes : Nat := 64

def registrySchemaVersion : Nat := 1

inductive ExtensionRegistryError
  | invalidRegistryPath (reason : String)
  | registryTooLarge (bytes maximum : Nat)
  | tooManyEntries (count maximum : Nat)
  | unsupportedSchema (version : Nat)
  | duplicateExtension (extension : ExtensionId)
  | invalidSourcePath (reason : String)
  | invalidContentHash
  | tooManyPermissionDecisions (count maximum : Nat)
  | duplicatePermission
  | invalidPermission (reason : String)
  | invalidSettings (reason : String)
  | extensionNotFound (extension : ExtensionId)
  | atomicRollbackFailed (path : Bytes)
  | json
  | io (operation : String) (path : Bytes)
  deriving DecidableEq

abbrev Checks (α : Type) := Except ExtensionRegistryError α

/-- What is used of `serde_json`, and how other bytes than UTF-8 are shown. -/
structure SerdeJson where
  toVec : JsonValue → Bytes
  toVecPretty : JsonValue → Bytes
  toText : JsonValue → String
  fromSlice : Bytes → Option JsonValue
  fromUtf8Lossy : Bytes → String

inductive PathComponent
  | rootDir
  | curDir
  | parentDir
  | normal (name : Bytes)
  deriving DecidableEq

section

variable (path : Bytes)

def isAbsolute : Bool := path.head? = some 47

/-- `Path::components`: what follows the root, less the empty names and the single dots. -/
def pathComponents : List PathComponent :=
  let names := path.splitOn 47
  let start := if isAbsolute path then [.rootDir]
    else if names.head? = some [46] then [.curDir] else []
  start ++ (names.filter fun name => name ≠ [] ∧ name ≠ [46]).map fun name =>
    if name = [46, 46] then .parentDir else .normal name

/-- `Path::file_name` is there. -/
def hasFileName : Bool :=
  match (pathComponents path).getLast? with
  | some (.normal _) => true
  | _ => false

def validateRegistryPath : Checks Unit := do
  ensure (isAbsolute path) (.invalidRegistryPath "the registry path must be absolute")
  ensure (hasFileName path) (.invalidRegistryPath "the registry path must name a file")
  let text ← okOr (fromUtf8 path) (.invalidRegistryPath "the registry path must be valid UTF-8")
  ensure (text.utf8ByteSize ≤ maxSourcePathBytes)
    (.invalidRegistryPath "the registry path is too long")

def validateStoredSourcePath : Checks Unit := do
  ensure (isAbsolute path) (.invalidSourcePath "path must be absolute")
  let text ← okOr (fromUtf8 path) (.invalidSourcePath "path must be valid UTF-8")
  ensure (text.utf8ByteSize ≤ maxSourcePathBytes) (.invalidSourcePath "path is too long")
  ensure (!(pathComponents path).any fun part => part = .curDir || part = .parentDir)
    (.invalidSourcePath "path must not contain '.' or '..' components")

end

/-- `Path::to_string_lossy`. -/
def toStringLossy (serde : SerdeJson) (path : Bytes) : String :=
  (fromUtf8 path).getD (serde.fromUtf8Lossy path)

def validSegment (segment : List Char) : Bool :=
  segment.head?.any (fun c => 'a' ≤ c && c ≤ 'z') &&
    segment.tail.all (fun c => c.isLower || c.isDigit || c = '-') && segment.getLast? ≠ some '-'

/-- `ExtensionId::parse`. -/
def parseExtensionId (text : String) : Option ExtensionId :=
  let segments := text.toList.splitOn '.'
  if text.utf8ByteSize ≤ 255 ∧ 2 ≤ segments.length ∧ segments.all validSegment then some text
  else none

def validateContentHash (hash : String) : Checks Unit :=
  ensure (hash.utf8ByteSize = sha256HexBytes ∧
    hash.toList.all fun c => c.isDigit || ('a' ≤ c && c ≤ 'f')) .invalidContentHash

/-- `DomainPattern::is_canonical`. -/
def isCanonical (pattern : String) : Bool :=
  let text := pattern.toList
  let domain := if ['*', '.'].isPrefixOf text then text.drop 2 else text
  let labels := domain.splitOn '.'
  !domain.isEmpty && (String.ofList domain).utf8ByteSize ≤ 253 &&
    domain.all (fun c => c.toNat < 128) && domain = domain.map Char.toLower &&
    2 ≤ labels.length &&
    labels.all fun label =>
      !label.isEmpty && (String.ofList label).utf8ByteSize ≤ 63 && label.head? ≠ some '-' &&
        label.getLast? ≠ some '-' &&
        label.all fun c => c.isLower || c.isDigit || c = '-'

/-- The domains after the ones checked before. -/
def validateDomains : List String → List String → Checks Unit
  | _, [] => .ok ()
  | previous, domain :: domains => do
    ensure (isCanonical domain)
      (.invalidPermission ("network domain '" ++ domain ++ "' is not canonical"))
    ensure (!previous.contains domain)
      (.invalidPermission ("network domain '" ++ domain ++ "' is duplicated"))
    validateDomains (previous ++ [domain]) domains

def permissionDomains : Permission → Option (List String)
  | .network (.declaredDomains domains) => some domains
  | .network (.declaredAndUserApproved domains) => some domains
  | _ => none

def validatePermission (permission : Permission) : Checks Unit :=
  match permissionDomains permission with
  | none => .ok ()
  | some domains => do
    ensure (domains.length ≤ maxPermissionDomains)
      (.invalidPermission ("network scope has " ++ toString domains.length ++
        " domains; the maximum is " ++ toString maxPermissionDomains))
    validateDomains [] domains

inductive RequiredPermissionDecision
  | granted
  | denied
  deriving DecidableEq

structure StoredPermissionDecision where
  permission : Permission
  decision : RequiredPermissionDecision

def sortPermissionDecisions (serde : SerdeJson) (decisions : List StoredPermissionDecision) :
    List StoredPermissionDecision :=
  decisions.insertionSort fun left right =>
    serde.toText left.permission.toJson ≤ serde.toText right.permission.toJson

/-- The decisions after the ones checked before. -/
def checkDecisions : List StoredPermissionDecision → List StoredPermissionDecision → Checks Unit
  | _, [] => .ok ()
  | previous, stored :: decisions => do
    validatePermission stored.permission
    ensure (!previous.any fun other => other.permission = stored.permission) .duplicatePermission
    checkDecisions (previous ++ [stored]) decisions

def validatePermissionDecisions (serde : SerdeJson) (decisions : List StoredPermissionDecision) :
    Checks (List StoredPermissionDecision) := do
  ensure (decisions.length ≤ maxPermissionDecisions)
    (.tooManyPermissionDecisions decisions.length maxPermissionDecisions)
  checkDecisions [] decisions
  .ok (sortPermissionDecisions serde decisions)

def validRecordKey (key : String) : Bool :=
  !key.isEmpty && key.utf8ByteSize ≤ 128 &&
    key.toList.all fun c => c.isAlphanum || c = '-' || c = '_'

def enterNode (depth nodes : Nat) : Checks Nat := do
  ensure (depth ≤ maxSettingsDepth) (.invalidSettings "settings nesting is too deep")
  let nodes := saturatingAdd nodes 1
  ensure (nodes ≤ maxSettingsNodes) (.invalidSettings "settings contain too many values")
  .ok nodes

mutual

/-- `visit` of `validate_settings`. -/
def visitSettings : DataValue → Nat → Nat → Checks Nat
  | .string value, depth, nodes => do
    let nodes ← enterNode depth nodes
    ensure (value.utf8ByteSize ≤ maxSettingsBytes) (.invalidSettings "a settings string is too large")
    .ok nodes
  | .list values, depth, nodes => do
    let nodes ← enterNode depth nodes
    visitSettingsList values (depth + 1) nodes
  | .record fields, depth, nodes => do
    let nodes ← enterNode depth nodes
    visitSettingsFields fields (depth + 1) nodes
  | .null, depth, nodes => enterNode depth nodes
  | .boolean _, depth, nodes => enterNode depth nodes
  | .integer _, depth, nodes => enterNode depth nodes
  | .number _, depth, nodes => enterNode depth nodes

def visitSettingsList : List DataValue → Nat → Nat → Checks Nat
  | [], _, nodes => .ok nodes
  | value :: values, depth, nodes => do
    let nodes ← visitSettings value depth nodes
    visitSettingsList values depth nodes

def visitSettingsFields : List (String × DataValue) → Nat → Nat → Checks Nat
  | [], _, nodes => .ok nodes
  | (key, value) :: fields, depth, nodes => do
    ensure (validRecordKey key) (.invalidSettings "settings contain an invalid record key")
    let nodes ← visitSettings value depth nodes
    visitSettingsFields fields depth nodes

end

def isRecord : DataValue → Bool
  | .record _ => true
  | _ => false

def validateSettings (serde : SerdeJson) : Option DataValue → Checks (Option DataValue)
  | none => .ok none
  | some settings => do
    let encoded := serde.toVec settings.toJson
    ensure (encoded.length ≤ maxSettingsBytes)
      (.invalidSettings ("settings use " ++ toString encoded.length ++
        " encoded bytes; the maximum is " ++ toString maxSettingsBytes))
    let _nodes ← visitSettings settings 0 0
    ensure (isRecord settings) (.invalidSettings "settings root must be a record")
    .ok (some settings)

end KeyReader.Registry
