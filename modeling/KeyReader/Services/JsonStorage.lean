import KeyReader.Services.Router
import Mathlib.Logic.Function.Basic

/-! The storage of extensions in the app's data: settings and document values in one file for each
extension, and ephemeral values in memory. -/

namespace KeyReader.Services

open Extension Checked Std

def internalError (message : String) : ExtensionError := ⟨.internal, message, true⟩

def quotaError (message : String) : ExtensionError := ⟨.quotaExceeded, message, false⟩

def schemaVersion : Nat := 1

def maxFileBytes : Nat := 16777216

def maxTempFileAttempts : Nat := 32

/-- The segments of a path below the root of the storage. -/
abbrev StoragePath := List String

/-- The file of an extension. -/
structure StoredValues where
  schemaVersion : Nat
  values : ExtTreeMap String DataValue

/-- `serde_json` on stored values. -/
class StorageJson where
  encode : StoredValues → Except String (List UInt8)
  decode : List UInt8 → Except String StoredValues

/-- What the operating system answers to the creation of a temporary file. -/
inductive Creation
  | created
  | alreadyExists
  | failed (error : String)

/-- What a call meets: locks that are poisoned, and what the operating system answers to each of its
requests, where `none` is a success.  `sequence` are the numbers of the temporary files. -/
structure Answers where
  selectionPoisoned : Bool
  statePoisoned : Bool
  ioPoisoned : Bool
  readMetadata : Option String
  openFile : Option String
  read : Option String
  createDirectory : Option String
  creation : Nat → Creation
  sequence : Nat → Nat
  write : Option String
  sync : Option String
  rename : Option String

/-- What the stores of all windows share. -/
structure SharedExtensionStorage where
  root : String
  files : StoragePath → Option (List UInt8)
  ephemeral : ExtTreeMap (ExtensionId × String) DataValue

namespace SharedExtensionStorage

def display (storage : SharedExtensionStorage) (path : StoragePath) : String :=
  "/".intercalate (storage.root :: path)

def ioError (storage : SharedExtensionStorage) (operation : String) (path : StoragePath)
    (error : String) : ExtensionError :=
  internalError ("could not " ++ operation ++ " " ++ storage.display path ++ ": " ++ error)

/-- A request to the operating system. -/
def request (storage : SharedExtensionStorage) (operation : String) (path : StoragePath)
    (answer : Option String) : Except ExtensionError Unit :=
  answer.elim (.ok ()) fun error => .error (storage.ioError operation path error)

def path (document : Option String) (extension : ExtensionId) (area : StorageArea) :
    Except ExtensionError StoragePath :=
  match area with
  | .settings => .ok ["settings", extension ++ ".json"]
  | .document => do
    let document ← okOr document ⟨.staleResource, "no active document storage namespace", false⟩
    .ok ["documents", document, extension ++ ".json"]
  | .ephemeralCache => .error (invalidError "ephemeral storage has no disk path")

variable [StorageJson]

/-- The decisions of `load` on the bytes of a file. -/
def decode (bytes : List UInt8) : Except ExtensionError (ExtTreeMap String DataValue) := do
  let stored ← (StorageJson.decode bytes).mapError fun error =>
    invalidError ("stored extension data is invalid: " ++ error)
  ensure (stored.schemaVersion = schemaVersion) (invalidError
    ("unsupported extension storage schema " ++ toString stored.schemaVersion))
  .ok stored.values

section

variable (storage : SharedExtensionStorage) (answers : Answers)

section

variable (path : StoragePath)

/-- A file that is not there holds nothing. -/
def load : Except ExtensionError (ExtTreeMap String DataValue) := do
  storage.request "read metadata" path answers.readMetadata
  match storage.files path with
  | none => .ok ∅
  | some bytes =>
    ensure (bytes.length ≤ maxFileBytes)
      (quotaError "stored extension data exceeds the host file limit")
    storage.request "open" path answers.openFile
    storage.request "read" path answers.read
    let bytes := bytes.take (maxFileBytes + 1)
    ensure (bytes.length ≤ maxFileBytes)
      (quotaError "stored extension data exceeds the host file limit")
    decode bytes

def temporaryName (sequence : Nat) : String :=
  let digits := String.ofList (Nat.toDigits 16 sequence)
  ".key-extension-" ++ "".pushn '0' (16 - digits.length) ++ digits ++ ".tmp"

/-- The loop of `atomic_write` over its attempts. -/
def atomicWriteFrom (storage : SharedExtensionStorage) (answers : Answers) (path : StoragePath) :
    Nat → Nat → Except ExtensionError Unit
  | 0, _ => .error ⟨.temporarilyUnavailable,
      "could not allocate an extension storage temporary file", true⟩
  | attempts + 1, attempt =>
    let temporary := path.dropLast ++ [temporaryName (answers.sequence attempt)]
    match answers.creation attempt with
    | .alreadyExists => storage.atomicWriteFrom answers path attempts (attempt + 1)
    | .failed error => .error (storage.ioError "create temporary file" temporary error)
    | .created => do
      storage.request "write temporary file" temporary answers.write
      storage.request "sync temporary file" temporary answers.sync
      storage.request "replace extension storage" path answers.rename

/-- The file is replaced by the last request, if all succeed. -/
def atomicWrite : Except ExtensionError Unit := do
  storage.request "create directory" path.dropLast answers.createDirectory
  storage.atomicWriteFrom answers path maxTempFileAttempts 0

/-- The bytes that are written. -/
def save (values : ExtTreeMap String DataValue) (quotaBytes : Nat) :
    Except ExtensionError (List UInt8) := do
  let bytes ← (StorageJson.encode { schemaVersion, values }).mapError fun error =>
    internalError ("could not encode extension storage: " ++ error)
  ensure (¬(maxFileBytes < bytes.length ∨ quotaBytes < bytes.length)) (quotaError
    ("encoded extension storage uses " ++ toString bytes.length ++ " bytes; quota is " ++
      toString quotaBytes))
  storage.atomicWrite answers path
  .ok bytes

end

section

variable (document : Option String) (extension : ExtensionId) (area : StorageArea)

/-- The new content of a file, in which some values change. -/
def planUpdate (quotaBytes : Nat)
    (change : ExtTreeMap String DataValue → ExtTreeMap String DataValue) :
    Except ExtensionError (StoragePath × List UInt8) := do
  ensure (¬answers.ioPoisoned) (internalError "extension storage I/O lock is poisoned")
  let path ← path document extension area
  let values ← storage.load answers path
  let bytes ← storage.save answers path (change values) quotaBytes
  .ok (path, bytes)

/-- The part of `put` and `delete` about the areas on disk. -/
def update (storage : SharedExtensionStorage) (answers : Answers) (document : Option String)
    (extension : ExtensionId) (area : StorageArea) (quotaBytes : Nat)
    (change : ExtTreeMap String DataValue → ExtTreeMap String DataValue) :
    EffectResult × SharedExtensionStorage :=
  match storage.planUpdate answers document extension area quotaBytes change with
  | .error error => (.error error, storage)
  | .ok (path, bytes) =>
    (.ok .null, { storage with files := Function.update storage.files path (some bytes) })

/-- The bytes that an extension's ephemeral values count for. -/
def ephemeralBytes (ephemeral : ExtTreeMap (ExtensionId × String) DataValue)
    (extension : ExtensionId) : Nat :=
  (ephemeral.toList.filterMap fun ((owner, key), value) =>
    if owner = extension then some (entrySize key value) else none).foldl (· + ·) 0

/-- The part of `put` about the values in memory: the value is put, and removed if it is too much. -/
def putEphemeral (key : String) (value : DataValue)
    (quotaBytes : Nat) : EffectResult × SharedExtensionStorage :=
  if answers.statePoisoned then
    (.error (internalError "extension storage lock is poisoned"), storage)
  else
    let ephemeral := storage.ephemeral.insert (extension, key) value
    if quotaBytes < ephemeralBytes ephemeral extension then
      (.error (quotaError "ephemeral extension storage quota exceeded"),
        { storage with ephemeral := ephemeral.erase (extension, key) })
    else (.ok .null, { storage with ephemeral })

def put (key : String) (value : DataValue)
    (quotaBytes : Nat) : EffectResult × SharedExtensionStorage :=
  match validateStorageKey key with
  | .error error => (.error error, storage)
  | .ok () =>
    if area = .ephemeralCache then storage.putEphemeral answers extension key value quotaBytes
    else storage.update answers document extension area quotaBytes (·.insert key value)

def delete (key : String) : EffectResult × SharedExtensionStorage :=
  match validateStorageKey key with
  | .error error => (.error error, storage)
  | .ok () =>
    if area = .ephemeralCache then
      if answers.statePoisoned then
        (.error (internalError "extension storage lock is poisoned"), storage)
      else (.ok .null, { storage with ephemeral := storage.ephemeral.erase (extension, key) })
    else storage.update answers document extension area maxFileBytes (·.erase key)

end

end

end SharedExtensionStorage

/-- Persistent namespaced extension storage with the document that is selected. -/
structure JsonExtensionStorage where
  shared : SharedExtensionStorage
  document : Option String

namespace JsonExtensionStorage

variable [StorageJson]

def selectedDocument (storage : JsonExtensionStorage) (answers : Answers) :
    Except ExtensionError (Option String) :=
  if answers.selectionPoisoned then .error (internalError "extension storage lock is poisoned")
  else .ok storage.document

def call (storage : JsonExtensionStorage) (answers : Answers)
    (run : Option String → EffectResult × SharedExtensionStorage) :
    EffectResult × JsonExtensionStorage :=
  match storage.selectedDocument answers with
  | .error error => (.error error, storage)
  | .ok document =>
    let (result, shared) := run document
    (result, { storage with shared })

def put (storage : JsonExtensionStorage) (answers : Answers) (extension : ExtensionId)
    (area : StorageArea) (key : String) (value : DataValue) (quotaBytes : Nat) :
    EffectResult × JsonExtensionStorage :=
  storage.call answers fun document =>
    storage.shared.put answers document extension area key value quotaBytes

def delete (storage : JsonExtensionStorage) (answers : Answers) (extension : ExtensionId)
    (area : StorageArea) (key : String) : EffectResult × JsonExtensionStorage :=
  storage.call answers fun document => storage.shared.delete answers document extension area key

end JsonExtensionStorage

/-- `register_task_handler`, on the handlers of a router by their operations. -/
def registerTaskHandler {H : Type} (handlers : ExtTreeMap String H) (operation : String)
    (handler : H) : Except ExtensionError Unit × ExtTreeMap String H :=
  if operation.isEmpty ∨ 128 < operation.utf8ByteSize ∨ ¬operation.toList.all (·.toNat < 128) then
    (.error (invalidError "task operation must be bounded ASCII"), handlers)
  else if handlers.contains operation then
    (.error ⟨.conflict, "task operation is already registered", false⟩,
      handlers.insert operation handler)
  else (.ok (), handlers.insert operation handler)

end KeyReader.Services
