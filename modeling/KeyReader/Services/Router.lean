import KeyReader.Checked
import KeyReader.Extension.Protocol
import KeyReader.Machine
import Mathlib.Data.List.Infix
import Std.Data.ExtTreeMap

/-! Host-owned execution of storage and background-task effects. -/

namespace KeyReader.Services

open Extension Checked Machine Std

def invalidError (message : String) : ExtensionError := ⟨.invalidRequest, message, false⟩

def cancelledError : ExtensionError := ⟨.cancelled, "extension task was cancelled", false⟩

def areaKey : StorageArea → Nat
  | .settings => 0
  | .document => 1
  | .ephemeralCache => 2

instance ordAreaAndKey : Ord (Nat × String) := lexOrd

/-- The extension, the area and the key of a stored value. -/
abbrev StorageKey := ExtensionId × Nat × String

instance ordStorageKey : Ord StorageKey := lexOrd

instance transStorageKey : TransCmp (compare : StorageKey → StorageKey → Ordering) :=
  inferInstanceAs (TransOrd StorageKey)

/-- In-memory reference store. -/
structure MemoryExtensionStorage where
  values : ExtTreeMap StorageKey DataValue

def validateStorageKey (key : String) : Except ExtensionError Unit :=
  ensure (¬(key.isEmpty ∨ 256 < key.utf8ByteSize ∨ ¬key.toList.all (·.toNat < 128) ∨
      ['.'] <+: key.toList ∨ ['.', '.'] <:+: key.toList ∨
      key.toList.any fun c => c == '/' || c == '\\'))
    (invalidError "storage key is not a bounded logical key")

/-- What a stored value counts for against the quota. -/
def entrySize (key : String) (value : DataValue) : Nat :=
  saturatingAdd key.utf8ByteSize value.size

namespace MemoryExtensionStorage

def empty : MemoryExtensionStorage := ⟨∅⟩

section

variable (storage : MemoryExtensionStorage)

section

variable (extension : ExtensionId) (area : StorageArea)

section

variable (key : String)

def get : EffectResult := do
  validateStorageKey key
  .ok (storage.values[(extension, areaKey area, key)]?.getD .null)

/-- The bytes that an area would hold with `value` under `key`. -/
def nextBytes (value : DataValue) : Nat :=
  let currentBytes := (storage.values.toList.filterMap fun ((owner, storedArea, storedKey), stored) =>
    if owner = extension ∧ storedArea = areaKey area then some (entrySize storedKey stored)
    else none).foldl (· + ·) 0
  let previousBytes := storage.values[(extension, areaKey area, key)]?.elim 0 (entrySize key)
  saturatingAdd (saturatingAdd (currentBytes - previousBytes) key.utf8ByteSize) value.size

def put (value : DataValue) (quotaBytes : Nat) : EffectResult × MemoryExtensionStorage :=
  match validateStorageKey key with
  | .error error => (.error error, storage)
  | .ok () =>
    if quotaBytes < storage.nextBytes extension area key value then
      (.error ⟨.quotaExceeded, "extension storage would use " ++
        toString (storage.nextBytes extension area key value) ++ " bytes; quota is " ++
        toString quotaBytes, false⟩, storage)
    else (.ok .null, ⟨storage.values.insert (extension, areaKey area, key) value⟩)

def delete : EffectResult × MemoryExtensionStorage :=
  match validateStorageKey key with
  | .error error => (.error error, storage)
  | .ok () => (.ok .null, ⟨storage.values.erase (extension, areaKey area, key)⟩)

end

def clearArea :
    MemoryExtensionStorage :=
  ⟨storage.values.filter fun (owner, storedArea, _) _ =>
    owner != extension || storedArea != areaKey area⟩

end

def clearAll (area : StorageArea) : MemoryExtensionStorage :=
  ⟨storage.values.filter fun (_, storedArea, _) _ => storedArea != areaKey area⟩

end

end MemoryExtensionStorage

/-- The outcome of routing one effect. -/
inductive ServiceDispatch
  | immediate (result : EffectResult)
  | deferred
  | unsupported

/-- What a task's thread captures: the effect that started it and its invocation. -/
structure TaskThread where
  effect : ArbitratedEffect
  task : TaskId
  operation : String
  input : DataValue

/-- An entry for a running task.  The cancellation is the flag of the thread with this number. -/
structure ActiveTask where
  effect : ArbitratedEffect
  cancellation : Nat

instance ordOwnerAndName : Ord (String × String) := lexOrd

abbrev TaskKey := ExtensionId × String × String

instance ordTaskKey : Ord TaskKey := lexOrd

instance transTaskKey : TransCmp (compare : TaskKey → TaskKey → Ordering) :=
  inferInstanceAs (TransOrd TaskKey)

def taskKey (extension : ExtensionId) (task : TaskId) : TaskKey := (extension, task.owner, task.name)

/-- Semantic service router owned by the trusted host integration.  `threads` are the threads that
it has spawned, by their numbers, and `cancelled` those whose cancellation flag is set. -/
structure HostServiceRouter where
  storage : MemoryExtensionStorage
  handlers : List String
  activeTasks : ExtTreeMap TaskKey ActiveTask
  maximumActiveTasks : Nat
  threads : List TaskThread
  cancelled : List Nat

namespace HostServiceRouter

def new (storage : MemoryExtensionStorage) (handlers : List String) (maximumActiveTasks : Nat) :
    HostServiceRouter :=
  { storage, handlers, activeTasks := ∅, maximumActiveTasks := max maximumActiveTasks 1
    threads := [], cancelled := [] }

section

variable (router : HostServiceRouter)

section

variable (effect : ArbitratedEffect)

/-- Starts a task.  `spawn` is what the operating system answers to the start of the thread. -/
def startTask (task : TaskId) (operation : String) (input : DataValue)
    (spawn : Except String Unit) :
    ServiceDispatch × HostServiceRouter :=
  if router.maximumActiveTasks ≤ router.activeTasks.size then
    (.immediate (.error ⟨.quotaExceeded, "extension background-task limit reached", true⟩), router)
  else if router.activeTasks.contains (taskKey effect.extension task) then
    (.immediate (.error ⟨.conflict, "task ID is already active", false⟩), router)
  else if operation ∉ router.handlers then
    (.immediate (.error ⟨.capabilityUnavailable, "task operation \"" ++ operation ++
      "\" is not provided by this host", false⟩), router)
  else match spawn with
    | .error error => (.immediate (.error ⟨.temporarilyUnavailable,
        "could not start extension task: " ++ error, true⟩), router)
    | .ok () => (.deferred, { router with
        threads := router.threads ++ [{ effect, task, operation, input }]
        activeTasks := router.activeTasks.insert (taskKey effect.extension task)
          { effect, cancellation := router.threads.length } })

/-- A cancelled task goes on until its thread ends, with its entry. -/
def cancelTask (task : TaskId) : ServiceDispatch × HostServiceRouter :=
  match router.activeTasks[taskKey effect.extension task]? with
  | some active => (.immediate (.ok .null),
      { router with cancelled := router.cancelled ++ [active.cancellation] })
  | none => (.immediate (.ok .null), router)

def dispatch (storageQuota : Nat)
    (spawn : Except String Unit) : ServiceDispatch × HostServiceRouter :=
  match effect.request.effect with
  | .storageGet area key => (.immediate (router.storage.get effect.extension area key), router)
  | .storagePut area key value =>
    let (result, storage) := router.storage.put effect.extension area key value storageQuota
    (.immediate result, { router with storage })
  | .storageDelete area key =>
    let (result, storage) := router.storage.delete effect.extension area key
    (.immediate result, { router with storage })
  | .startTask task operation input => router.startTask effect task operation input spawn
  | .cancelTask task => router.cancelTask effect task
  | _ => (.unsupported, router)

end

/-- The tasks that a cancellation of an extension, or of all extensions, takes. -/
def taken (takes : TaskKey → Bool) : List Nat :=
  (router.activeTasks.toList.filter fun (key, _) => takes key).map (·.2.cancellation)

def cancelWhere (takes : TaskKey → Bool) : HostServiceRouter :=
  { router with
    cancelled := router.cancelled ++ router.taken takes
    activeTasks := router.activeTasks.filter fun key _ => !takes key }

def cancelExtension (extension : ExtensionId) : HostServiceRouter :=
  let router := router.cancelWhere fun key => key.1 == extension
  { router with storage := router.storage.clearArea extension .ephemeralCache }

def cancelAll : HostServiceRouter :=
  let router := router.cancelWhere fun _ => true
  { router with storage := router.storage.clearAll .ephemeralCache }

end

end HostServiceRouter

/-- What a thread sends when its task ends.  Only the sender's number is not part of it. -/
structure BackgroundCompletion where
  extension : ExtensionId
  task : TaskId
  effect : ArbitratedEffect
  result : EffectResult
  thread : Nat

/-- A background completion ready to be returned to the host. -/
structure ServiceCompletion where
  effect : ArbitratedEffect
  result : EffectResult

/-- One turn of the loop of `poll_ready`, with a completion that was received. -/
def HostServiceRouter.receive (router : HostServiceRouter) (completion : BackgroundCompletion) :
    Option ServiceCompletion × HostServiceRouter :=
  let key := taskKey completion.extension completion.task
  match router.activeTasks[key]? with
  | none => (none, router)
  | some active =>
    let router := { router with activeTasks := router.activeTasks.erase key }
    if active.effect.generation ≠ completion.effect.generation ∨
        active.effect.request.id ≠ completion.effect.request.id then (none, router)
    else (some ⟨completion.effect, completion.result⟩, router)

end KeyReader.Services
