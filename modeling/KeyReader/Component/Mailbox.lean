import KeyReader.Compaction
import KeyReader.Extension.Host

/-! The mailbox between the host and the worker thread of a WebAssembly component: commands one way,
results the other, both bounded, and two epochs that make what was sent before them stale. -/

namespace KeyReader.Component

open Machine Extension Compaction

/-- A call of the host that the mailbox has accepted.  The calls are not part of the source, where
nothing counts them: a command and its result carry the number of their call. -/
inductive Call
  | activate
  | event (envelope : EventEnvelope)
  | cancel
  | suspend
  | resume
  | unload

inductive WorkerCommand
  | activate (call lifecycle : Nat) (hostGeneration : GenerationId) (context : ActivationContext)
  | event (call lifecycle work : Nat) (hostGeneration : GenerationId) (event : EventEnvelope)
  | suspend (call lifecycle work : Nat)
  | resume (call lifecycle : Nat) (hostGeneration : GenerationId) (context : ActivationContext)
  | unload (call lifecycle : Nat)

namespace WorkerCommand

def call : WorkerCommand → Nat
  | .activate call .. | .event call .. | .suspend call .. | .resume call .. | .unload call _ => call

def lifecycle : WorkerCommand → Nat
  | .activate _ lifecycle .. | .event _ lifecycle .. | .suspend _ lifecycle _
  | .resume _ lifecycle .. | .unload _ lifecycle => lifecycle

def work : WorkerCommand → Option Nat
  | .event _ _ work .. | .suspend _ _ work => some work
  | .activate .. | .resume .. | .unload .. => none

def isEvent : WorkerCommand → Bool
  | .event .. => true
  | _ => false

def isUnload : WorkerCommand → Bool
  | .unload .. => true
  | _ => false

end WorkerCommand

inductive CoalescingKey
  | snapshot (kind : SnapshotKind)
  | capabilities
  deriving DecidableEq

def eventCoalescingKey : ExtensionEvent → Option CoalescingKey
  | .snapshotChanged snapshot _ => some (.snapshot snapshot)
  | .capabilitiesChanged _ => some .capabilities
  | _ => none

def WorkerCommand.coalescingKey : WorkerCommand → Option CoalescingKey
  | .event _ _ _ _ envelope => eventCoalescingKey envelope.event
  | _ => none

def trailingCommandMatch (commands : List WorkerCommand) (lifecycle work : Nat)
    (key : CoalescingKey) : Option Nat :=
  trailingMatch (fun command => command.lifecycle = lifecycle && command.work = some work &&
      command.coalescingKey.isSome)
    (fun command => command.coalescingKey = some key) commands

structure WorkerResult where
  call : Nat
  lifecycle : Nat
  work : Option Nat
  update : DeferredNativeUpdate

/-- Only the result of an event that asks for no effect may be replaced. -/
def WorkerResult.coalescingKey (result : WorkerResult) : Option CoalescingKey :=
  match result.update.result with
  | .error _ => none
  | .ok update =>
    if update.effects.isEmpty then
      match result.update.call with
      | .event envelope => eventCoalescingKey envelope.event
      | _ => none
    else none

def trailingResultMatch (results : List WorkerResult) (incoming : WorkerResult)
    (key : CoalescingKey) : Option Nat :=
  trailingMatch
    (fun result => result.lifecycle = incoming.lifecycle && result.work = incoming.work &&
      result.coalescingKey.isSome)
    (fun result => result.coalescingKey = some key) results

def escapedStringBound (value : String) : Nat :=
  saturatingAdd (min (value.utf8ByteSize * 6) u64Max) 2

def nodeOverhead : Nat := 64

mutual

def retainedValueBytes : DataValue → Nat
  | .string value => saturatingAdd nodeOverhead (escapedStringBound value)
  | .list values => retainedListBytes nodeOverhead values
  | .record fields => retainedFieldsBytes nodeOverhead fields
  | .null | .boolean _ | .integer _ | .number _ => nodeOverhead

def retainedListBytes : Nat → List DataValue → Nat
  | total, [] => total
  | total, value :: values => retainedListBytes (saturatingAdd total (retainedValueBytes value)) values

def retainedFieldsBytes : Nat → List (String × DataValue) → Nat
  | total, [] => total
  | total, (key, value) :: fields =>
    retainedFieldsBytes
      (saturatingAdd (saturatingAdd total (escapedStringBound key)) (retainedValueBytes value)) fields

end

/-- The bytes of an id as text, with the slash between its two parts. -/
def namespacedBytes (id : NamespacedId) : Nat := id.owner.utf8ByteSize + 1 + id.name.utf8ByteSize

def retainedScopeBytes : CapabilityScope → Nat
  | .domains domains => domains.foldl (fun total domain =>
      saturatingAdd (saturatingAdd total 16) domain.utf8ByteSize) 0
  | .application | .activeDocument | .documentSet | .namespacedStorage _ => 32

def retainedGrantBytes (bytes : Nat) (grant : CapabilityGrant) : Nat :=
  saturatingAdd (saturatingAdd (saturatingAdd (saturatingAdd bytes 256)
    grant.extension.utf8ByteSize) grant.capability.utf8ByteSize) (retainedScopeBytes grant.scope)

/-- An upper estimate of the JSON of an event. -/
def retainedEventBytes (envelope : EventEnvelope) : Nat :=
  let bytes := match envelope.source with
    | .extension extension => saturatingAdd 512 extension.utf8ByteSize
    | .host => 512
  match envelope.event with
  | .lifecycle (.suspended reason) => saturatingAdd bytes (escapedStringBound reason)
  | .lifecycle (.settingsChanged keys) => keys.foldl (fun bytes key =>
      saturatingAdd (saturatingAdd bytes 16) (escapedStringBound key)) bytes
  | .lifecycle _ => bytes
  | .commandInvoked command payload =>
    saturatingAdd (saturatingAdd bytes (namespacedBytes command)) (retainedValueBytes payload)
  | .capabilitiesChanged snapshot =>
    snapshot.missingOptional.foldl (fun bytes capability =>
      saturatingAdd (saturatingAdd bytes 64) capability.utf8ByteSize)
      (snapshot.granted.foldl retainedGrantBytes bytes)
  | .snapshotChanged _ value => saturatingAdd bytes (retainedValueBytes value)
  | .custom event payload =>
    saturatingAdd (saturatingAdd bytes (namespacedBytes event)) (retainedValueBytes payload)
  | .effectCompleted effect result =>
    saturatingAdd (saturatingAdd bytes (namespacedBytes effect)) (match result with
      | .ok value => retainedValueBytes value
      | .error error => saturatingAdd (escapedStringBound error.message) 64)
  | .taskCancelled task reason =>
    saturatingAdd (saturatingAdd bytes (namespacedBytes task)) (escapedStringBound reason)

structure MailboxState where
  lifecycle : Nat
  work : Nat
  commands : List WorkerCommand
  results : List WorkerResult
  inFlight : Nat
  maximumPendingEvents : Nat
  maximumPendingResults : Nat
  maximumInputBytes : Nat
  closed : Bool
  workerAlive : Bool
  calls : List Call

/-- The limits that the configuration of the runtime has validated. -/
structure WasmRuntimeLimits where
  maximumPendingEvents : Nat
  maximumPendingResults : Nat
  maximumInputBytes : Nat
  positive : 0 < maximumPendingEvents ∧ 0 < maximumPendingResults ∧ 0 < maximumInputBytes

def MailboxState.new (limits : WasmRuntimeLimits) : MailboxState where
  lifecycle := 0
  work := 0
  commands := []
  results := []
  inFlight := 0
  maximumPendingEvents := limits.maximumPendingEvents
  maximumPendingResults := limits.maximumPendingResults
  maximumInputBytes := limits.maximumInputBytes
  closed := false
  workerAlive := true
  calls := []

def unavailable (message : String) : ExtensionError := ⟨.conflict, message, true⟩

def workerClosed : ExtensionError := unavailable "WebAssembly component worker is closed"

def quotaExceeded (message : String) (retryable : Bool) : ExtensionError :=
  ⟨.quotaExceeded, message, retryable⟩

namespace MailboxState

section

variable (mailbox : MailboxState)

def next : Nat := mailbox.calls.length

def accept (call : Call) : MailboxState :=
  { mailbox with calls := mailbox.calls ++ [call] }

def push (command : WorkerCommand) : MailboxState :=
  { mailbox with commands := mailbox.commands ++ [command] }

def pendingEvents : Nat :=
  (mailbox.commands.filter WorkerCommand.isEvent).length

def enqueueEvent (hostGeneration : GenerationId) (event : EventEnvelope) :
    Except ExtensionError MailboxState :=
  if mailbox.closed then .error workerClosed
  else if mailbox.maximumInputBytes < retainedEventBytes event then
    .error (quotaExceeded ("WebAssembly event requires approximately " ++
      toString (retainedEventBytes event) ++ " bytes; input limit is " ++
      toString mailbox.maximumInputBytes ++ " bytes") false)
  else
    let command := .event mailbox.next mailbox.lifecycle mailbox.work hostGeneration event
    match (eventCoalescingKey event.event).bind
        (trailingCommandMatch mailbox.commands mailbox.lifecycle mailbox.work) with
    | some index =>
      .ok (({ mailbox with commands := mailbox.commands.eraseIdx index }.push command).accept
        (.event event))
    | none =>
      if mailbox.maximumPendingEvents ≤ mailbox.pendingEvents then
        .error (quotaExceeded ("WebAssembly event mailbox reached its " ++
          toString mailbox.maximumPendingEvents ++ " event limit") true)
      else .ok ((mailbox.push command).accept (.event event))

/-- What `begin_lifecycle` and `close_without_waiting` begin with. -/
def clear : MailboxState :=
  { mailbox with
    lifecycle := saturatingAdd mailbox.lifecycle 1
    work := saturatingAdd mailbox.work 1
    commands := []
    results := [] }

/-- `begin_lifecycle` of an open mailbox. -/
def beginLifecycle (context : ActivationContext) : MailboxState :=
  let cleared := mailbox.clear
  (cleared.push (.activate mailbox.next cleared.lifecycle context.generation context)).accept
    .activate

/-- `cancel_event_generation` of an open mailbox. -/
def cancelEventGeneration (enqueueSuspend : Bool) : MailboxState :=
  let work := saturatingAdd mailbox.work 1
  let cancelled := { mailbox with
    work
    commands := mailbox.commands.filter (!·.isEvent)
    results := mailbox.results.filter (·.work.isNone) }
  if enqueueSuspend then
    (cancelled.push (.suspend mailbox.next mailbox.lifecycle work)).accept .suspend
  else cancelled.accept .cancel

/-- What `resume` does to an open mailbox. -/
def enqueueResume (context : ActivationContext) : MailboxState :=
  (mailbox.push (.resume mailbox.next mailbox.lifecycle context.generation context)).accept .resume

def close : MailboxState :=
  let cleared := mailbox.clear
  ({ cleared with closed := true }.push (.unload mailbox.next cleared.lifecycle)).accept .unload

def isCurrent (result : WorkerResult) : Bool :=
  result.lifecycle = mailbox.lifecycle && result.work.all (· = mailbox.work)

/-- The loop of `drain_deferred_updates`. -/
def drainFrom (isCurrent : WorkerResult → Bool) :
    Nat → List WorkerResult → List WorkerResult × List WorkerResult
  | _, [] => ([], [])
  | 0, results => ([], results)
  | maximum + 1, result :: results =>
    if isCurrent result then
      let (updates, rest) := drainFrom isCurrent maximum results
      (result :: updates, rest)
    else drainFrom isCurrent (maximum + 1) results

def drain (maximum : Nat) : List WorkerResult × MailboxState :=
  let (updates, results) := drainFrom mailbox.isCurrent maximum mailbox.results
  (updates, { mailbox with results })

def pendingDeferredWork : Nat :=
  if mailbox.workerAlive then
    saturatingAdd (saturatingAdd mailbox.commands.length mailbox.results.length) mailbox.inFlight
  else 0

/-- A command is taken, and the rest stays. -/
def take (commands : List WorkerCommand) : MailboxState :=
  { mailbox with commands, inFlight := saturatingAdd mailbox.inFlight 1 }

def lower : MailboxState :=
  { mailbox with inFlight := mailbox.inFlight - 1 }

/-- The end of the worker. -/
def leave : MailboxState :=
  { mailbox with workerAlive := false, commands := [], inFlight := 0 }

section

variable (result : WorkerResult)

/-- The place of the result that an incoming one replaces. -/
def replaced : Option Nat :=
  result.coalescingKey.bind (trailingResultMatch mailbox.results result)

/-- The first part of `retain_worker_result`. -/
def coalesce : Option MailboxState :=
  (mailbox.replaced result).map fun index =>
    { mailbox with results := mailbox.results.eraseIdx index ++ [result] }

/-- The condition under which the worker waits for room. -/
def mustWait : Bool :=
  mailbox.maximumPendingResults ≤ mailbox.results.length && mailbox.isCurrent result &&
    !mailbox.closed

/-- The last part of `retain_worker_result`. -/
def retain : MailboxState :=
  if mailbox.isCurrent result && !mailbox.closed then
    { mailbox with results := mailbox.results ++ [result] }
  else mailbox

end

end

end MailboxState

def notActivated : ExtensionError := unavailable "WebAssembly component has not activated"

def workerPanicked : ExtensionError := ⟨.internal, "WebAssembly component worker panicked", false⟩

/-- What the code of a component does in a call: it returns, or it panics. -/
abbrev Answer := Option (Except ExtensionError ExtensionUpdate)

/-- The result of the calls that return no update. -/
def Answer.unit (answer : Answer) : Except ExtensionError ExtensionUpdate :=
  match answer with
  | some (.ok _) => .ok .default
  | some (.error error) => .error error
  | none => .error workerPanicked

/-- `execute_worker_command` with `panic_result`: the result of a command, and whether there is an
instance of the component afterwards. -/
def executeWorkerCommand (loaded : Bool) (command : WorkerCommand) (answer : Answer) :
    Option WorkerResult × Bool :=
  match command with
  | .activate call lifecycle hostGeneration context =>
    (some ⟨call, lifecycle, none, hostGeneration, .activation context.cause, answer.unit⟩,
      answer.unit.toBool)
  | .event call lifecycle work hostGeneration event =>
    let result := if loaded then answer.getD (.error workerPanicked) else .error notActivated
    (some ⟨call, lifecycle, some work, hostGeneration, .event event, result⟩, loaded)
  | .suspend .. => (none, loaded)
  | .resume call lifecycle hostGeneration context =>
    let result := if loaded then answer.unit else .error notActivated
    (some ⟨call, lifecycle, none, hostGeneration, .resume context.cause, result⟩, loaded)
  | .unload .. => (none, false)

end KeyReader.Component
