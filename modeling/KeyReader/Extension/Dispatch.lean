import KeyReader.Extension.Arbitration

/-! A tick of the host: the results of background adapters, then the queued events. -/

namespace KeyReader.Extension

open Machine

structure TickReport where
  tick : Nat
  processedEvents : Nat
  deferredEvents : Nat
  droppedEvents : Nat
  effects : List AcceptedEffect

def eventIsMandatory : ExtensionEvent → Bool
  | .lifecycle _ => true
  | .effectCompleted _ _ => true
  | _ => false

def subscriptionMatches : EventSubscription → ExtensionEvent → Bool
  | .lifecycle, .lifecycle _ => true
  | .commands, .commandInvoked _ _ => true
  | .capabilities, .capabilitiesChanged _ => true
  | .effectResults, .effectCompleted _ _ => true
  | .snapshot expected, .snapshotChanged snapshot _ => expected = snapshot
  | .custom expected, .custom event _ => expected = event
  | _, _ => false

/-- Whether an extension with these subscriptions is called for an event. -/
def receives (subscriptions : List EventSubscription) (event : ExtensionEvent) : Bool :=
  eventIsMandatory event || subscriptions.any (subscriptionMatches · event)

def ExtensionEvent.isCommand : ExtensionEvent → Bool
  | .commandInvoked _ _ => true
  | _ => false

def snapshotStateUpdate (envelope : EventEnvelope) : Option (SnapshotKind × DataValue) :=
  match envelope.source, envelope.event with
  | .host, .snapshotChanged snapshot value => some (snapshot, value)
  | _, _ => none

/-- The events that a tick dispatches, at most `budget`, and those that stay in the queue. -/
def selectEvents (tick : Nat) : Nat → List QueuedEvent → List QueuedEvent × List QueuedEvent
  | _, [] => ([], [])
  | budget, event :: events =>
    if event.eligibleTick ≤ tick ∧ 0 < budget then
      let (selected, kept) := selectEvents tick (budget - 1) events
      (event :: selected, kept)
    else
      let (selected, kept) := selectEvents tick budget events
      (selected, event :: kept)

namespace ExtensionHost

variable {G : Type} [Platform] [NativeExtension G]

section

variable (host : ExtensionHost G)

def pendingEventCount : Nat :=
  saturatingAdd host.queue.length ((host.runtimes.toList.filterMap fun (_, runtime) =>
    runtime.guest.map NativeExtension.pendingDeferredWork).foldl (· + ·) 0)

section

variable (extension : ExtensionId)

def replaceSnapshotState (key : String) (value : DataValue) : ExtensionHost G :=
  if ¬valueIsBounded value host.config.validationLimits then
    host.recordViolation extension "snapshot state exceeded host bounds"
  else match host.runtimes[extension]? with
    | none => host
    | some runtime =>
      let state := Assoc.insert key value runtime.state
      if stateIsBounded state host.config.validationLimits then
        host.setRuntime extension { runtime with state }
      else
        let state := match Assoc.get key runtime.state with
          | some previous => Assoc.insert key previous state
          | none => Assoc.remove key state
        (host.setRuntime extension { runtime with state }).recordViolation extension
          "snapshot state exceeded host bounds"

def applySnapshot (envelope : EventEnvelope) :
    ExtensionHost G :=
  match snapshotStateUpdate envelope with
  | some (snapshot, value) =>
    host.replaceSnapshotState extension (snapshotNamespace snapshot) value
  | none => host

/-- The end of the handling of an event, on the inline and on the deferred path: the behaviors, the
arbitration and the snapshot. -/
def applyUpdate (generation : GenerationId) (envelope : EventEnvelope)
    (behaviors : List CommandBehavior) (update : ExtensionUpdate)
    (accepted : List AcceptedEffect) : ExtensionHost G × List AcceptedEffect :=
  let (update, host) := host.mergeCommandBehaviors extension envelope behaviors update
  let (host, accepted) := host.arbitrateUpdateInternal extension generation envelope.cause update
    accepted envelope.event.isCommand
  (host.applySnapshot extension envelope, accepted)

/-- The loop of `drain_deferred_adapter_updates`. -/
def drainFrom : List ExtensionId → Nat → ExtensionHost G →
    List (ExtensionId × DeferredNativeUpdate) × ExtensionHost G
  | [], _, host => ([], host)
  | extension :: extensions, remaining, host =>
    match host.runtimes[extension]? with
    | none => drainFrom extensions remaining host
    | some runtime =>
      match runtime.guest with
      | none => drainFrom extensions remaining host
      | some guest =>
        if NativeExtension.updateDelivery guest ≠ .deferred then
          drainFrom extensions remaining host
        else
          let (updates, guest) := NativeExtension.drainDeferredUpdates guest remaining
          let host := host.setRuntime extension { runtime with guest := some guest }
          let remaining := remaining - updates.length
          let (completed, host) := if remaining = 0 then ([], host)
            else drainFrom extensions remaining host
          (updates.map (extension, ·) ++ completed, host)

def drainDeferredAdapterUpdates : List (ExtensionId × DeferredNativeUpdate) × ExtensionHost G :=
  if host.config.maximumEventsPerTick = 0 then ([], host)
  else drainFrom host.runtimes.keys host.config.maximumEventsPerTick host

def transitionOrIgnore (target : LifecycleState) : ExtensionHost G :=
  match host.transition extension target with
  | .ok host => host
  | .error _ => host

def removeRuntime : ExtensionHost G :=
  { host with runtimes := host.runtimes.erase extension }

def failDeferredRuntime : ExtensionHost G :=
  ((host.dropWork extension).removeRuntime extension).transitionOrIgnore extension .failed
    |>.reconcileActiveCapabilities |>.broadcastCapabilityChanges

/-- The result of a deferred `activate` or `resume`. -/
def applyDeferredStart (generation : GenerationId) (cause : CauseContext)
    (result : Except ExtensionError ExtensionUpdate) (report : TickReport) :
    ExtensionHost G × TickReport :=
  match result with
  | .ok update =>
    if host.state extension = some .active then
      let (host, effects) := host.arbitrateUpdate extension generation cause update report.effects
      (host, { report with effects })
    else (host, report)
  | .error _ =>
    if host.state extension ∈ [some .active, some .suspended] then
      (host.failDeferredRuntime extension,
        { report with droppedEvents := report.droppedEvents + 1 })
    else (host, report)

/-- The result of a deferred `handle_event`. -/
def applyDeferredEvent (generation : GenerationId) (envelope : EventEnvelope)
    (result : Except ExtensionError ExtensionUpdate) (report : TickReport) :
    ExtensionHost G × TickReport :=
  if host.state extension ≠ some .active then (host, report)
  else
    let behaviors := host.commandBehaviorsForEvent extension envelope
    let (update, host) := match result with
      | .ok update => (update, host)
      | .error _ => (.default, host.recordViolation extension
          "deferred extension event handler returned an error")
    if host.state extension ≠ some .active then (host, report)
    else
      let (host, effects) := host.applyUpdate extension generation envelope behaviors update
        report.effects
      (host, { report with effects })

def applyDeferredAdapterUpdate (turn : ExtensionHost G × TickReport)
    (completed : ExtensionId × DeferredNativeUpdate) : ExtensionHost G × TickReport :=
  let (host, report) := turn
  let (extension, completed) := completed
  match host.runtimes[extension]? with
  | none => (host, report)
  | some runtime =>
    if runtime.generation ≠ completed.generation then (host, report)
    else match completed.call with
      | .activation cause | .resume cause =>
        host.applyDeferredStart extension runtime.generation cause completed.result report
      | .event envelope =>
        host.applyDeferredEvent extension runtime.generation envelope completed.result report

/-- The call of `handle_event`, with its result and how it is delivered. -/
def callGuest (runtime : ActiveRuntime G) (envelope : EventEnvelope) :
    Option (Except ExtensionError ExtensionUpdate) × UpdateDelivery × ExtensionHost G :=
  match runtime.guest with
  | none => (none, .immediate, host)
  | some guest =>
    let (outcome, next) := NativeExtension.handleEvent guest envelope
    (some outcome, NativeExtension.updateDelivery guest,
      host.setRuntime extension { runtime with guest := some next })

/-- The update of a call whose result is not deferred. -/
def adapterUpdate (outcome : Option (Except ExtensionError ExtensionUpdate)) :
    ExtensionUpdate × ExtensionHost G :=
  match outcome with
  | none => (.default, host)
  | some (.ok update) => (update, host)
  | some (.error _) => (.default, host.recordViolation extension
      "extension event handler returned an error")

def handleEvent (report : TickReport) (extension : ExtensionId)
    (envelope : EventEnvelope) : ExtensionHost G × TickReport :=
  let behaviors := host.commandBehaviorsForEvent extension envelope
  match host.runtimes[extension]? with
  -- an active extension has a runtime
  | none => (host, report)
  | some runtime =>
    let deliver := receives runtime.subscriptions envelope.event
    if ¬deliver ∧ behaviors.isEmpty then (host.applySnapshot extension envelope, report)
    else
      let (outcome, delivery, host) := if deliver then host.callGuest extension runtime envelope
        else (none, .immediate, host)
      let report := { report with processedEvents := report.processedEvents + 1 }
      if delivery = .deferred ∧ outcome.any (·.toBool) then (host, report)
      else
        let (update, host) := host.adapterUpdate extension outcome
        let (host, effects) := host.applyUpdate extension runtime.generation envelope behaviors
          update report.effects
        (host, { report with effects })

/-- The snapshots of a kind are for the extension if it has subscribed and has the permissions. -/
def mayReceive (event : ExtensionEvent) : Bool :=
  match event with
  | .snapshotChanged snapshot _ => host.snapshotIsAuthorized extension snapshot
  | _ => true

end

/-- One turn of the loop of `process_tick` over the selected events.  `seen` are the targets and the
root causes of the events so far. -/
def dispatchQueued (turn : ExtensionHost G × TickReport × List (ExtensionId × CauseId))
    (queued : QueuedEvent) : ExtensionHost G × TickReport × List (ExtensionId × CauseId) :=
  let (host, report, seen) := turn
  let seen := seen ++ [(queued.target, queued.rootCause)]
  if host.config.maximumEventsPerCausePerTick < seen.count (queued.target, queued.rootCause) then
    (host.recordViolation queued.target "too many events from one cause in a single tick",
      { report with droppedEvents := report.droppedEvents + 1 }, seen)
  else if host.state queued.target ≠ some .active ∨
      ¬host.mayReceive queued.target queued.envelope.event then
    (host, { report with droppedEvents := report.droppedEvents + 1 }, seen)
  else
    let (host, report) := host.handleEvent report queued.target queued.envelope
    (host, report, seen)

/-- The part of `process_tick` before the dispatch of the queue. -/
def processDeferred
    (completed : List (ExtensionId × DeferredNativeUpdate)) : ExtensionHost G × TickReport :=
  completed.foldl applyDeferredAdapterUpdate
    (host, { tick := host.tick, processedEvents := 0, deferredEvents := 0, droppedEvents := 0
             effects := [] })

/-- The part of `process_tick` that dispatches at most `budget` queued events. -/
def processQueue (report : TickReport) (budget : Nat) : ExtensionHost G × TickReport :=
  let (selected, kept) := selectEvents host.tick budget host.queue
  let (host, report, _) := selected.foldl dispatchQueued ({ host with queue := kept }, report, [])
  (host, { report with deferredEvents := host.pendingEventCount })

/-- The host at the start of a tick, with the results of the background adapters. -/
def beginTick : List (ExtensionId × DeferredNativeUpdate) × ExtensionHost G :=
  { host with tick := saturatingAdd host.tick 1 }.drainDeferredAdapterUpdates

def processTick : ExtensionHost G × TickReport :=
  let (completed, host) := host.beginTick
  let (host, report) := host.processDeferred completed
  host.processQueue report (host.config.maximumEventsPerTick - completed.length)

end

end ExtensionHost

end KeyReader.Extension
