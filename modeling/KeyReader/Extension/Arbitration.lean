import KeyReader.Checked
import KeyReader.Extension.Host

/-! The arbitration of an update: its state, the behaviors of a command and its effects; and the
completion of an accepted effect. -/

namespace KeyReader.Extension

open Checked

def StorageArea.debug : StorageArea → String
  | .settings => "Settings"
  | .document => "Document"
  | .ephemeralCache => "EphemeralCache"

def debugDomains (domains : List String) : String :=
  "[" ++ ", ".intercalate (domains.map fun domain => "DomainPattern(\"" ++ domain ++ "\")") ++ "]"

/-- A permission as `{:?}` prints it. -/
def Permission.debug : Permission → String
  | .readDocumentMetadata => "ReadDocumentMetadata"
  | .readDocumentText .activeDocument => "ReadDocumentText(ActiveDocument)"
  | .readDocumentText .userApprovedDocuments => "ReadDocumentText(UserApprovedDocuments)"
  | .readSelection => "ReadSelection"
  | .navigateDocument => "NavigateDocument"
  | .addDocumentOverlays => "AddDocumentOverlays"
  | .addSidePanel => "AddSidePanel"
  | .readAnnotations => "ReadAnnotations"
  | .writeAnnotations => "WriteAnnotations"
  | .mutateDocument .redact => "MutateDocument(Redact)"
  | .mutateDocument .editAnnotations => "MutateDocument(EditAnnotations)"
  | .mutateDocument .rewriteDocument => "MutateDocument(RewriteDocument)"
  | .clipboardWrite => "ClipboardWrite"
  | .openExternalUrl => "OpenExternalUrl"
  | .storage area quotaBytes => "Storage(StoragePermission \x7b area: " ++ area.debug ++
      ", quota_bytes: " ++ toString quotaBytes ++ " \x7d)"
  | .network .none => "Network(None)"
  | .network (.declaredDomains domains) => "Network(DeclaredDomains(" ++ debugDomains domains ++ "))"
  | .network (.declaredAndUserApproved domains) =>
    "Network(DeclaredAndUserApproved(" ++ debugDomains domains ++ "))"
  | .network .publicInternet => "Network(PublicInternet)"

def permissionError (permission : Permission) : ExtensionError :=
  ⟨.permissionDenied, "permission " ++ permission.debug ++ " was not granted", false⟩

def invalidRequest (message : String) : ExtensionError := ⟨.invalidRequest, message, false⟩

/-- `char::is_control`. -/
def isControl (c : Char) : Bool := c.toNat < 32 || (127 ≤ c.toNat && c.toNat < 160)

def boundedHttpUrl (url : String) : Bool :=
  match url.toList.dropPrefix? "https://".toList <|> url.toList.dropPrefix? "http://".toList with
  | none => false
  | some rest => rest ≠ [] && url.utf8ByteSize ≤ 8192 && !url.toList.any isControl &&
      rest.head? ≠ some '/'

def effectShapeIsBounded (effect : ExtensionEffect) (limits : ValidationLimits) : Bool :=
  let bounded := fun (text : String) => text.utf8ByteSize ≤ limits.maximumStringBytes
  match effect with
  | .capabilityCall _ operation input => bounded operation && valueIsBounded input limits
  | .startTask _ operation input => bounded operation && valueIsBounded input limits
  | .storageGet _ key => bounded key
  | .storageDelete _ key => bounded key
  | .storagePut _ key value => bounded key && valueIsBounded value limits
  | .copyText text => bounded text
  | .openBrowserUrl url => bounded url
  | .notify message _ => bounded message
  | .confirm title message _ => bounded title && bounded message
  | .openContribution _ => true
  | .closeContribution _ => true
  | .cancelTask _ => true

def hostStateNamespaces : List String :=
  ["settings", "application", "document", "viewport", "selection", "annotation", "theme",
    "capabilities"]

/-- One turn of `preserve_host_state_namespaces`. -/
def preserveNamespace (current incoming : Fields) (key : String) : Fields :=
  match Assoc.get key current with
  | some value => Assoc.insert key value (Assoc.remove key incoming)
  | none => Assoc.remove key incoming

def preserveHostStateNamespaces (current incoming : Fields) : Fields :=
  hostStateNamespaces.foldl (preserveNamespace current) incoming

def CommandBehaviorAction.setsState : CommandBehaviorAction → Bool
  | .setState _ => true
  | _ => false

def CommandBehaviorAction.effect : CommandBehaviorAction → Option ExtensionEffect
  | .setState _ => none
  | .openContribution contribution => some (.openContribution contribution)
  | .closeContribution contribution => some (.closeContribution contribution)

/-- The id that the host gives the effect of a behavior, if it is short enough. -/
def behaviorEffectId (extension : ExtensionId) (sequence index : Nat) : Option EffectId :=
  let name := "behavior-" ++ toString sequence ++ "-" ++ toString index
  if extension.utf8ByteSize + 1 + name.utf8ByteSize ≤ 255 then some ⟨extension, name⟩ else none

namespace ExtensionHost

variable {G : Type}

section

variable (host : ExtensionHost G) (extension : ExtensionId)

def requirePermission (permission : Permission) : Except ExtensionError Unit :=
  ensure (host.permissionIsGranted extension permission) (permissionError permission)

def requireContribution (contribution : ContributionId) : Except ExtensionError Unit :=
  ensure (contribution.owner = extension ∧ host.contributionExists extension contribution)
    (invalidRequest "contribution is not owned and declared by extension")

/-- The authority that an effect needs. -/
def authorizeEffect : ExtensionEffect → Except ExtensionError Unit
  | .capabilityCall capability _ _ => do
    ensure (host.capabilityIsGranted extension capability)
      ⟨.capabilityUnavailable, "capability " ++ capability ++ " was not granted", false⟩
    match host.capabilityPermissions.lookup capability with
    | some permission => host.requirePermission extension permission
    | none => .ok ()
  | .openContribution contribution => do
    host.requireContribution extension contribution
    match host.contributionPermission extension contribution with
    | some permission => host.requirePermission extension permission
    | none => .ok ()
  | .closeContribution contribution => host.requireContribution extension contribution
  | .storageGet area _ | .storagePut area _ _ | .storageDelete area _ =>
    ensure (host.storagePermissionIsGranted extension area) (permissionError (.storage area 0))
  | .copyText _ => host.requirePermission extension .clipboardWrite
  | .openBrowserUrl url => do
    host.requirePermission extension .openExternalUrl
    ensure (boundedHttpUrl url) (invalidRequest "browser URL must be a bounded HTTP(S) URL")
  | .startTask task _ _ | .cancelTask task =>
    ensure (task.owner = extension) (invalidRequest "task ID is not owned by extension")
  | .notify _ _ => .ok ()
  | .confirm _ _ _ => .ok ()

def validateEffect (generation : GenerationId) (cause : CauseContext)
    (request : EffectRequest) : Except ExtensionError Unit := do
  ensure (request.id.owner = extension)
    (invalidRequest "effect ID is not owned by the requesting extension")
  ensure (request.cause = cause) (invalidRequest "effect cause does not match the dispatched event")
  ensure ((extension, request.id) ∉ host.pendingEffects)
    ⟨.conflict, "effect ID is already pending", false⟩
  ensure (host.runtimes[extension]?.any (·.generation = generation))
    ⟨.staleResource, "extension generation is stale", false⟩
  ensure (effectShapeIsBounded request.effect host.config.validationLimits)
    (invalidRequest "effect payload exceeds host limits")
  host.authorizeEffect extension request.effect

end

variable [Platform] [NativeExtension G]

section

variable (host : ExtensionHost G)

section

variable (extension : ExtensionId)

section

variable (generation : GenerationId)

/-- Queues the completion of an effect, and says whether it was queued. -/
def queueEffectCompleted (effect : EffectId) (parent : CauseContext) (result : EffectResult)
    (message : String) : Bool × ExtensionHost G :=
  if ¬host.runtimes[extension]?.any (·.generation = generation) then (false, host)
  else match host.childCause parent with
    | none => (false, host.recordViolation extension message)
    | some (cause, host) =>
      match host.enqueueEventInternal extension .host (.effectCompleted effect result) cause
          parent.id with
      | (.ok (), host) => (true, host)
      | (.error _, host) => (false, host)

def queueEffectResult (request : EffectRequest) (result : EffectResult) :
    ExtensionHost G :=
  (host.queueEffectCompleted extension generation request.id request.cause result
    "effect result exceeded maximum dispatch depth").2

def queueCompletedEffect (effect : AcceptedEffect) (id : EffectId) (pending : PendingEffect)
    (result : EffectResult) : ExtensionHost G :=
  match host.queueEffectCompleted effect.extension effect.generation id pending.cause result
      "effect completion exceeded maximum dispatch depth" with
  | (true, host) =>
    { host with history := host.history ++ [.completed pending.acceptance effect.acceptances] }
  | (false, host) => host

/-- Adds a request to the first accepted effect that is identical, and names that effect. -/
def joinAccepted (same : AcceptedEffect → Bool) (id : EffectId) (acceptance : Nat) :
    List AcceptedEffect → Option (EffectId × List AcceptedEffect)
  | [] => none
  | effect :: effects =>
    if same effect then
      some (effect.request.id, { effect with
        coalesced := effect.coalesced ++ [id]
        acceptances := effect.acceptances ++ [acceptance] } :: effects)
    else (joinAccepted same id acceptance effects).map fun (leader, effects) =>
      (leader, effect :: effects)

def addPending (request : EffectRequest) (leader : EffectId) : ExtensionHost G :=
  { host with
    pendingEffects := host.pendingEffects.insert (extension, request.id)
      { generation, cause := request.cause, leader, acceptance := host.history.length }
    history := host.history ++ [.accepted extension generation request (host.state extension)] }

/-- One turn of the loop of `arbitrate_update_internal` over the effects. -/
def arbitrateEffect (cause : CauseContext) (turn : ExtensionHost G × List AcceptedEffect)
    (request : EffectRequest) :
    ExtensionHost G × List AcceptedEffect :=
  let (host, accepted) := turn
  match host.validateEffect extension generation cause request with
  | .error error => (host.queueEffectResult extension generation request (.error error), accepted)
  | .ok () =>
    match joinAccepted (fun effect => effect.extension = extension &&
        effect.generation = generation && effect.request.effect.eq request.effect)
        request.id host.history.length accepted with
    | some (leader, accepted) =>
      (host.addPending extension generation request leader, accepted)
    | none => (host.addPending extension generation request request.id, accepted ++
        [⟨⟨extension, generation, request, []⟩, [host.history.length]⟩])

def extensionState : Fields :=
  host.runtimes[extension]?.elim [] (·.state)

def replaceState (state : Fields) (allowHostSettingsUpdate : Bool) : ExtensionHost G :=
  let state := if allowHostSettingsUpdate then state
    else preserveHostStateNamespaces (host.extensionState extension) state
  if stateIsBounded state host.config.validationLimits then
    match host.runtimes[extension]? with
    | none => host
    | some runtime =>
      if runtime.generation ≠ generation then host
      else { host.setRuntime extension { runtime with state } with
        history := host.history ++ [.patched extension (host.state extension)]
        persistedSettings := match Assoc.get "settings" state with
          | some settings => host.persistedSettings.insert extension settings
          | none => host.persistedSettings }
  else host.recordViolation extension
    "extension state update exceeded host limits or used an invalid key"

/-- The first part of `arbitrate_update_internal`, up to the loop over the effects. -/
def arbitrateState (state : Option Fields) (allowHostSettingsUpdate : Bool) : ExtensionHost G :=
  match state with
  | some state => host.replaceState extension generation state allowHostSettingsUpdate
  | none => host

def arbitrateBatch (effects : List EffectRequest) : ExtensionHost G :=
  if host.config.maximumEffectsPerEvent < effects.length then
    host.recordViolation extension ("effect batch contained " ++ toString effects.length ++
      " requests; limit is " ++ toString host.config.maximumEffectsPerEvent)
  else host

def arbitrateUpdateInternal (cause : CauseContext) (update : ExtensionUpdate)
    (accepted : List AcceptedEffect) (allowHostSettingsUpdate : Bool) :
    ExtensionHost G × List AcceptedEffect :=
  let host := host.arbitrateState extension generation update.state allowHostSettingsUpdate
  let host := host.arbitrateBatch extension update.effects
  (update.effects.take host.config.maximumEffectsPerEvent).foldl
    (arbitrateEffect extension generation cause) (host, accepted)

def arbitrateUpdate (cause : CauseContext) (update : ExtensionUpdate)
    (accepted : List AcceptedEffect) :
    ExtensionHost G × List AcceptedEffect :=
  host.arbitrateUpdateInternal extension generation cause update accepted false

end

def commandBehaviorsForEvent (envelope : EventEnvelope) : List CommandBehavior :=
  match envelope.source, envelope.event with
  | .host, .commandInvoked command _ => host.registry[extension]?.elim [] fun record =>
      record.manifest.contributions.commandBehaviors.filter (·.command = command)
  | _, _ => []

/-- A binding below `settings` has to name a setting that takes the payload. -/
def settingAccepts (binding : StateBinding) (payload : DataValue) : Bool :=
  if binding.segments.head? = some "settings" then
    (host.registry[extension]?.bind fun record => record.manifest.settings.find? fun setting =>
      setting.key = ExtensionManifest.settingKey binding && !setting.sensitive).any
        (·.valueType.accepts payload)
  else true

def applyBehavior (payload : DataValue) (turn : Fields × ExtensionHost G)
    (behavior : CommandBehavior) : Fields × ExtensionHost G :=
  let (state, host) := turn
  match behavior.action with
  | .setState binding =>
    if host.settingAccepts extension binding payload then
      (setStateBinding state binding payload, host)
    else (state, host.recordViolation extension
      "command payload does not satisfy the bound setting type")
  | _ => (state, host)

def behaviorState (state : Option Fields) : Fields × ExtensionHost G :=
  let current := host.extensionState extension
  match state with
  | some state =>
    if stateIsBounded state host.config.validationLimits then
      (preserveHostStateNamespaces current state, host)
    else (current, host.recordViolation extension
      "extension state update exceeded host limits or used an invalid key")
  | none => (current, host)

def mergeState (payload : DataValue) (behaviors : List CommandBehavior)
    (state : Option Fields) : Option Fields × ExtensionHost G :=
  if behaviors.any (·.action.setsState) then
    let (state, host) := behaviors.foldl (applyBehavior extension payload)
      (host.behaviorState extension state)
    (some state, host)
  else (state.map (preserveHostStateNamespaces (host.extensionState extension)), host)

def behaviorEffects (extension : ExtensionId) (envelope : EventEnvelope) :
    Nat → List CommandBehavior → ExtensionHost G → List EffectRequest × ExtensionHost G
  | _, [], host => ([], host)
  | index, behavior :: behaviors, host =>
    match behavior.action.effect with
    | none => behaviorEffects extension envelope (index + 1) behaviors host
    | some effect =>
      match behaviorEffectId extension envelope.sequence index with
      | none => behaviorEffects extension envelope (index + 1) behaviors
          (host.recordViolation extension "host could not allocate a bounded declarative effect ID")
      | some id =>
        let (effects, host) := behaviorEffects extension envelope (index + 1) behaviors host
        ({ id, cause := envelope.cause, effect } :: effects, host)

def mergeCommandBehaviors (envelope : EventEnvelope) (behaviors : List CommandBehavior)
    (update : ExtensionUpdate) :
    ExtensionUpdate × ExtensionHost G :=
  match envelope.event with
  | .commandInvoked _ payload =>
    let (state, host) := host.mergeState extension payload behaviors update.state
    let (effects, host) := behaviorEffects extension envelope 0 behaviors host
    (⟨state, effects ++ update.effects⟩, host)
  | _ => (update, host)

end

/-- The completion of one request that shares the result of an effect. -/
def completeFollower (effect : AcceptedEffect) (result : EffectResult) (host : ExtensionHost G)
    (follower : EffectId) : ExtensionHost G :=
  match host.pendingEffects.lookup (effect.extension, follower) with
  | none => host
  | some pending =>
    { host with pendingEffects := host.pendingEffects.erase (effect.extension, follower) }
      |>.queueCompletedEffect effect follower pending result

def completeEffect (effect : AcceptedEffect) (result : EffectResult) :
    Except HostError Unit × ExtensionHost G :=
  match host.pendingEffects.lookup (effect.extension, effect.request.id) with
  | none => (.error (.effectNotPending effect.extension effect.request.id), host)
  | some pending =>
    let host := { host with
      pendingEffects := host.pendingEffects.erase (effect.extension, effect.request.id) }
    if pending.generation ≠ effect.generation then
      (.error (.effectNotPending effect.extension effect.request.id), host)
    else (.ok (), effect.coalesced.foldl (completeFollower effect result)
      (host.queueCompletedEffect effect effect.request.id pending result))

end

end ExtensionHost

end KeyReader.Extension
