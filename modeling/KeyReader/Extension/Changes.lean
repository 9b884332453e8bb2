import KeyReader.Extension.Settings
import KeyReader.Extension.Suspension

/-! What a tick can do: between the start of a tick and its end the host makes a sequence of the
changes below, each with what it has checked before. -/

namespace KeyReader.Extension

open Machine List Option Bool

theorem snapshotNamespace_injective : Function.Injective snapshotNamespace := by
  intro a b h
  cases a <;> cases b <;> first | rfl | exact absurd h (by decide)

section

variable (kind : SnapshotKind)

theorem snapshotNamespace_ne_settings : snapshotNamespace kind ≠ "settings" := by
  cases kind <;> decide

theorem snapshotNamespace_mem : snapshotNamespace kind ∈ hostStateNamespaces := by
  cases kind <;> decide

theorem get_preserveNamespace (current incoming : Fields) (key other : String) :
    Assoc.get other (preserveNamespace current incoming key) =
      if key = other then Assoc.get other current else Assoc.get other incoming := by
  unfold preserveNamespace
  split
  · rename_i value hvalue
    rw [Assoc.get_insert, Assoc.get_remove]
    split
    · rename_i h
      rw [← h, hvalue]
    · rfl
  · rename_i hnone
    rw [Assoc.get_remove]
    split
    · rename_i h
      rw [← h, hnone]
    · rfl

theorem get_preserveHostStateNamespaces {current incoming : Fields} {key : String}
    (hkey : key ∈ hostStateNamespaces) :
    Assoc.get key (preserveHostStateNamespaces current incoming) = Assoc.get key current := by
  suffices h : ∀ (keys : List String) incoming, key ∈ keys ∨ Assoc.get key incoming = Assoc.get key current →
      Assoc.get key (keys.foldl (preserveNamespace current) incoming) = Assoc.get key current from
    h _ incoming (.inl hkey)
  intro keys
  induction keys with
  | nil =>
    intro incoming h
    exact h.resolve_left not_mem_nil
  | cons first keys ih =>
    intro incoming h
    refine ih _ ?_
    rw [get_preserveNamespace]
    by_cases heq : first = key
    · simp [heq]
    · rw [if_neg heq]
      rcases h with hmem | h
      · exact .inl ((mem_cons.mp hmem).resolve_left (Ne.symm heq))
      · exact .inr h

/-- No behavior sets a field of the state that host snapshots go to. -/
def ExtensionManifest.Vetted (manifest : ExtensionManifest) : Prop :=
  ∀ behavior ∈ manifest.contributions.commandBehaviors, ∀ binding,
    behavior.action = .setState binding →
      ∀ kind, binding.segments.head? ≠ some (snapshotNamespace kind)

theorem hostStateNamespaceIsReserved_snapshotNamespace :
    hostStateNamespaceIsReserved (snapshotNamespace kind) := by
  cases kind <;> decide

end

variable {binding : StateBinding} {limits : ValidationLimits} {manifest : ExtensionManifest}

theorem ExtensionManifest.head?_of_validateSetState {path : String}
    (h : manifest.validateSetState limits path binding = []) (kind : SnapshotKind) :
    binding.segments.head? ≠ some (snapshotNamespace kind) := by
  intro hhead
  have hrest := (append_eq_nil_iff.mp h).2
  rw [if_neg (by rw [hhead]; exact fun h => snapshotNamespace_ne_settings kind (some.inj h)),
    if_pos (by rw [hhead]; exact hostStateNamespaceIsReserved_snapshotNamespace kind)] at hrest
  exact cons_ne_nil _ _ hrest

theorem ExtensionManifest.validateSetState_of_validate [Platform]
    (h : manifest.validate limits = []) {behavior : CommandBehavior}
    (hmem : behavior ∈ manifest.contributions.commandBehaviors)
    (haction : behavior.action = .setState binding) :
    ∃ path, manifest.validateSetState limits path binding = [] := by
  have hbehaviors := (append_eq_nil_iff.mp (append_eq_nil_iff.mp h).1).2
  generalize manifest.contributions.commandBehaviors = behaviors at hbehaviors hmem
  generalize 0 = index at hbehaviors
  generalize ([] : List CommandId) = earlier at hbehaviors
  induction behaviors generalizing index earlier with
  | nil => exact absurd hmem not_mem_nil
  | cons first behaviors ih =>
    obtain ⟨hfirst, hrest⟩ := append_eq_nil_iff.mp hbehaviors
    rcases mem_cons.mp hmem with rfl | hmem
    · have hset := (append_eq_nil_iff.mp hfirst).2
      rw [haction] at hset
      exact ⟨_, hset⟩
    · exact ih hmem _ _ hrest

theorem ExtensionManifest.vetted_of_validate [Platform] (h : manifest.validate limits = []) :
    manifest.Vetted := by
  intro behavior hmem binding haction kind
  obtain ⟨path, hset⟩ := validateSetState_of_validate h hmem haction
  exact head?_of_validateSetState hset kind

theorem ExtensionManifest.aimed_of_validate [Platform] (h : manifest.validate limits = [])
    (hnamed : ∀ setting ∈ manifest.settings, setting.key ≠ "") : manifest.Aimed := by
  intro behavior hmem binding haction hhead
  obtain ⟨path, hset⟩ := validateSetState_of_validate h hmem haction
  exact segments_of_validateSetState hnamed hset hhead

namespace ExtensionHost

variable {G : Type}

/-- Every installed package is vetted. -/
def Vetted (host : ExtensionHost G) : Prop :=
  ∀ extension manifest metadata, host.package extension = some (manifest, metadata) →
    manifest.Vetted

def Describes (host : ExtensionHost G) (extension : ExtensionId) (manifest : ExtensionManifest) :
    Prop :=
  ∃ metadata, host.package extension = some (manifest, metadata)

/-- `state` has the fields of host snapshots of `before`, if the packages are vetted, and its settings
but for those that the extension may set. -/
structure KeepsOwned (host : ExtensionHost G) (extension : ExtensionId) (before state : Fields) :
    Prop where
  snapshots : host.Vetted → ∀ kind, Assoc.get (snapshotNamespace kind) state =
    Assoc.get (snapshotNamespace kind) before
  settings : ∀ manifest metadata, host.package extension = some (manifest, metadata) →
    manifest.Aimed → ∀ path, manifest.Outside path →
      getDataPath state ("settings" :: path) = getDataPath before ("settings" :: path)
  written : (∀ manifest, host.Describes extension manifest → manifest.Aimed) →
    ExtensionManifest.Written (host.Describes extension) (Assoc.get "settings" before)
      (Assoc.get "settings" state)

variable {extension : ExtensionId} {host : ExtensionHost G}

namespace KeepsOwned

theorem refl (host : ExtensionHost G) (extension : ExtensionId) (state : Fields) :
    host.KeepsOwned extension state state :=
  ⟨fun _ _ => rfl, fun _ _ _ _ _ _ => rfl, fun _ => .refl⟩

theorem trans {before middle state : Fields} (first : host.KeepsOwned extension before middle)
    (second : host.KeepsOwned extension middle state) : host.KeepsOwned extension before state where
  snapshots hvetted kind := (second.snapshots hvetted kind).trans (first.snapshots hvetted kind)
  settings manifest metadata hpackage haimed path houtside :=
    (second.settings manifest metadata hpackage haimed path houtside).trans
      (first.settings manifest metadata hpackage haimed path houtside)
  written haimed := (first.written haimed).trans (second.written haimed)

theorem preserve (host : ExtensionHost G) (extension : ExtensionId) (current incoming : Fields) :
    host.KeepsOwned extension current (preserveHostStateNamespaces current incoming) where
  snapshots _ kind := get_preserveHostStateNamespaces (snapshotNamespace_mem kind)
  settings _ _ _ _ path _ := by
    have hmem : "settings" ∈ hostStateNamespaces := by decide
    exact getDataPath_congr (get_preserveHostStateNamespaces hmem) path
  written _ := by
    rw [get_preserveHostStateNamespaces (by decide)]
    exact .refl

end KeepsOwned

def Declares (host : ExtensionHost G) (extension : ExtensionId) (behaviors : List CommandBehavior) :
    Prop :=
  ∀ behavior ∈ behaviors, ∃ manifest metadata, host.package extension = some (manifest, metadata) ∧
    behavior ∈ manifest.contributions.commandBehaviors

theorem declares_commandBehaviorsForEvent (host : ExtensionHost G) (extension : ExtensionId)
    (envelope : EventEnvelope) :
    host.Declares extension (host.commandBehaviorsForEvent extension envelope) := by
  intro behavior hmem
  unfold commandBehaviorsForEvent at hmem
  split at hmem
  · cases hrecord : host.registry[extension]? with
    | none =>
      rw [hrecord] at hmem
      exact absurd hmem not_mem_nil
    | some record =>
      rw [hrecord] at hmem
      refine ⟨record.manifest, record.metadata, ?_, (mem_filter.mp hmem).1⟩
      unfold package
      rw [hrecord]
      rfl
  · exact absurd hmem not_mem_nil

variable {payload : DataValue}

/-- An accepted binding below `settings` names a setting that is open and takes the payload. -/
theorem settingAccepts_of_package {metadata : PackageMetadata}
    (hpackage : host.package extension = some (manifest, metadata))
    (haccepts : host.settingAccepts extension binding payload)
    (hhead : binding.segments.head? = some "settings") :
    ∃ setting ∈ manifest.openSettings, setting.key = ExtensionManifest.settingKey binding ∧
      setting.valueType.accepts payload := by
  obtain ⟨record, hrecord, hmanifest⟩ := map_eq_some_iff.mp hpackage
  obtain rfl : record.manifest = manifest := congrArg Prod.fst hmanifest
  unfold settingAccepts at haccepts
  rw [if_pos hhead, hrecord, bind_some] at haccepts
  obtain ⟨setting, hfind, htakes⟩ := (any_eq_true _ _).mp haccepts
  have hsetting := find?_some hfind
  simp only [and_eq_true, decide_eq_true_eq, not_eq_true'] at hsetting
  refine ⟨setting, ExtensionManifest.mem_openSettings.mpr
    ⟨mem_of_find?_eq_some hfind, by simp [hsetting.2]⟩, hsetting.1, htakes⟩

variable {next : ExtensionHost G}

theorem settingAccepts_congr (h : next.package extension = host.package extension)
    (binding : StateBinding) (payload : DataValue) :
    next.settingAccepts extension binding payload = host.settingAccepts extension binding payload := by
  have hfind : ∀ host : ExtensionHost G, (host.registry[extension]?.bind fun record =>
      record.manifest.settings.find? fun setting =>
        setting.key = ExtensionManifest.settingKey binding && !setting.sensitive) =
      (host.package extension).bind fun package => package.1.settings.find? fun setting =>
        setting.key = ExtensionManifest.settingKey binding && !setting.sensitive := by
    intro host
    unfold package
    cases host.registry[extension]? <;> rfl
  unfold settingAccepts
  rw [hfind, hfind, h]

theorem KeepsOwned.setStateBinding {behavior : CommandBehavior}
    (hdeclared : ∃ manifest metadata, host.package extension = some (manifest, metadata) ∧
      behavior ∈ manifest.contributions.commandBehaviors)
    (haction : behavior.action = .setState binding)
    (haccepts : host.settingAccepts extension binding payload) (state : Fields) :
    host.KeepsOwned extension state (setStateBinding state binding payload) := by
  obtain ⟨manifest, metadata, hpackage, hmem⟩ := hdeclared
  refine ⟨?_, ?_, ?_⟩
  · intro hvetted kind
    exact get_setPath (hvetted extension manifest metadata hpackage behavior hmem binding haction kind)
  · intro other otherMetadata hother haimed path houtside
    cases hpackage.symm.trans hother
    by_cases hhead : binding.segments.head? = some "settings"
    · obtain ⟨setting, hsetting, hkey, -⟩ := settingAccepts_of_package hpackage haccepts hhead
      refine getDataPath_setPath_of_apart state payload ?_
      rw [haimed behavior hmem binding haction hhead, ← hkey]
      exact apart_cons.mpr (houtside setting hsetting)
    · exact getDataPath_congr (get_setPath hhead) path
  · intro haimed
    by_cases hhead : binding.segments.head? = some "settings"
    · obtain ⟨setting, hsetting, hkey, htakes⟩ := settingAccepts_of_package hpackage haccepts hhead
      refine .single ⟨manifest, ⟨metadata, hpackage⟩, setting, hsetting, payload, htakes, ?_⟩
      rw [Extension.setStateBinding, haimed manifest ⟨metadata, hpackage⟩ behavior hmem binding
        haction hhead, ← hkey]
      exact get_setPath_settings state setting.path_ne_nil payload
    · rw [Extension.setStateBinding, get_setPath hhead]
      exact .refl

/-- The part of a runtime that stays as long as the runtime does. -/
def session (host : ExtensionHost G) (extension : ExtensionId) :
    Option (GenerationId × List EventSubscription) :=
  host.runtimes[extension]?.map fun runtime => (runtime.generation, runtime.subscriptions)

/-- The two hosts have the same runtimes, packages and permissions. -/
structure Steady (host next : ExtensionHost G) : Prop where
  config : next.config = host.config
  capabilityPermissions : next.capabilityPermissions = host.capabilityPermissions
  snapshotPermissions : next.snapshotPermissions = host.snapshotPermissions
  permissionDecisions : next.permissionDecisions = host.permissionDecisions
  package : ∀ extension, next.package extension = host.package extension
  session : ∀ extension, next.session extension = host.session extension
  lifecycle : ∀ extension, next.state extension = host.state extension ∨
    (host.state extension = some .active ∧ next.state extension = some .suspended)

theorem session_eq_core (host : ExtensionHost G) (extension : ExtensionId) :
    host.session extension = (host.core extension).map fun core => (core.1, core.2.1) := by
  unfold session core
  cases host.runtimes[extension]? <;> rfl

variable {middle : ExtensionHost G}

namespace Steady

theorem of_quiet (h : Quiet host next) : Steady host next :=
  { h with session := fun extension => by rw [session_eq_core, session_eq_core, h.core] }

theorem refl (host : ExtensionHost G) : Steady host host := .of_quiet (.refl host)

theorem trans (first : Steady host middle) (second : Steady middle next) : Steady host next where
  config := second.config.trans first.config
  capabilityPermissions := second.capabilityPermissions.trans first.capabilityPermissions
  snapshotPermissions := second.snapshotPermissions.trans first.snapshotPermissions
  permissionDecisions := second.permissionDecisions.trans first.permissionDecisions
  package extension := (second.package extension).trans (first.package extension)
  session extension := (second.session extension).trans (first.session extension)
  lifecycle extension := suspends_trans (first.lifecycle extension) (second.lifecycle extension)

theorem of_setRuntime {runtime next : ActiveRuntime G}
    (hruntime : host.runtimes[extension]? = some runtime)
    (hsession : (next.generation, next.subscriptions) = (runtime.generation, runtime.subscriptions)) :
    Steady host (host.setRuntime extension next) where
  __ := refl host
  session other := by
    unfold ExtensionHost.session
    rw [runtimes_setRuntime]
    split
    · rename_i h
      rw [← h, hruntime, map_some, map_some, hsession]
    · rfl

theorem vetted (h : Steady host next) : next.Vetted ↔ host.Vetted := by
  simp only [Vetted, h.package]

theorem permissionIsGranted (h : Steady host next) (extension : ExtensionId)
    (permission : Permission) :
    next.permissionIsGranted extension permission = host.permissionIsGranted extension permission := by
  have hpackage := congrArg (Option.any fun package =>
    package.1.permissions.any (·.permission = permission)) (h.package extension)
  have hany : ∀ host : ExtensionHost G, (host.package extension).any (fun package =>
      package.1.permissions.any (·.permission = permission)) = host.registry[extension]?.any
        fun record => record.manifest.permissions.any (·.permission = permission) := by
    intro host
    unfold ExtensionHost.package
    cases host.registry[extension]? <;> rfl
  rw [hany, hany] at hpackage
  unfold ExtensionHost.permissionIsGranted permissionDecision
  rw [hpackage, h.permissionDecisions]

theorem snapshotIsAuthorized (h : Steady host next) (extension : ExtensionId) (kind : SnapshotKind) :
    next.snapshotIsAuthorized extension kind = host.snapshotIsAuthorized extension kind := by
  have hany : ∀ host : ExtensionHost G, host.runtimes[extension]?.any (fun runtime =>
      runtime.subscriptions.any (· = .snapshot kind)) = (host.session extension).any
        fun session => session.2.any (· = .snapshot kind) := by
    intro host
    unfold ExtensionHost.session
    cases host.runtimes[extension]? <;> rfl
  unfold ExtensionHost.snapshotIsAuthorized
  rw [hany, hany, h.session, h.snapshotPermissions, funext (h.permissionIsGranted extension)]

end Steady

variable [Platform] [NativeExtension G]

/-- One thing that the host does in a tick.  A snapshot is `checked` when it is authorized as it
enters the state. -/
inductive Change (checked : Prop) : ExtensionHost G → ExtensionHost G → Prop
  | cause {host next : ExtensionHost G} {parent cause : CauseContext}
      (h : host.childCause parent = some (cause, next)) : Change checked host next
  | violation (host : ExtensionHost G) (extension : ExtensionId) (message : String) :
      Change checked host (host.recordViolation extension message)
  | enqueue (host : ExtensionHost G) (target : ExtensionId) (source : EventSource)
      (event : ExtensionEvent) (cause : CauseContext) (rootCause : CauseId) :
      Change checked host (host.enqueueEventInternal target source event cause rootCause).2
  | guest {host : ExtensionHost G} {extension : ExtensionId} {runtime : ActiveRuntime G}
      (guest : Option G) (hruntime : host.runtimes[extension]? = some runtime) :
      Change checked host (host.setRuntime extension { runtime with guest })
  /-- The state of an update, which keeps what the host owns. -/
  | patch {host : ExtensionHost G} {extension : ExtensionId} {runtime : ActiveRuntime G}
      {state : Fields} (persistedSettings : AList fun _ : ExtensionId => DataValue)
      (hruntime : host.runtimes[extension]? = some runtime)
      (hkept : host.KeepsOwned extension runtime.state state)
      (hsaved : ∀ other, persistedSettings.lookup other = if other = extension then
        (Assoc.get "settings" state).or (host.persistedSettings.lookup extension)
        else host.persistedSettings.lookup other) :
      Change checked host { host.setRuntime extension { runtime with state } with
        history := host.history ++ [.patched extension (host.state extension)]
        persistedSettings }
  | accept {host : ExtensionHost G} {extension : ExtensionId} {generation : GenerationId}
      {cause : CauseContext} {request : EffectRequest} (leader : EffectId)
      (hvalid : host.validateEffect extension generation cause request = .ok ()) :
      Change checked host (host.addPending extension generation request leader)
  | snapshot {host : ExtensionHost G} {extension : ExtensionId} {runtime : ActiveRuntime G}
      {kind : SnapshotKind} (value : DataValue)
      (hruntime : host.runtimes[extension]? = some runtime)
      (hchecked : checked → host.snapshotIsAuthorized extension kind) :
      Change checked host (host.setRuntime extension { runtime with
        state := Assoc.insert (snapshotNamespace kind) value runtime.state })
  /-- A snapshot that would exceed the bounds of the state is taken back. -/
  | restore {host : ExtensionHost G} {extension : ExtensionId} {runtime : ActiveRuntime G}
      {state : Fields} (hruntime : host.runtimes[extension]? = some runtime)
      (hsame : ∀ key, Assoc.get key state = Assoc.get key runtime.state) :
      Change checked host (host.setRuntime extension { runtime with state })
  | fail {host : ExtensionHost G} {extension : ExtensionId} {runtime : ActiveRuntime G}
      (hruntime : host.runtimes[extension]? = some runtime)
      (hstate : host.state extension = some .active ∨ host.state extension = some .suspended) :
      Change checked host (host.failDeferredRuntime extension)

/-- A sequence of changes. -/
abbrev Changes (checked : Prop) : ExtensionHost G → ExtensionHost G → Prop :=
  Relation.ReflTransGen (Change checked)

variable {checked : Prop}

theorem Changes.queueEffectCompleted (host : ExtensionHost G) (extension : ExtensionId)
    (generation : GenerationId) (effect : EffectId) (parent : CauseContext) (result : EffectResult)
    (message : String) : Changes checked host
      (host.queueEffectCompleted extension generation effect parent result message).2 := by
  unfold ExtensionHost.queueEffectCompleted
  split
  · exact .refl
  split
  · exact .single (.violation ..)
  · rename_i cause next hcause
    have h : Changes checked host (next.enqueueEventInternal extension .host
        (.effectCompleted effect result) cause parent.id).2 :=
      .tail (.single (.cause hcause)) (.enqueue ..)
    split <;> rename_i heq <;> rwa [heq] at h

theorem arbitrateEffect_cases (host : ExtensionHost G) (accepted : List AcceptedEffect)
    (extension : ExtensionId) (generation : GenerationId) (cause : CauseContext)
    (request : EffectRequest) :
    (∃ error, host.validateEffect extension generation cause request = .error error ∧
      arbitrateEffect extension generation cause (host, accepted) request =
        (host.queueEffectResult extension generation request (.error error), accepted)) ∨
    (host.validateEffect extension generation cause request = .ok () ∧
      ∃ leader, (arbitrateEffect extension generation cause (host, accepted) request).1 =
        host.addPending extension generation request leader) := by
  unfold arbitrateEffect
  cases hvalid : host.validateEffect extension generation cause request with
  | error error => exact .inl ⟨error, rfl, by simp only [hvalid]⟩
  | ok =>
    refine .inr ⟨rfl, ?_⟩
    simp only [hvalid]
    split <;> exact ⟨_, rfl⟩

theorem Changes.arbitrateEffect (host : ExtensionHost G) (accepted : List AcceptedEffect)
    (extension : ExtensionId) (generation : GenerationId) (cause : CauseContext)
    (request : EffectRequest) : Changes checked host
      (arbitrateEffect extension generation cause (host, accepted) request).1 := by
  rcases arbitrateEffect_cases host accepted extension generation cause request with
    ⟨error, -, heq⟩ | ⟨hvalid, leader, heq⟩
  · rw [heq]
    exact .queueEffectCompleted ..
  · rw [heq]
    exact .single (.accept leader hvalid)

omit [Platform] [NativeExtension G] in
theorem Steady.addPending (host : ExtensionHost G) (extension : ExtensionId)
    (generation : GenerationId) (request : EffectRequest) (leader : EffectId) :
    Steady host (host.addPending extension generation request leader) where
  __ := refl host

theorem Steady.arbitrateEffect (host : ExtensionHost G) (accepted : List AcceptedEffect)
    (extension : ExtensionId) (generation : GenerationId) (cause : CauseContext)
    (request : EffectRequest) : Steady host
      (arbitrateEffect extension generation cause (host, accepted) request).1 := by
  rcases arbitrateEffect_cases host accepted extension generation cause request with
    ⟨error, -, heq⟩ | ⟨-, leader, heq⟩
  · rw [heq]
    exact .of_quiet (.queueEffectCompleted ..)
  · rw [heq]
    exact .addPending ..

omit [Platform] [NativeExtension G] in
theorem extensionState_eq_core (host : ExtensionHost G) (extension : ExtensionId) :
    host.extensionState extension = (host.core extension).elim [] (·.2.2) := by
  unfold extensionState core
  cases host.runtimes[extension]? <;> rfl

omit [Platform] [NativeExtension G] in
theorem Quiet.extensionState (h : Quiet host next) (extension : ExtensionId) :
    next.extensionState extension = host.extensionState extension := by
  rw [extensionState_eq_core, extensionState_eq_core, h.core]

/-- A replacement of the state is refused as a violation, has no effect on a runtime that is gone, or
is a patch. -/
theorem replaceState_cases (host : ExtensionHost G) (extension : ExtensionId)
    (generation : GenerationId) (state : Fields) (allow : Bool)
    (hallow : allow → host.KeepsOwned extension (host.extensionState extension) state) :
    (∃ message, host.replaceState extension generation state allow =
      host.recordViolation extension message) ∨
    host.replaceState extension generation state allow = host ∨
    ∃ runtime state' persistedSettings, host.runtimes[extension]? = some runtime ∧
      runtime.generation = generation ∧
      host.KeepsOwned extension runtime.state state' ∧
      (∀ other, persistedSettings.lookup other = if other = extension then
        (Assoc.get "settings" state').or (host.persistedSettings.lookup extension)
        else host.persistedSettings.lookup other) ∧
      host.replaceState extension generation state allow =
        { host.setRuntime extension { runtime with state := state' } with
          history := host.history ++ [.patched extension (host.state extension)]
          persistedSettings } := by
  have hkept : host.KeepsOwned extension (host.extensionState extension) (if allow then state else
      preserveHostStateNamespaces (host.extensionState extension) state) := by
    split
    · exact hallow ‹_›
    · exact .preserve ..
  unfold replaceState
  generalize (if allow then state else
    preserveHostStateNamespaces (host.extensionState extension) state) = incoming at hkept ⊢
  by_cases hbounded : stateIsBounded incoming host.config.validationLimits
  · rw [if_pos hbounded]
    cases hruntime : host.runtimes[extension]? with
    | none => exact .inr (.inl rfl)
    | some runtime =>
      by_cases hgeneration : runtime.generation = generation
      · have hstate : host.extensionState extension = runtime.state := by
          unfold ExtensionHost.extensionState
          rw [hruntime]
          rfl
        rw [hstate] at hkept
        refine .inr (.inr ⟨runtime, incoming, _, rfl, hgeneration, hkept, fun other => ?_,
          if_neg (not_not.mpr hgeneration)⟩)
        cases hsettings : Assoc.get "settings" incoming with
        | none => exact (ite_eq_right_iff.mpr fun heq =>
            congrArg (host.persistedSettings.lookup ·) heq.symm).symm
        | some settings => exact Table.lookup_insert host.persistedSettings extension other settings
      · exact .inr (.inl (if_pos hgeneration))
  · exact .inl ⟨_, if_neg hbounded⟩

/-- The changes of the handling of one update: the runtimes and the authority stay. -/
structure Handles (checked : Prop) (host next : ExtensionHost G) : Prop where
  changes : Changes checked host next
  steady : Steady host next

namespace Handles

theorem refl (host : ExtensionHost G) : Handles checked host host := ⟨.refl, .refl host⟩

theorem trans (first : Handles checked host middle) (second : Handles checked middle next) :
    Handles checked host next :=
  ⟨first.changes.trans second.changes, first.steady.trans second.steady⟩

theorem recordViolation (host : ExtensionHost G) (extension : ExtensionId) (message : String) :
    Handles checked host (host.recordViolation extension message) :=
  ⟨.single (.violation ..), .of_quiet (.recordViolation ..)⟩

theorem arbitrateEffects (extension : ExtensionId) (generation : GenerationId)
    (cause : CauseContext) (requests : List EffectRequest)
    (turn : ExtensionHost G × List AcceptedEffect) : Handles checked turn.1
      (requests.foldl (arbitrateEffect extension generation cause) turn).1 :=
  foldlRecOn requests _
    (motive := fun next : ExtensionHost G × List AcceptedEffect => Handles checked turn.1 next.1)
    (refl turn.1) fun _ h _ _ => h.trans ⟨.arbitrateEffect .., .arbitrateEffect ..⟩

theorem replaceState (host : ExtensionHost G) (extension : ExtensionId) (generation : GenerationId)
    (state : Fields) (allow : Bool)
    (hallow : allow → host.KeepsOwned extension (host.extensionState extension) state) :
    Handles checked host (host.replaceState extension generation state allow) := by
  rcases replaceState_cases host extension generation state allow hallow with
    ⟨message, heq⟩ | heq | ⟨runtime, state', persistedSettings, hruntime, -, hkept, hsaved, heq⟩
  · rw [heq]
    exact recordViolation ..
  · rw [heq]
    exact refl host
  · rw [heq]
    refine ⟨.single (.patch persistedSettings hruntime hkept hsaved), ?_⟩
    have hset : Steady host (host.setRuntime extension { runtime with state := state' }) :=
      .of_setRuntime hruntime rfl
    exact { hset with }

theorem arbitrateState (host : ExtensionHost G) (extension : ExtensionId)
    (generation : GenerationId) (state : Option Fields) (allow : Bool)
    (hallow : allow → ∀ fields ∈ state,
      host.KeepsOwned extension (host.extensionState extension) fields) :
    Handles checked host (host.arbitrateState extension generation state allow) := by
  cases state with
  | none => exact refl host
  | some state =>
    exact replaceState host extension generation state allow fun h => hallow h state rfl

theorem arbitrateBatch (host : ExtensionHost G) (extension : ExtensionId)
    (effects : List EffectRequest) : Handles checked host (host.arbitrateBatch extension effects) := by
  unfold ExtensionHost.arbitrateBatch
  split
  · exact recordViolation ..
  · exact refl host

theorem arbitrateUpdateInternal (host : ExtensionHost G) (extension : ExtensionId)
    (generation : GenerationId) (cause : CauseContext) (update : ExtensionUpdate)
    (accepted : List AcceptedEffect) (allow : Bool)
    (hallow : allow → ∀ fields ∈ update.state,
      host.KeepsOwned extension (host.extensionState extension) fields) :
    Handles checked host
      (host.arbitrateUpdateInternal extension generation cause update accepted allow).1 := by
  have hstate : Handles checked host _ :=
    arbitrateState host extension generation update.state allow hallow
  exact (hstate.trans (arbitrateBatch _ extension update.effects)).trans
    (arbitrateEffects extension generation cause _ (_, accepted))

theorem arbitrateUpdate (host : ExtensionHost G) (extension : ExtensionId)
    (generation : GenerationId) (cause : CauseContext) (update : ExtensionUpdate)
    (accepted : List AcceptedEffect) : Handles checked host
      (host.arbitrateUpdate extension generation cause update accepted).1 :=
  arbitrateUpdateInternal _ _ _ _ _ _ _ fun h => absurd h false_ne_true

end Handles

/-- Violations are all that the merge of the behaviors changes. -/
structure Charges (checked : Prop) (host next : ExtensionHost G) : Prop where
  changes : Changes checked host next
  quiet : Quiet host next

namespace Charges

theorem refl (host : ExtensionHost G) : Charges checked host host := ⟨.refl, .refl host⟩

theorem trans (first : Charges checked host middle) (second : Charges checked middle next) :
    Charges checked host next :=
  ⟨first.changes.trans second.changes, first.quiet.trans second.quiet⟩

theorem recordViolation (host : ExtensionHost G) (extension : ExtensionId) (message : String) :
    Charges checked host (host.recordViolation extension message) :=
  ⟨.single (.violation ..), .recordViolation ..⟩

theorem handles (h : Charges checked host next) : Handles checked host next :=
  ⟨h.changes, .of_quiet h.quiet⟩

theorem behaviorState (host : ExtensionHost G) (extension : ExtensionId) (state : Option Fields) :
    Charges checked host (host.behaviorState extension state).2 := by
  unfold ExtensionHost.behaviorState
  cases state with
  | none => exact refl host
  | some state =>
    dsimp only
    split
    · exact refl host
    · exact recordViolation ..

theorem applyBehavior (extension : ExtensionId) (payload : DataValue)
    (turn : Fields × ExtensionHost G) (behavior : CommandBehavior) :
    Charges checked turn.2 (applyBehavior extension payload turn behavior).2 := by
  unfold ExtensionHost.applyBehavior
  dsimp only
  split
  · split
    · exact refl turn.2
    · exact recordViolation ..
  · exact refl turn.2

theorem behaviorEffects (extension : ExtensionId) (envelope : EventEnvelope)
    (behaviors : List CommandBehavior) (index : Nat) (host : ExtensionHost G) :
    Charges checked host (behaviorEffects extension envelope index behaviors host).2 := by
  induction behaviors generalizing index host with
  | nil => exact refl host
  | cons behavior behaviors ih =>
    unfold ExtensionHost.behaviorEffects
    split
    · exact ih ..
    split
    · exact (recordViolation ..).trans (ih ..)
    · exact ih ..

theorem mergeState (host : ExtensionHost G) (extension : ExtensionId) (payload : DataValue)
    (behaviors : List CommandBehavior) (state : Option Fields) :
    Charges checked host (host.mergeState extension payload behaviors state).2 := by
  unfold ExtensionHost.mergeState
  split
  · exact foldlRecOn behaviors _
      (motive := fun turn : Fields × ExtensionHost G => Charges checked host turn.2)
      (behaviorState ..) fun _ h _ _ => h.trans (applyBehavior ..)
  · exact refl host

theorem mergeCommandBehaviors (host : ExtensionHost G) (extension : ExtensionId)
    (envelope : EventEnvelope) (behaviors : List CommandBehavior) (update : ExtensionUpdate) :
    Charges checked host
      (host.mergeCommandBehaviors extension envelope behaviors update).2 := by
  unfold ExtensionHost.mergeCommandBehaviors
  split
  · exact (mergeState ..).trans (behaviorEffects ..)
  · exact refl host

end Charges

omit [Platform] [NativeExtension G] in
theorem KeepsOwned.of_steady (h : Steady host next) {before state : Fields}
    (hkept : host.KeepsOwned extension before state) : next.KeepsOwned extension before state where
  snapshots hvetted := hkept.snapshots (h.vetted.mp hvetted)
  settings manifest metadata hpackage :=
    hkept.settings manifest metadata ((h.package extension).symm.trans hpackage)
  written haimed := by
    have hsame : next.Describes extension = host.Describes extension := by
      unfold Describes
      rw [h.package extension]
    rw [hsame] at haimed ⊢
    exact hkept.written haimed

variable {behaviors : List CommandBehavior}

omit [Platform] [NativeExtension G] in
theorem Declares.of_steady (h : Steady host next) (hdeclared : host.Declares extension behaviors) :
    next.Declares extension behaviors := by
  intro behavior hmem
  rw [h.package]
  exact hdeclared behavior hmem

/-- What the merge of the behaviors makes of the state keeps what the host owns. -/
theorem keepsOwned_mergeState {state : Option Fields}
    (hbehaviors : host.Declares extension behaviors) :
    ∀ fields ∈ (host.mergeState extension payload behaviors state).1,
      host.KeepsOwned extension (host.extensionState extension) fields := by
  have hstart : host.KeepsOwned extension (host.extensionState extension)
      (host.behaviorState extension state).1 := by
    unfold behaviorState
    cases state with
    | none => exact .refl ..
    | some state =>
      dsimp only
      split
      · exact .preserve ..
      · exact .refl ..
  have hturn : ∀ turn : Fields × ExtensionHost G, Quiet host turn.2 → ∀ behavior ∈ behaviors,
      host.KeepsOwned extension turn.1 (applyBehavior extension payload turn behavior).1 := by
    intro turn hquiet behavior hmem
    unfold applyBehavior
    dsimp only
    split
    · rename_i binding haction
      split
      · rename_i haccepts
        refine .setStateBinding (hbehaviors behavior hmem) haction ?_ turn.1
        rwa [settingAccepts_congr (hquiet.package extension)] at haccepts
      · exact .refl ..
    · exact .refl ..
  unfold mergeState
  split
  · intro fields hfields
    cases hfields
    have hrun := foldlRecOn behaviors (applyBehavior extension payload)
      (motive := fun turn : Fields × ExtensionHost G =>
        host.KeepsOwned extension (host.extensionState extension) turn.1 ∧ Charges True host turn.2)
      ⟨hstart, .behaviorState ..⟩ fun turn h behavior hmem =>
        ⟨h.1.trans (hturn turn h.2.quiet behavior hmem), h.2.trans (.applyBehavior ..)⟩
    exact hrun.1
  · intro fields hfields
    obtain ⟨incoming, -, rfl⟩ := map_eq_some_iff.mp hfields
    exact .preserve ..

theorem keepsOwned_mergeCommandBehaviors {envelope : EventEnvelope} {update : ExtensionUpdate}
    (hcommand : envelope.event.isCommand) (hbehaviors : host.Declares extension behaviors) :
    ∀ fields ∈ (host.mergeCommandBehaviors extension envelope behaviors update).1.state,
      host.KeepsOwned extension (host.extensionState extension) fields := by
  unfold mergeCommandBehaviors
  split
  · exact keepsOwned_mergeState hbehaviors
  · rename_i hevent
    cases hkind : envelope.event <;> rw [hkind] at hcommand
    case commandInvoked command payload => exact absurd hkind (hevent command payload)
    all_goals exact absurd hcommand false_ne_true

theorem Handles.replaceSnapshotState (host : ExtensionHost G) (extension : ExtensionId)
    (kind : SnapshotKind) (value : DataValue)
    (hchecked : checked → host.snapshotIsAuthorized extension kind) : Handles checked host
      (host.replaceSnapshotState extension (snapshotNamespace kind) value) := by
  unfold ExtensionHost.replaceSnapshotState
  split
  · exact recordViolation ..
  split
  · exact refl host
  · rename_i runtime hruntime
    dsimp only
    split
    · exact ⟨.single (.snapshot value hruntime hchecked), .of_setRuntime hruntime rfl⟩
    · have hrestored : ∀ state, (∀ key, Assoc.get key state = Assoc.get key runtime.state) →
          Handles checked host (host.setRuntime extension { runtime with state }) :=
        fun state hsame => ⟨.single (.restore hruntime hsame), .of_setRuntime hruntime rfl⟩
      refine (hrestored _ fun key => ?_).trans (recordViolation ..)
      split
      · rename_i previous hprevious
        rw [Assoc.get_insert, Assoc.get_insert]
        split
        · rename_i h
          rw [← h, hprevious]
        · rfl
      · rename_i hnone
        rw [Assoc.get_remove, Assoc.get_insert]
        split
        · rename_i h
          rw [← h, hnone]
        · rfl

theorem Handles.applySnapshot (host : ExtensionHost G) (extension : ExtensionId)
    (envelope : EventEnvelope)
    (hchecked : checked → ∀ kind value, snapshotStateUpdate envelope = some (kind, value) →
      host.snapshotIsAuthorized extension kind) :
    Handles checked host (host.applySnapshot extension envelope) := by
  unfold ExtensionHost.applySnapshot
  split
  · rename_i kind value h
    exact replaceSnapshotState host extension kind value fun hc => hchecked hc kind value h
  · exact refl host

theorem Handles.applyUpdate (host : ExtensionHost G) (extension : ExtensionId)
    (generation : GenerationId) (envelope : EventEnvelope) (update : ExtensionUpdate)
    (accepted : List AcceptedEffect) (hbehaviors : host.Declares extension behaviors)
    (hchecked : checked → ∀ kind value, snapshotStateUpdate envelope = some (kind, value) →
      host.snapshotIsAuthorized extension kind) :
    Handles checked host
      (host.applyUpdate extension generation envelope behaviors update accepted).1 := by
  have hcharged : Charges checked host _ :=
    .mergeCommandBehaviors host extension envelope behaviors update
  have harbitrated := hcharged.handles.trans (arbitrateUpdateInternal _ extension generation
    envelope.cause (host.mergeCommandBehaviors extension envelope behaviors update).1 accepted
    envelope.event.isCommand fun hcommand fields hfields => by
      rw [hcharged.quiet.extensionState]
      exact (keepsOwned_mergeCommandBehaviors hcommand hbehaviors fields hfields).of_steady
        hcharged.handles.steady)
  refine harbitrated.trans (applySnapshot _ extension envelope fun hc kind value h => ?_)
  rw [harbitrated.steady.snapshotIsAuthorized]
  exact hchecked hc kind value h

theorem Changes.drainFrom (extensions : List ExtensionId) (remaining : Nat)
    (host : ExtensionHost G) :
    Changes checked host (drainFrom extensions remaining host).2 := by
  induction extensions generalizing remaining host with
  | nil => exact .refl
  | cons extension extensions ih =>
    unfold ExtensionHost.drainFrom
    split
    · exact ih ..
    split
    · exact ih ..
    split
    · exact ih ..
    · rename_i runtime hruntime _ guest hguest _
      have hdrained : Changes checked host (host.setRuntime extension { runtime with
          guest := some (NativeExtension.drainDeferredUpdates guest remaining).2 }) :=
        .single (.guest _ hruntime)
      dsimp only
      split
      · exact hdrained
      · exact hdrained.trans (ih ..)

def advance (host : ExtensionHost G) : ExtensionHost G :=
  { host with tick := saturatingAdd host.tick 1 }

theorem Changes.beginTick (host : ExtensionHost G) :
    Changes checked host.advance host.beginTick.2 := by
  unfold ExtensionHost.beginTick drainDeferredAdapterUpdates
  split
  · exact .refl
  · exact Changes.drainFrom ..

def Prompt (host : ExtensionHost G) (completed : ExtensionId × DeferredNativeUpdate) : Prop :=
  ∀ envelope kind value, completed.2.call = .event envelope →
    snapshotStateUpdate envelope = some (kind, value) →
      (∃ runtime, host.runtimes[completed.1]? = some runtime ∧
        runtime.generation = completed.2.generation) →
      host.state completed.1 = some .active → host.snapshotIsAuthorized completed.1 kind

theorem Handles.applyDeferredEvent (host : ExtensionHost G) (extension : ExtensionId)
    (generation : GenerationId) (envelope : EventEnvelope)
    (result : Except ExtensionError ExtensionUpdate) (report : TickReport)
    (hchecked : checked → host.state extension = some .active → ∀ kind value,
      snapshotStateUpdate envelope = some (kind, value) →
        host.snapshotIsAuthorized extension kind) :
    Handles checked host
      (host.applyDeferredEvent extension generation envelope result report).1 := by
  have hbehaviors := host.declares_commandBehaviorsForEvent extension envelope
  unfold ExtensionHost.applyDeferredEvent
  split
  · exact refl host
  · rename_i hactive
    cases result with
    | ok update =>
      dsimp only
      rw [if_neg hactive]
      exact applyUpdate host extension generation envelope update report.effects hbehaviors
        fun hc => hchecked hc (not_not.mp hactive)
    | error error =>
      dsimp only
      have hviolation : Handles checked host _ := .recordViolation host extension
        "deferred extension event handler returned an error"
      split
      · exact hviolation
      · refine hviolation.trans (applyUpdate _ extension generation envelope .default report.effects
          (hbehaviors.of_steady hviolation.steady)
          fun hc kind value h => ?_)
        rw [hviolation.steady.snapshotIsAuthorized]
        exact hchecked hc (not_not.mp hactive) kind value h

theorem Changes.applyDeferredAdapterUpdate (turn : ExtensionHost G × TickReport)
    (completed : ExtensionId × DeferredNativeUpdate)
    (hchecked : checked → turn.1.Prompt completed) :
    Changes checked turn.1 (applyDeferredAdapterUpdate turn completed).1 := by
  obtain ⟨host, report⟩ := turn
  obtain ⟨extension, completed⟩ := completed
  unfold ExtensionHost.applyDeferredAdapterUpdate
  dsimp only
  split
  · exact .refl
  · rename_i runtime hruntime
    have hstart : ∀ cause, Changes checked host (host.applyDeferredStart extension
        runtime.generation cause completed.result report).1 := by
      intro cause
      unfold applyDeferredStart
      split
      · split
        · exact (Handles.arbitrateUpdate ..).changes
        · exact .refl
      · split
        · rename_i hstate
          refine .single (.fail hruntime ?_)
          simpa using hstate
        · exact .refl
    split
    · exact .refl
    · rename_i hgeneration
      split
      · exact hstart _
      · exact hstart _
      · rename_i envelope hcall
        exact (Handles.applyDeferredEvent host extension runtime.generation envelope
          completed.result report fun hc hactive kind value h =>
            hchecked hc envelope kind value hcall h ⟨runtime, hruntime, not_not.mp hgeneration⟩
              hactive).changes

theorem Handles.callGuest {runtime : ActiveRuntime G}
    (hruntime : host.runtimes[extension]? = some runtime) (envelope : EventEnvelope) :
    Handles checked host (host.callGuest extension runtime envelope).2.2 := by
  unfold ExtensionHost.callGuest
  split
  · exact refl host
  · exact ⟨.single (.guest _ hruntime), .of_setRuntime hruntime rfl⟩

theorem Handles.adapterUpdate (host : ExtensionHost G) (extension : ExtensionId)
    (outcome : Option (Except ExtensionError ExtensionUpdate)) :
    Handles checked host (host.adapterUpdate extension outcome).2 := by
  unfold ExtensionHost.adapterUpdate
  split
  · exact refl host
  · exact refl host
  · exact recordViolation ..

omit [NativeExtension G] [Platform] in
theorem authorized_of_mayReceive {envelope : EventEnvelope}
    (hmay : host.mayReceive extension envelope.event) {kind : SnapshotKind} {value : DataValue}
    (h : snapshotStateUpdate envelope = some (kind, value)) :
    host.snapshotIsAuthorized extension kind := by
  unfold snapshotStateUpdate at h
  split at h
  · rename_i hevent
    obtain ⟨rfl, -⟩ := Prod.mk.inj (some.inj h)
    rwa [hevent] at hmay
  · cases h

section

variable (host : ExtensionHost G)

theorem Handles.handleEvent (report : TickReport) (extension : ExtensionId)
    (envelope : EventEnvelope) (hmay : host.mayReceive extension envelope.event) :
    Handles checked host (host.handleEvent report extension envelope).1 := by
  unfold ExtensionHost.handleEvent
  dsimp only
  split
  · exact refl host
  · rename_i runtime hruntime
    split
    · exact applySnapshot host extension envelope fun _ _ _ h => authorized_of_mayReceive hmay h
    · have hcalled : Handles checked host (if receives runtime.subscriptions envelope.event then
          host.callGuest extension runtime envelope else (none, .immediate, host)).2.2 := by
        split
        · exact callGuest hruntime envelope
        · exact refl host
      generalize (if receives runtime.subscriptions envelope.event then
        host.callGuest extension runtime envelope else (none, .immediate, host)) = called
        at hcalled ⊢
      split
      · exact hcalled
      · have hadapted := hcalled.trans (adapterUpdate called.2.2 extension called.1)
        refine hadapted.trans (applyUpdate _ extension runtime.generation envelope _ report.effects
          ((host.declares_commandBehaviorsForEvent extension envelope).of_steady hadapted.steady)
          fun _ kind value h => ?_)
        rw [hadapted.steady.snapshotIsAuthorized]
        exact authorized_of_mayReceive hmay h

theorem Handles.dispatchQueued (turn : ExtensionHost G × TickReport × List (ExtensionId × CauseId))
    (queued : QueuedEvent) :
    Handles checked turn.1 (dispatchQueued turn queued).1 := by
  unfold ExtensionHost.dispatchQueued
  dsimp only
  split
  · exact recordViolation ..
  split
  · exact refl turn.1
  · rename_i hmay
    exact handleEvent _ _ _ _ (not_not.mp (not_or.mp hmay).2)

/-- The turns of the deferred part of a tick, in each of which `P` holds. -/
def Deferred (P : ExtensionHost G → ExtensionId × DeferredNativeUpdate → Prop) :
    ExtensionHost G × TickReport → List (ExtensionId × DeferredNativeUpdate) → Prop
  | _, [] => True
  | turn, completed :: rest =>
    P turn.1 completed ∧ Deferred P (applyDeferredAdapterUpdate turn completed) rest

theorem Changes.processDeferred (completed : List (ExtensionId × DeferredNativeUpdate))
    (turn : ExtensionHost G × TickReport) (hchecked : checked → Deferred Prompt turn completed) :
    Changes checked turn.1 (completed.foldl ExtensionHost.applyDeferredAdapterUpdate turn).1 := by
  induction completed generalizing turn with
  | nil => exact .refl
  | cons first completed ih =>
    have hfirst := Changes.applyDeferredAdapterUpdate turn first fun hc => (hchecked hc).1
    exact hfirst.trans (ih _ fun hc => (hchecked hc).2)

def dequeue (budget : Nat) : ExtensionHost G :=
  { host with queue := (selectEvents host.tick budget host.queue).2 }

theorem Changes.dispatch (selected : List QueuedEvent)
    (turn : ExtensionHost G × TickReport × List (ExtensionId × CauseId)) :
    Changes checked turn.1 (selected.foldl ExtensionHost.dispatchQueued turn).1 :=
  foldlRecOn selected ExtensionHost.dispatchQueued
    (motive := fun next : ExtensionHost G × TickReport × List (ExtensionId × CauseId) =>
      Changes checked turn.1 next.1)
    .refl fun turn h queued _ => h.trans (Handles.dispatchQueued turn queued).changes

def firstReport : TickReport :=
  { tick := host.tick, processedEvents := 0, deferredEvents := 0, droppedEvents := 0, effects := [] }

/-- Every deferred update that a tick applies is prompt. -/
def PromptTick : Prop :=
  Deferred Prompt (host.beginTick.2, host.beginTick.2.firstReport) host.beginTick.1

/-- The host before it selects the events of a tick, and how many it selects at most. -/
def beforeSelection : ExtensionHost G :=
  (host.beginTick.2.processDeferred host.beginTick.1).1

def selectionBudget : Nat :=
  host.beforeSelection.config.maximumEventsPerTick - host.beginTick.1.length

def selection : List QueuedEvent :=
  (selectEvents host.beforeSelection.tick host.selectionBudget host.beforeSelection.queue).1

theorem Changes.beforeSelection (hchecked : checked → host.PromptTick) :
    Changes checked host.advance host.beforeSelection :=
  (Changes.beginTick host).trans (Changes.processDeferred host.beginTick.1
    (host.beginTick.2, host.beginTick.2.firstReport) hchecked)

theorem processTick_eq : ∃ report,
    host.processTick.1 = (host.selection.foldl ExtensionHost.dispatchQueued
      (host.beforeSelection.dequeue host.selectionBudget, report, [])).1 :=
  ⟨(host.beginTick.2.processDeferred host.beginTick.1).2, rfl⟩

end

end ExtensionHost

end KeyReader.Extension
