import KeyReader.Extension.Operations
import Mathlib.Data.List.Perm.Subperm
import Mathlib.Logic.Relation

/-! What a suspension and the suspensions that it brings about change, and why they end: each of them
leaves one active extension fewer. -/

namespace KeyReader.Extension

open Machine Std OrderedMap Option

namespace ExtensionHost

variable {G : Type}

theorem runtimes_setRuntime (host : ExtensionHost G) (extension other : ExtensionId)
    (runtime : ActiveRuntime G) : (host.setRuntime extension runtime).runtimes[other]? =
      if extension = other then some runtime else host.runtimes[other]? :=
  getElem?_insert ..

variable {extension : ExtensionId} {host : ExtensionHost G}

theorem state_eq_some {state : LifecycleState} : host.state extension = some state ↔
      ∃ record, host.registry[extension]? = some record ∧ record.state = state := by
  simp [ExtensionHost.state]

variable {next : ExtensionHost G}

theorem transition_eq_ok {target : LifecycleState} : host.transition extension target = .ok next ↔
      ∃ record, host.registry[extension]? = some record ∧
        lifecycleTransitionAllowed record.state target ∧
        next = { host with
          registry := host.registry.insert extension { record with state := target } } := by
  unfold transition PackageRecord.transition
  cases host.registry[extension]? with
  | none => simp
  | some record =>
    by_cases h : lifecycleTransitionAllowed record.state target
    · simp only [h, if_true, Except.ok.injEq, some.injEq, exists_eq_left', true_and]
      exact eq_comm
    · simp [h]

/-- The part of a runtime that no suspension changes. -/
def core (host : ExtensionHost G) (extension : ExtensionId) :
    Option (GenerationId × List EventSubscription × Fields) :=
  host.runtimes[extension]?.map fun runtime =>
    (runtime.generation, runtime.subscriptions, runtime.state)

/-- The package of an extension, without its lifecycle state. -/
def package (host : ExtensionHost G) (extension : ExtensionId) :
    Option (ExtensionManifest × PackageMetadata) :=
  host.registry[extension]?.map fun record => (record.manifest, record.metadata)

variable {record : PackageRecord} {reason : String}

section suspension

variable [NativeExtension G]

/-- The first part of a suspension, before the capabilities of the others are resolved again. -/
def withdraw (host : ExtensionHost G) (extension : ExtensionId) (reason : String)
    (record : PackageRecord) : ExtensionHost G :=
  { host.suspendGuest extension reason with
    registry := host.registry.insert extension { record with state := .suspended } }
    |>.dropWork extension

theorem registry_suspendGuest (host : ExtensionHost G) (extension : ExtensionId)
    (reason : String) : (host.suspendGuest extension reason).registry = host.registry := by
  unfold ExtensionHost.suspendGuest
  split <;> rfl

theorem state_withdraw (host : ExtensionHost G) (extension other : ExtensionId) (reason : String)
    (record : PackageRecord) : (host.withdraw extension reason record).state other =
      if extension = other then some .suspended else host.state other := by
  show (host.registry.insert extension _)[other]?.map _ = _
  rw [getElem?_insert]
  split <;> rfl

section

variable [Platform]

theorem suspendBy_active (suspend : Suspension G) (reason : String)
    (hrecord : host.registry[extension]? = some record) (hactive : record.state = .active) :
    suspendBy suspend host extension reason = .ok (broadcastCapabilityChangesBy suspend
      (reconcileActiveCapabilitiesBy suspend (host.withdraw extension reason record))) := by
  have htransition : (host.suspendGuest extension reason).transition extension .suspended =
      .ok { host.suspendGuest extension reason with
        registry := host.registry.insert extension { record with state := .suspended } } := by
    refine transition_eq_ok.mpr ⟨record, by rw [registry_suspendGuest, hrecord], ?_, ?_⟩
    · rw [hactive]
      decide
    · rw [registry_suspendGuest]
  unfold suspendBy
  rw [state_eq_some.mpr ⟨record, hrecord, hactive⟩]
  simp only [htransition, Checked.ok_bind]
  rfl

theorem suspendBy_inactive (reason : String) (hstate : host.state extension ≠ some .active) :
    ∃ error, ∀ suspend, suspendBy suspend host extension reason = .error error := by
  unfold suspendBy
  cases h : host.state extension with
  | none => exact ⟨_, fun _ => rfl⟩
  | some state =>
    refine ⟨.invalidState extension state, fun suspend => ?_⟩
    cases state
    case active => exact absurd h hstate
    all_goals rfl

theorem suspendBy_eq_ok {suspend : Suspension G} :
    suspendBy suspend host extension reason = .ok next ↔
      ∃ record, host.registry[extension]? = some record ∧ record.state = .active ∧
        next = broadcastCapabilityChangesBy suspend (reconcileActiveCapabilitiesBy suspend
          (host.withdraw extension reason record)) := by
  by_cases hstate : host.state extension = some .active
  · obtain ⟨record, hrecord, hactive⟩ := state_eq_some.mp hstate
    rw [suspendBy_active suspend reason hrecord hactive]
    constructor
    · rintro ⟨⟩
      exact ⟨record, hrecord, hactive, rfl⟩
    · rintro ⟨record', hrecord', -, rfl⟩
      cases hrecord.symm.trans hrecord'
      rfl
  · obtain ⟨error, herror⟩ := suspendBy_inactive reason hstate
    rw [herror suspend]
    simp only [reduceCtorEq, false_iff, not_exists, not_and]
    intro record hrecord hactive
    exact absurd (state_eq_some.mpr ⟨record, hrecord, hactive⟩) hstate

end

/-- One thing that a violation, an event or a suspension does to the host. -/
inductive Ripple : ExtensionHost G → ExtensionHost G → Prop
  | violation {host : ExtensionHost G} {extension : ExtensionId} {runtime : ActiveRuntime G}
      (hruntime : host.runtimes[extension]? = some runtime) :
      Ripple host (host.setRuntime extension { runtime with
        violations := min (runtime.violations + 1) 65535 })
  | capabilities {host : ExtensionHost G} {extension : ExtensionId} {runtime : ActiveRuntime G}
      (capabilities : CapabilitySnapshot)
      (hruntime : host.runtimes[extension]? = some runtime) :
      Ripple host (host.setRuntime extension { runtime with capabilities })
  | cause (host : ExtensionHost G) : Ripple host host.rootCause.2
  | push {host : ExtensionHost G} {target : ExtensionId} (source : EventSource)
      (event : ExtensionEvent) (cause : CauseContext) (rootCause : CauseId)
      (htarget : host.registry.contains target) :
      Ripple host { host with
        nextEventSequence := saturatingAdd host.nextEventSequence 1
        queue := host.queue ++ [{
          target
          envelope := { cause, source, sequence := host.nextEventSequence, event }
          rootCause
          eligibleTick := saturatingAdd host.tick 1 }] }
  | withdraw {host : ExtensionHost G} {extension : ExtensionId} {record : PackageRecord}
      (reason : String) (hrecord : host.registry[extension]? = some record)
      (hactive : record.state = .active) :
      Ripple host (host.withdraw extension reason record)

/-- A sequence of ripples. -/
abbrev Ripples : ExtensionHost G → ExtensionHost G → Prop := Relation.ReflTransGen Ripple

namespace Ripples

theorem setCapabilities (host : ExtensionHost G) (id : ExtensionId)
    (snapshot : CapabilitySnapshot) : Ripples host (host.setCapabilities id snapshot) := by
  unfold ExtensionHost.setCapabilities
  split
  · exact .refl
  · exact .single (.capabilities _ ‹_›)

section parts

variable {suspend : Suspension G}
  (hsuspend : ∀ host extension reason, Ripples host (suspend host extension reason))

include hsuspend

theorem recordViolationBy (host : ExtensionHost G) (extension : ExtensionId) (message : String) :
    Ripples host (recordViolationBy suspend host extension message) := by
  unfold ExtensionHost.recordViolationBy
  split
  · exact .refl
  · rename_i runtime hruntime
    dsimp only
    split
    · exact .head (.violation hruntime) (hsuspend ..)
    · exact .single (.violation hruntime)

theorem enqueueEventInternalBy (host : ExtensionHost G) (target : ExtensionId)
    (source : EventSource) (event : ExtensionEvent) (cause : CauseContext) (rootCause : CauseId) :
    Ripples host (enqueueEventInternalBy suspend host target source event cause rootCause).2 := by
  unfold ExtensionHost.enqueueEventInternalBy
  split
  · exact .refl
  split
  · exact recordViolationBy hsuspend ..
  split
  · exact recordViolationBy hsuspend ..
  · rename_i htarget _ _
    exact .single (.push source event cause rootCause (not_not.mp htarget))

theorem enqueueHostEventBy (host : ExtensionHost G) (target : ExtensionId)
    (event : ExtensionEvent) : Ripples host (enqueueHostEventBy suspend host target event).2 := by
  have h : Ripples host _ := .head (.cause host) (enqueueEventInternalBy hsuspend
    host.rootCause.2 target .host event host.rootCause.1 host.rootCause.1.id)
  unfold ExtensionHost.enqueueHostEventBy
  dsimp only
  split <;> rename_i heq <;> rwa [heq] at h

theorem broadcastCapabilityChangesBy (host : ExtensionHost G) :
    Ripples host (broadcastCapabilityChangesBy suspend host) :=
  List.foldlRecOn (motive := Ripples host) _ _ .refl
    fun _ h _ _ => h.trans (enqueueHostEventBy hsuspend ..)

theorem reconcileActiveCapabilitiesBy [Platform] (host : ExtensionHost G) :
    Ripples host (reconcileActiveCapabilitiesBy suspend host) := by
  refine List.foldlRecOn (motive := Ripples host) _ _ ?_ fun _ h _ _ => h.trans (hsuspend ..)
  exact List.foldlRecOn (motive := Ripples host) _ _ .refl
    fun _ h _ _ => h.trans (setCapabilities ..)

theorem suspendBy [Platform] (h : suspendBy suspend host extension reason = .ok next) :
    Ripples host next := by
  obtain ⟨record, hrecord, hactive, rfl⟩ := suspendBy_eq_ok.mp h
  exact .head (.withdraw reason hrecord hactive)
    ((reconcileActiveCapabilitiesBy hsuspend _).trans (broadcastCapabilityChangesBy hsuspend _))

end parts

variable [Platform]

theorem suspendFuel (fuel : Nat) (host : ExtensionHost G) (extension : ExtensionId)
    (reason : String) : Ripples host (suspendFuel fuel host extension reason) := by
  induction fuel generalizing host extension reason with
  | zero => exact .refl
  | succ fuel ih =>
    unfold ExtensionHost.suspendFuel
    split
    · rename_i next h
      exact suspendBy ih h
    · exact .refl

theorem suspendOrIgnore (host : ExtensionHost G) (extension : ExtensionId) (reason : String) :
    Ripples host (host.suspendOrIgnore extension reason) :=
  suspendFuel _ host extension reason

theorem suspend (h : host.suspend extension reason = .ok next) : Ripples host next :=
  suspendBy suspendOrIgnore h

theorem recordViolation (host : ExtensionHost G) (extension : ExtensionId) (message : String) :
    Ripples host (host.recordViolation extension message) :=
  recordViolationBy suspendOrIgnore ..

theorem enqueueEventInternal (host : ExtensionHost G) (target : ExtensionId) (source : EventSource)
    (event : ExtensionEvent) (cause : CauseContext) (rootCause : CauseId) :
    Ripples host (host.enqueueEventInternal target source event cause rootCause).2 :=
  enqueueEventInternalBy suspendOrIgnore ..

theorem enqueueHostEvent (host : ExtensionHost G) (target : ExtensionId)
    (event : ExtensionEvent) : Ripples host (host.enqueueHostEvent target event).2 :=
  enqueueHostEventBy suspendOrIgnore ..

theorem broadcastCapabilityChanges (host : ExtensionHost G) :
    Ripples host host.broadcastCapabilityChanges :=
  broadcastCapabilityChangesBy suspendOrIgnore host

theorem reconcileActiveCapabilities (host : ExtensionHost G) :
    Ripples host host.reconcileActiveCapabilities :=
  reconcileActiveCapabilitiesBy suspendOrIgnore host

omit [Platform] in
theorem childCause {parent cause : CauseContext} (h : host.childCause parent = some (cause, next)) :
    Ripples host next := by
  unfold ExtensionHost.childCause at h
  split at h
  · cases h
  · obtain ⟨-, rfl⟩ := Prod.mk.inj (some.inj h)
    exact .single (.cause host)

theorem enqueueExtensionEvent (host : ExtensionHost G) (source target : ExtensionId)
    (parent : CauseContext) (event : ExtensionEvent) :
    Ripples host (host.enqueueExtensionEvent source target parent event).2 := by
  unfold ExtensionHost.enqueueExtensionEvent
  split
  · exact .refl
  split
  · exact recordViolation ..
  · rename_i cause next hcause
    have h := (childCause hcause).trans (enqueueEventInternal next target
      (.extension source) event cause parent.id)
    split <;> rename_i heq <;> rwa [heq] at h

theorem queueEffectCompleted (host : ExtensionHost G) (extension : ExtensionId)
    (generation : GenerationId) (effect : EffectId) (parent : CauseContext) (result : EffectResult)
    (message : String) : Ripples host
      (host.queueEffectCompleted extension generation effect parent result message).2 := by
  unfold ExtensionHost.queueEffectCompleted
  split
  · exact .refl
  split
  · exact recordViolation ..
  · rename_i cause next hcause
    have h := (childCause hcause).trans (enqueueEventInternal next extension .host
      (.effectCompleted effect result) cause parent.id)
    split <;> rename_i heq <;> rwa [heq] at h

theorem invokeCommand (host : ExtensionHost G) (command : CommandId) (payload : DataValue) :
    Ripples host (host.invokeCommand command payload).2 := by
  unfold ExtensionHost.invokeCommand
  split
  · exact .refl
  split
  · exact .refl
  · exact enqueueHostEvent ..

theorem announceSetting (host : ExtensionHost G) (extension : ExtensionId) (key : String) :
    Ripples host (host.announceSetting extension key).2 := by
  have h := enqueueHostEvent host extension (.lifecycle (.settingsChanged [key]))
  unfold ExtensionHost.announceSetting
  split
  · split <;> rename_i heq <;> rwa [heq] at h
  · exact .refl

end Ripples

end suspension

/-- Between the two hosts nothing has happened but suspensions: active extensions may have been
suspended and then have no pending effects, and capabilities, instances, violations, causes and the
queue may have changed. -/
structure Quiet (host next : ExtensionHost G) : Prop where
  config : next.config = host.config
  adapters : next.adapters = host.adapters
  wasmAdapters : next.wasmAdapters = host.wasmAdapters
  hostCapabilities : next.hostCapabilities = host.hostCapabilities
  capabilityPermissions : next.capabilityPermissions = host.capabilityPermissions
  snapshotPermissions : next.snapshotPermissions = host.snapshotPermissions
  permissionDecisions : next.permissionDecisions = host.permissionDecisions
  persistedSettings : next.persistedSettings = host.persistedSettings
  tick : next.tick = host.tick
  nextGeneration : next.nextGeneration = host.nextGeneration
  history : next.history = host.history
  package : ∀ extension, next.package extension = host.package extension
  core : ∀ extension, next.core extension = host.core extension
  lifecycle : ∀ extension, next.state extension = host.state extension ∨
    (host.state extension = some .active ∧ next.state extension = some .suspended)
  pending : ∀ extension id, next.pendingEffects.lookup (extension, id) =
    if host.state extension = some .active ∧ next.state extension ≠ some .active then none
    else host.pendingEffects.lookup (extension, id)

theorem suspends_trans {before between after : Option LifecycleState}
    (hfirst : between = before ∨ before = some .active ∧ between = some .suspended)
    (hsecond : after = between ∨ between = some .active ∧ after = some .suspended) :
    after = before ∨ before = some .active ∧ after = some .suspended := by
  grind

namespace Quiet

theorem refl (host : ExtensionHost G) : Quiet host host where
  config := rfl
  adapters := rfl
  wasmAdapters := rfl
  hostCapabilities := rfl
  capabilityPermissions := rfl
  snapshotPermissions := rfl
  permissionDecisions := rfl
  persistedSettings := rfl
  tick := rfl
  nextGeneration := rfl
  history := rfl
  package _ := rfl
  core _ := rfl
  lifecycle _ := .inl rfl
  pending extension id := by simp +contextual

theorem trans {middle : ExtensionHost G} (first : Quiet host middle) (second : Quiet middle next) :
    Quiet host next where
  config := second.config.trans first.config
  adapters := second.adapters.trans first.adapters
  wasmAdapters := second.wasmAdapters.trans first.wasmAdapters
  hostCapabilities := second.hostCapabilities.trans first.hostCapabilities
  capabilityPermissions := second.capabilityPermissions.trans first.capabilityPermissions
  snapshotPermissions := second.snapshotPermissions.trans first.snapshotPermissions
  permissionDecisions := second.permissionDecisions.trans first.permissionDecisions
  persistedSettings := second.persistedSettings.trans first.persistedSettings
  tick := second.tick.trans first.tick
  nextGeneration := second.nextGeneration.trans first.nextGeneration
  history := second.history.trans first.history
  package extension := (second.package extension).trans (first.package extension)
  core extension := (second.core extension).trans (first.core extension)
  lifecycle extension := suspends_trans (first.lifecycle extension) (second.lifecycle extension)
  pending extension id := by
    rw [second.pending, first.pending]
    rcases first.lifecycle extension with h | ⟨hactive, hsuspended⟩
    · rw [h]
      by_cases hactive : host.state extension = some .active <;> simp [hactive]
    · rcases second.lifecycle extension with h | ⟨hactive', -⟩
      · simp [hactive, hsuspended, h]
      · cases hsuspended.symm.trans hactive'

theorem active (h : Quiet host next) (hactive : next.state extension = some .active) :
    host.state extension = some .active := by
  rcases h.lifecycle extension with heq | ⟨hactive', -⟩
  · rwa [heq] at hactive
  · exact hactive'

theorem isSome_runtimes (h : Quiet host next) (extension : ExtensionId) :
    next.runtimes[extension]?.isSome = host.runtimes[extension]?.isSome := by
  have hcore := congrArg isSome (h.core extension)
  simpa [ExtensionHost.core] using hcore

theorem of_queue (host : ExtensionHost G) (queue : List QueuedEvent) (nextCause sequence : Nat) :
    Quiet host { host with queue, nextCause, nextEventSequence := sequence } where
  __ := refl host

theorem of_setRuntime {runtime next : ActiveRuntime G}
    (hruntime : host.runtimes[extension]? = some runtime)
    (hcore : (next.generation, next.subscriptions, next.state) =
      (runtime.generation, runtime.subscriptions, runtime.state)) :
    Quiet host (host.setRuntime extension next) where
  __ := refl host
  core other := by
    unfold ExtensionHost.core
    rw [runtimes_setRuntime]
    split
    · rename_i h
      rw [← h, hruntime, map_some, map_some, hcore]
    · rfl

theorem rootCause (host : ExtensionHost G) : Quiet host host.rootCause.2 :=
  of_queue host host.queue _ _

theorem setCapabilities (host : ExtensionHost G) (id : ExtensionId)
    (snapshot : CapabilitySnapshot) : Quiet host (host.setCapabilities id snapshot) := by
  unfold ExtensionHost.setCapabilities
  split
  · exact refl host
  · rename_i runtime hruntime
    exact of_setRuntime hruntime rfl

section

variable [NativeExtension G]

theorem suspendGuest (host : ExtensionHost G) (extension : ExtensionId) (reason : String) :
    Quiet host (host.suspendGuest extension reason) := by
  unfold ExtensionHost.suspendGuest
  split
  · exact refl host
  · rename_i runtime hruntime
    exact of_setRuntime hruntime rfl

theorem withdraw (reason : String) (hrecord : host.registry[extension]? = some record)
    (hactive : record.state = .active) : Quiet host (host.withdraw extension reason record) where
  __ := suspendGuest host extension reason
  package other := by
    unfold ExtensionHost.package
    show ((host.registry.insert extension _)[other]?.map _) = _
    rw [getElem?_insert]
    split
    · rename_i h
      rw [← h, hrecord]
      rfl
    · rfl
  lifecycle other := by
    rw [state_withdraw]
    split
    · rename_i h
      exact .inr ⟨h ▸ state_eq_some.mpr ⟨record, hrecord, hactive⟩, rfl⟩
    · exact .inl rfl
  pending other id := by
    have hquiet := (suspendGuest host extension reason).pending other id
    have hstate : (host.suspendGuest extension reason).state other = host.state other := by
      unfold ExtensionHost.state
      rw [registry_suspendGuest]
    rw [hstate] at hquiet
    show (Table.retain (·.1 ≠ extension)
      (host.suspendGuest extension reason).pendingEffects).lookup (other, id) = _
    rw [Table.lookup_retain, hquiet, state_withdraw]
    by_cases h : extension = other
    · subst h
      simp [state_eq_some.mpr ⟨record, hrecord, hactive⟩]
    · simp [h, Ne.symm h]

theorem of_ripple (h : Ripple host next) : Quiet host next := by
  cases h with
  | violation hruntime | capabilities _ hruntime => exact of_setRuntime hruntime rfl
  | cause => exact of_queue host host.queue _ _
  | push => exact of_queue host _ host.nextCause _
  | withdraw reason hrecord hactive => exact withdraw reason hrecord hactive

theorem of_ripples (h : Ripples host next) : Quiet host next := by
  induction h with
  | refl => exact refl host
  | tail _ hlast ih => exact ih.trans (of_ripple hlast)

end

end Quiet

def activeIds (host : ExtensionHost G) : List ExtensionId :=
  (host.registry.toList.filter fun (_, record) => record.state = .active).map (·.1)

theorem mem_activeIds : extension ∈ host.activeIds ↔ host.state extension = some .active := by
  rw [state_eq_some]
  simp only [activeIds, List.mem_map, List.mem_filter, decide_eq_true_eq, Prod.exists,
    mem_toList_iff]
  constructor
  · rintro ⟨_, record, ⟨hrecord, hstate⟩, rfl⟩
    exact ⟨record, hrecord, hstate⟩
  · rintro ⟨record, hrecord, hstate⟩
    exact ⟨extension, record, ⟨hrecord, hstate⟩, rfl⟩

theorem nodup_activeIds (host : ExtensionHost G) : host.activeIds.Nodup := by
  have hkeys : (host.registry.toList.map (·.1)).Nodup := by
    rw [ExtTreeMap.map_fst_toList_eq_keys]
    exact ExtTreeMap.nodup_keys
  exact hkeys.sublist (List.filter_sublist.map _)

theorem activeCount_eq (host : ExtensionHost G) : host.activeCount = host.activeIds.length := by
  rw [activeCount, activeIds, List.length_map, List.countP_eq_length_filter]

theorem activeCount_le
    (h : ∀ extension, next.state extension = some .active → host.state extension = some .active) :
    next.activeCount ≤ host.activeCount := by
  rw [activeCount_eq, activeCount_eq]
  exact (List.subperm_of_subset next.nodup_activeIds fun extension hmem =>
    mem_activeIds.mpr (h extension (mem_activeIds.mp hmem))).length_le

theorem activeCount_lt
    (h : ∀ other, next.state other = some .active → host.state other = some .active)
    (hactive : host.state extension = some .active) (hleft : next.state extension ≠ some .active) :
    next.activeCount < host.activeCount := by
  rw [activeCount_eq, activeCount_eq]
  have hnodup : (extension :: next.activeIds).Nodup :=
    List.nodup_cons.mpr ⟨fun hmem => hleft (mem_activeIds.mp hmem), next.nodup_activeIds⟩
  refine (List.subperm_of_subset hnodup fun other hmem => mem_activeIds.mpr ?_).length_le
  rcases List.mem_cons.mp hmem with rfl | hmem
  · exact hactive
  · exact h other (mem_activeIds.mp hmem)

theorem Quiet.activeCount_le (h : Quiet host next) : next.activeCount ≤ host.activeCount :=
  ExtensionHost.activeCount_le fun _ => h.active

variable [NativeExtension G]

theorem activeCount_withdraw_lt (reason : String)
    (hrecord : host.registry[extension]? = some record) (hactive : record.state = .active) :
    (host.withdraw extension reason record).activeCount < host.activeCount := by
  refine activeCount_lt (fun _ => (Quiet.withdraw reason hrecord hactive).active)
    (state_eq_some.mpr ⟨record, hrecord, hactive⟩) ?_
  rw [state_withdraw]
  simp

variable [Platform]

omit [Platform] in
theorem foldl_congr_active {α : Type} {f g : ExtensionHost G → α → ExtensionHost G} {count : Nat}
    (hripples : ∀ host x, Ripples host (f host x))
    (hagree : ∀ host x, host.activeCount ≤ count → f host x = g host x) (xs : List α)
    (hcount : host.activeCount ≤ count) : xs.foldl f host = xs.foldl g host := by
  induction xs generalizing host with
  | nil => rfl
  | cons x xs ih =>
    rw [List.foldl_cons, List.foldl_cons, ← hagree host x hcount]
    exact ih (Nat.le_trans (Quiet.of_ripples (hripples host x)).activeCount_le hcount)

section agreement

variable {first second : Suspension G} {count : Nat}
  (hripples : ∀ host extension reason, Ripples host (first host extension reason))
  (hagree : ∀ host extension reason, host.activeCount ≤ count →
    first host extension reason = second host extension reason)

include hagree

omit [Platform] [NativeExtension G] in
theorem recordViolationBy_congr (hcount : host.activeCount ≤ count) (extension : ExtensionId)
    (message : String) : recordViolationBy first host extension message =
      recordViolationBy second host extension message := by
  unfold recordViolationBy
  cases host.runtimes[extension]? with
  | none => rfl
  | some runtime =>
    dsimp only
    rw [hagree (host.setRuntime extension _) _ _ hcount]

omit [Platform] [NativeExtension G] in
theorem enqueueHostEventBy_congr (hcount : host.activeCount ≤ count) (target : ExtensionId)
    (event : ExtensionEvent) :
    enqueueHostEventBy first host target event = enqueueHostEventBy second host target event := by
  have hcount' : host.rootCause.2.activeCount ≤ count :=
    Nat.le_trans (Quiet.rootCause host).activeCount_le hcount
  unfold enqueueHostEventBy enqueueEventInternalBy
  dsimp only
  rw [recordViolationBy_congr hagree hcount', recordViolationBy_congr hagree hcount']

include hripples

omit [Platform] in
theorem broadcastCapabilityChangesBy_congr (hcount : host.activeCount ≤ count) :
    broadcastCapabilityChangesBy first host =
      broadcastCapabilityChangesBy second host :=
  foldl_congr_active (fun _ _ => .enqueueHostEventBy hripples ..)
    (fun host _ hcount => by dsimp only; rw [enqueueHostEventBy_congr hagree hcount])
    _ hcount

theorem reconcileActiveCapabilitiesBy_congr (hcount : host.activeCount ≤ count) :
    reconcileActiveCapabilitiesBy first host =
      reconcileActiveCapabilitiesBy second host := by
  refine foldl_congr_active (fun _ _ => hripples ..) (fun _ _ hcount => hagree _ _ _ hcount) _ ?_
  refine Nat.le_trans (Quiet.activeCount_le ?_) hcount
  exact List.foldlRecOn _ _ (Quiet.refl host) fun _ h _ _ => h.trans (Quiet.setCapabilities ..)

theorem suspendBy_congr (hcount : host.activeCount ≤ count + 1) (extension : ExtensionId)
    (reason : String) :
    suspendBy first host extension reason = suspendBy second host extension reason := by
  by_cases hstate : host.state extension = some .active
  · obtain ⟨record, hrecord, hactive⟩ := state_eq_some.mp hstate
    have hfewer := activeCount_withdraw_lt reason hrecord hactive
    have hleft : (host.withdraw extension reason record).activeCount ≤ count := by omega
    have hreconciled := Quiet.of_ripples (.reconcileActiveCapabilitiesBy hripples
      (host.withdraw extension reason record))
    rw [suspendBy_active first reason hrecord hactive, suspendBy_active second reason hrecord hactive,
      broadcastCapabilityChangesBy_congr hripples hagree
        (Nat.le_trans hreconciled.activeCount_le hleft),
      reconcileActiveCapabilitiesBy_congr hripples hagree hleft]
  · obtain ⟨error, herror⟩ := suspendBy_inactive reason hstate
    rw [herror, herror]

end agreement

theorem suspendFuel_inactive (fuel : Nat) (hstate : host.state extension ≠ some .active)
    (reason : String) : suspendFuel fuel host extension reason = host := by
  cases fuel with
  | zero => rfl
  | succ fuel =>
    obtain ⟨error, herror⟩ := suspendBy_inactive reason hstate
    unfold suspendFuel
    rw [herror]

omit [Platform] [NativeExtension G] in
theorem state_of_activeCount_eq_zero (hzero : host.activeCount = 0) (extension : ExtensionId) :
    host.state extension ≠ some .active := by
  intro hactive
  rw [activeCount_eq, List.length_eq_zero_iff] at hzero
  exact List.not_mem_nil (hzero ▸ mem_activeIds.mpr hactive)

theorem suspendFuel_eq {fuel more : Nat} (hfuel : host.activeCount ≤ fuel)
    (hmore : host.activeCount ≤ more) (extension : ExtensionId) (reason : String) :
    suspendFuel fuel host extension reason = suspendFuel more host extension reason := by
  induction fuel generalizing more host extension reason with
  | zero =>
    have hstate := state_of_activeCount_eq_zero (by omega : host.activeCount = 0) extension
    rw [suspendFuel_inactive _ hstate, suspendFuel_inactive _ hstate]
  | succ fuel ih =>
    cases more with
    | zero =>
      have hstate := state_of_activeCount_eq_zero (by omega : host.activeCount = 0) extension
      rw [suspendFuel_inactive _ hstate, suspendFuel_inactive _ hstate]
    | succ more =>
      have hagree : ∀ (host : ExtensionHost G) extension reason, host.activeCount ≤ min fuel more →
            suspendFuel fuel host extension reason = suspendFuel more host extension reason :=
        fun host extension reason hcount => ih (by omega) (by omega) extension reason
      unfold suspendFuel
      rw [suspendBy_congr (Ripples.suspendFuel fuel) hagree (by omega) extension reason]

section

variable (host : ExtensionHost G)

section

variable (extension : ExtensionId)

theorem suspendOrIgnore_eq (reason : String) : host.suspendOrIgnore extension reason =
      match host.suspend extension reason with
      | .ok next => next
      | .error _ => host := by
  have hagree : ∀ (other : ExtensionHost G) extension reason,
      other.activeCount ≤ host.activeCount → other.suspendOrIgnore extension reason =
        suspendFuel host.activeCount other extension reason :=
    fun other extension reason hcount => suspendFuel_eq le_rfl hcount extension reason
  unfold ExtensionHost.suspend
  rw [suspendBy_congr .suspendOrIgnore hagree (Nat.le_succ _) extension reason]
  show suspendFuel _ host extension reason = _
  rw [suspendFuel_eq le_rfl (Nat.le_succ _) extension reason]
  rfl

theorem Quiet.suspendOrIgnore
    (reason : String) : Quiet host (host.suspendOrIgnore extension reason) :=
  .of_ripples (.suspendOrIgnore ..)

theorem Quiet.recordViolation
    (message : String) : Quiet host (host.recordViolation extension message) :=
  .of_ripples (.recordViolation ..)

end

theorem Quiet.enqueueEventInternal (target : ExtensionId) (source : EventSource)
    (event : ExtensionEvent) (cause : CauseContext) (rootCause : CauseId) :
    Quiet host (host.enqueueEventInternal target source event cause rootCause).2 :=
  .of_ripples (.enqueueEventInternal ..)

theorem Quiet.enqueueHostEvent (target : ExtensionId)
    (event : ExtensionEvent) : Quiet host (host.enqueueHostEvent target event).2 :=
  .of_ripples (.enqueueHostEvent ..)

theorem Quiet.broadcastCapabilityChanges : Quiet host host.broadcastCapabilityChanges :=
  .of_ripples (.broadcastCapabilityChanges host)

theorem Quiet.reconcileActiveCapabilities : Quiet host host.reconcileActiveCapabilities :=
  .of_ripples (.reconcileActiveCapabilities host)

end

omit [Platform] in
theorem Quiet.childCause {parent cause : CauseContext}
    (h : host.childCause parent = some (cause, next)) : Quiet host next :=
  .of_ripples (.childCause h)

theorem Quiet.queueEffectCompleted (host : ExtensionHost G) (extension : ExtensionId)
    (generation : GenerationId) (effect : EffectId) (parent : CauseContext) (result : EffectResult)
    (message : String) : Quiet host
      (host.queueEffectCompleted extension generation effect parent result message).2 :=
  .of_ripples (.queueEffectCompleted ..)

theorem Quiet.announceSetting (host : ExtensionHost G) (extension : ExtensionId) (key : String) :
    Quiet host (host.announceSetting extension key).2 :=
  .of_ripples (.announceSetting ..)

end ExtensionHost

end KeyReader.Extension
