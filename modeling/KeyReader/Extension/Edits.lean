import KeyReader.Extension.Frames

/-! What the operations of a session do to the host, but for those that install a package, start a
runtime or dispatch events: a sequence of the edits below, each with what was checked before it. -/

namespace KeyReader.Extension

open Checked OrderedMap

namespace ExtensionHost

variable {G : Type}

/-- The states in which an extension has a runtime. -/
def Started (state : Option LifecycleState) : Prop :=
  state = some .active ∨ state = some .suspended

instance decidableStarted (state : Option LifecycleState) : Decidable (Started state) :=
  inferInstanceAs (Decidable (_ ∨ _))

/-- The packages, the runtimes and the counters are the same.  Work may have been dropped. -/
structure Plain (host next : ExtensionHost G) : Prop where
  limits : next.config.validationLimits = host.config.validationLimits := by rfl
  licenses : next.config.allowedLicenseExpressions = host.config.allowedLicenseExpressions := by rfl
  registry : next.registry = host.registry := by rfl
  runtimes : next.runtimes = host.runtimes := by rfl
  decisions : next.permissionDecisions = host.permissionDecisions := by rfl
  persistedSettings : next.persistedSettings = host.persistedSettings := by rfl
  nextGeneration : next.nextGeneration = host.nextGeneration := by rfl
  tick : next.tick = host.tick := by rfl
  sequence : next.nextEventSequence = host.nextEventSequence := by rfl
  queue : next.queue.Sublist host.queue := by exact .refl _
  pending : ∀ key entry, next.pendingEffects.lookup key = some entry →
    host.pendingEffects.lookup key = some entry := by exact fun _ _ h => h

/-- What a transition does to the lifecycle states, and what it leaves. -/
theorem transition_spec {host next : ExtensionHost G} {extension : ExtensionId}
    {target : LifecycleState} (h : host.transition extension target = .ok next) :
    next.runtimes = host.runtimes ∧ next.nextGeneration = host.nextGeneration ∧
      ∀ other, next.state other = if extension = other then some target else host.state other := by
  obtain ⟨record, -, -, rfl⟩ := transition_eq_ok.mp h
  refine ⟨rfl, rfl, fun other => ?_⟩
  unfold ExtensionHost.state
  rw [getElem?_insert]
  split <;> rfl

theorem Plain.dropWork (host : ExtensionHost G) (extension : ExtensionId) :
    Plain host (host.dropWork extension) where
  queue := List.filter_sublist
  pending key entry h := by
    change (Table.retain (·.1 ≠ extension) host.pendingEffects).lookup key = some entry at h
    rw [Table.lookup_retain] at h
    split at h
    · exact h
    · cases h

theorem Plain.erasePending (host : ExtensionHost G) (erased : ExtensionId × EffectId) :
    Plain host { host with pendingEffects := host.pendingEffects.erase erased } where
  pending key entry h := (Table.of_lookup_erase h).2

variable [Platform] [NativeExtension G]

/-- One edit of an operation on some extensions. -/
inductive Edit (own : ExtensionId → Prop) : ExtensionHost G → ExtensionHost G → Prop
  | ripples {host next : ExtensionHost G} (h : Ripples host next) : Edit own host next
  | changes {host next : ExtensionHost G} (h : Changes False host next) : Edit own host next
  | plain {host next : ExtensionHost G} (h : Plain host next) : Edit own host next
  | runtime {host : ExtensionHost G} {extension : ExtensionId} {runtime after : ActiveRuntime G}
      (hruntime : host.runtimes[extension]? = some runtime)
      (hgeneration : after.generation = runtime.generation)
      (hsettings : Assoc.get "settings" after.state = Assoc.get "settings" runtime.state) :
      Edit own host (host.setRuntime extension after)
  | settings {host next : ExtensionHost G} {extension : ExtensionId} {settings : DataValue}
      (h : host.restoreExtensionSettings extension settings = .ok next) : Edit own host next
  | decisions {host : ExtensionHost G} {decisions : AList fun _ : ExtensionId => List PermissionEntry}
      (h : ∀ other, ¬own other → decisions.lookup other = host.permissionDecisions.lookup other) :
      Edit own host { host with permissionDecisions := decisions }
  | transition {host next : ExtensionHost G} {extension : ExtensionId} {target : LifecycleState}
      (hown : own extension) (hstarted : Started (some target) ↔ Started (host.state extension))
      (h : host.transition extension target = .ok next) : Edit own host next
  /-- A started extension is unloaded: it loses its runtime, and then its work. -/
  | stop {host unloading next : ExtensionHost G} {extension : ExtensionId} (hown : own extension)
      (hunloading : host.transition extension .unloading = .ok unloading)
      (h : (unloading.closeRuntime extension).transition extension .disabled = .ok next) :
      Edit own host (next.dropWork extension)
  | forget {host : ExtensionHost G} {extension : ExtensionId} (hown : own extension)
      (hidle : ¬Started (host.state extension)) : Edit own host { host with
        persistedSettings := host.persistedSettings.erase extension
        registry := host.registry.erase extension }
  | invalidate (host : ExtensionHost G) (snapshots : List SnapshotKind) :
      Edit own host (host.invalidateDocumentScope snapshots)

abbrev Edits (own : ExtensionId → Prop) : ExtensionHost G → ExtensionHost G → Prop :=
  Relation.ReflTransGen (Edit own)

namespace Edits

variable {own : ExtensionId → Prop} {host next : ExtensionHost G} {extension : ExtensionId}

theorem reconcile (host : ExtensionHost G) :
    Edits own host host.reconcileActiveCapabilities.broadcastCapabilityChanges :=
  .single (.ripples ((Ripples.reconcileActiveCapabilities host).trans
    (Ripples.broadcastCapabilityChanges _)))

theorem purge (host : ExtensionHost G) (extension : ExtensionId) (permission : Permission) :
    Edits own host (host.purgeSnapshotNamespacesForPermission extension permission) := by
  unfold purgeSnapshotNamespacesForPermission
  split
  · exact .refl
  · rename_i runtime hruntime
    refine .single (.runtime hruntime rfl ?_)
    refine List.foldlRecOn _ _ (motive := fun state : Fields =>
      Assoc.get "settings" state = Assoc.get "settings" runtime.state) rfl
      fun state h key hkey => ?_
    obtain ⟨entry, -, rfl⟩ := List.mem_map.mp hkey
    rw [Assoc.get_remove, if_neg (snapshotNamespace_ne_settings _), h]

theorem setPermissionDecision (hown : own extension) (permission : Permission)
    (decision : PermissionDecision) :
    Edits own host (host.setPermissionDecision extension permission decision) := by
  have hdecided : ∀ entries, Edits own host { host with
      permissionDecisions := host.permissionDecisions.insert extension entries } := by
    refine fun entries => .single (.decisions fun other hother => ?_)
    exact AList.lookup_insert_ne fun heq => hother (heq ▸ hown)
  unfold ExtensionHost.setPermissionDecision
  split
  · exact (hdecided _).trans (purge ..)
  · exact hdecided _

theorem clearPermissionDecisions (hown : own extension) :
    Edits own host (host.clearPermissionDecisions extension) := by
  have herased : Edits own host { host with
      permissionDecisions := host.permissionDecisions.erase extension } := by
    refine .single (.decisions fun other hother => ?_)
    exact AList.lookup_erase_ne fun heq => hother (heq ▸ hown)
  exact List.foldlRecOn (motive := Edits own host) _ _ herased fun _ h _ _ => h.trans (purge ..)

theorem requireSnapshotPermissions (snapshot : SnapshotKind) (permissions : List Permission) :
    Edits own host (host.requireSnapshotPermissions snapshot permissions) := by
  unfold ExtensionHost.requireSnapshotPermissions
  split <;> exact .single (.plain { })

theorem updateExtensionSetting (extension : ExtensionId) (key : String) (value : DataValue) :
    Edits own host (host.updateExtensionSetting extension key value).2 := by
  unfold ExtensionHost.updateExtensionSetting
  split
  · exact .refl
  split
  · exact .refl
  have hannounced : Edits own host (host.announceSetting extension key).2 :=
    .single (.ripples (Ripples.announceSetting ..))
  split <;> rename_i heq <;> rw [heq] at hannounced
  · exact hannounced
  split
  · exact hannounced
  · exact hannounced.tail (.settings ‹_›)

theorem queueCompletedEffect (host : ExtensionHost G) (effect : AcceptedEffect) (id : EffectId)
    (pending : PendingEffect) (result : EffectResult) :
    Edits own host (host.queueCompletedEffect effect id pending result) := by
  have h : Edits own host (host.queueEffectCompleted effect.extension effect.generation id
      pending.cause result "effect completion exceeded maximum dispatch depth").2 :=
    .single (.ripples (Ripples.queueEffectCompleted ..))
  unfold ExtensionHost.queueCompletedEffect
  split <;> rename_i heq <;> rw [heq] at h
  · exact h.tail (.plain { })
  · exact h

theorem completeEffect (effect : AcceptedEffect) (result : EffectResult) :
    Edits own host (host.completeEffect effect result).2 := by
  have herased : ∀ (host : ExtensionHost G) key,
      Edits own host { host with pendingEffects := host.pendingEffects.erase key } :=
    fun host key => .single (.plain (.erasePending host key))
  unfold ExtensionHost.completeEffect
  split
  · exact .refl
  split
  · exact herased ..
  · refine List.foldlRecOn (motive := Edits own host) _ _ ?_ fun middle h follower _ => h.trans ?_
    · exact (herased ..).trans (queueCompletedEffect ..)
    · unfold completeFollower
      split
      · exact .refl
      · exact (herased ..).trans (queueCompletedEffect ..)

omit [Platform] in
theorem resumeGuest_keeps (runtime : ActiveRuntime G) (context : ActivationContext) :
    (resumeGuest runtime context).2.generation = runtime.generation ∧
      (resumeGuest runtime context).2.state = runtime.state := by
  unfold resumeGuest
  split <;> exact ⟨rfl, rfl⟩

section

variable (hown : own extension)

include hown

theorem resumeChecked (capabilities : CapabilitySnapshot)
    (hstate : host.state extension = some .suspended) :
    Edits own host (host.resumeChecked extension capabilities).2 := by
  have hcause : Edits own host host.rootCause.2 := .single (.plain { })
  unfold ExtensionHost.resumeChecked
  dsimp only
  split
  · exact hcause
  · rename_i runtime hruntime
    obtain ⟨hgeneration, hkept⟩ := resumeGuest_keeps { runtime with capabilities }
      { extension, generation := runtime.generation, cause := host.rootCause.1, capabilities }
    generalize resumeGuest { runtime with capabilities } _ = resumed at hgeneration hkept ⊢
    have hset : Edits own host (host.rootCause.2.setRuntime extension resumed.2) :=
      hcause.tail (.runtime hruntime hgeneration (congrArg (Assoc.get "settings") hkept))
    split
    · exact hset
    split
    · exact hset
    · have hstarted : Started (some .active) ↔
          Started ((host.rootCause.2.setRuntime extension resumed.2).state extension) :=
        ⟨fun _ => .inr hstate, fun _ => .inl rfl⟩
      have hactive := hset.tail (.transition hown hstarted ‹_›)
      exact (hactive.tail (.changes (Handles.arbitrateUpdate ..).changes)).tail
        (.ripples (Ripples.broadcastCapabilityChanges _))

theorem resume : Edits own host (host.resume extension).2 := by
  unfold ExtensionHost.resume
  split
  · exact .refl
  · rename_i record hrecord
    split
    · exact .refl
    · rename_i hstate
      split
      · exact .refl
      · exact resumeChecked hown _ (state_eq_some.mpr ⟨record, hrecord, not_not.mp hstate⟩)

/-- An extension leaves its state, and its work is dropped. -/
theorem disable {state : LifecycleState} (hstate : host.state extension = some state)
    (h : host.disable extension state = .ok next) :
    Edits own host (next.dropWork extension) := by
  have hidle : ¬Started (some state) → host.transition extension .disabled = .ok next →
      Edits own host (next.dropWork extension) := by
    intro hidle hnext
    refine (Relation.ReflTransGen.single (.transition hown ?_ hnext)).tail (.plain (.dropWork ..))
    rw [hstate]
    exact ⟨fun h => absurd h (by decide), fun h => absurd h hidle⟩
  cases state with
  | active | suspended =>
    obtain ⟨unloading, hunloading, h⟩ := bind_eq_ok.mp h
    exact .single (.stop hown hunloading h)
  | installed | validated | failed | unloading => exact hidle (by decide) h
  | removed => cases h
  | disabled => exact Except.ok.inj h ▸ .single (.plain (.dropWork ..))

theorem unload (h : host.unload extension = .ok next) : Edits own host next := by
  unfold ExtensionHost.unload at h
  split at h
  · cases h
  · exact Except.ok.inj h ▸ .refl
  · rename_i state hstate
    obtain ⟨middle, hmiddle, h⟩ := bind_eq_ok.mp h
    exact Except.ok.inj h ▸ (disable hown hstate hmiddle).trans (reconcile _)

theorem remove (h : host.remove extension = .ok next) : Edits own host next := by
  unfold ExtensionHost.remove at h
  obtain ⟨unloaded, hunloaded, h⟩ := bind_eq_ok.mp h
  obtain ⟨removed, hremoved, h⟩ := bind_eq_ok.mp h
  -- an active or suspended extension cannot be removed
  have hidle : ¬Started (unloaded.state extension) := by
    obtain ⟨record, hrecord, hallowed, -⟩ := transition_eq_ok.mp hremoved
    rintro (hstate | hstate) <;> obtain ⟨record', hrecord', hstate⟩ := state_eq_some.mp hstate <;>
      cases hrecord.symm.trans hrecord' <;>
      rw [hstate] at hallowed <;> cases hallowed
  have hremoving : Edit own unloaded removed :=
    .transition hown ⟨fun h => absurd h (by decide), fun h => absurd h hidle⟩ hremoved
  have hdecided : Edit own removed { removed with
      permissionDecisions := removed.permissionDecisions.erase extension } := by
    refine .decisions fun other hother => ?_
    exact AList.lookup_erase_ne fun heq => hother (heq ▸ hown)
  refine Except.ok.inj h ▸ (((unload hown hunloaded).tail hremoving).tail hdecided).tail
    (.forget hown ?_)
  show ¬Started (removed.state extension)
  rw [(transition_spec hremoved).2.2, if_pos rfl]
  decide

end

theorem setSafeMode (enabled : Bool) : Edits own host (host.setSafeMode enabled) := by
  have hset : Edits own host { host with config := { host.config with safeMode := enabled } } :=
    .single (.plain { })
  unfold ExtensionHost.setSafeMode
  split
  · exact hset
  · exact List.foldlRecOn (motive := Edits own host) _ _ hset
      fun _ h _ _ => h.tail (.ripples (Ripples.suspendOrIgnore ..))

end Edits

end ExtensionHost

/-- The extension whose package, authority, adapter or lifecycle an operation handles. -/
def Operation.subject? {G : Type} : Operation G → Option ExtensionId
  | .install manifest _ => some manifest.id
  | .replace manifest _ => some manifest.id
  | .registerWasmAdapter extension _ => some extension
  | .removeWasmAdapter extension => some extension
  | .setPermissionDecision extension _ _ => some extension
  | .clearPermissionDecisions extension => some extension
  | .activate extension => some extension
  | .resume extension => some extension
  | .unload extension => some extension
  | .remove extension => some extension
  | _ => none

/-- The operation installs no package, starts no runtime and dispatches no events. -/
def Operation.edits {G : Type} : Operation G → Bool
  | .install _ _ | .replace _ _ | .activate _ | .processTick => false
  | _ => true

namespace Session

open ExtensionHost

variable {G : Type} [Platform] [NativeExtension G]

theorem edits_step {session next : Session G} {operation : Operation G}
    (hedits : operation.edits = true) (hstep : session.step operation = some next) :
    Edits (fun extension => operation.subject? = some extension) session.host next.host := by
  have hafter : ∀ {own : ExtensionId → Prop} {result : Except HostError (ExtensionHost G)},
      (∀ next, result = .ok next → Edits own session.host next) →
        Edits own session.host (session.after result).host := by
    intro own result hnext
    cases result with
    | ok next => exact hnext next rfl
    | error error => exact .refl
  have hripples : ∀ {own : ExtensionId → Prop} {next : ExtensionHost G},
      Ripples session.host next → Edits own session.host next := fun h => .single (.ripples h)
  cases operation <;> simp only [step, Option.some.injEq] at hstep
  case install => cases hedits
  case replace => cases hedits
  case activate => cases hedits
  case processTick => cases hedits
  case registerNativeAdapter => exact hstep ▸ .single (.plain { })
  case registerWasmAdapter => exact hstep ▸ .single (.plain { })
  case removeWasmAdapter => exact hstep ▸ .single (.plain { })
  case registerHostCapability id version =>
    exact hstep ▸ (Edits.reconcile _).head (.plain { })
  case removeHostCapability id => exact hstep ▸ (Edits.reconcile _).head (.plain { })
  case requireCapabilityPermission => exact hstep ▸ .single (.plain { })
  case requireSnapshotPermissions => exact hstep ▸ .requireSnapshotPermissions ..
  case setPermissionDecision => exact hstep ▸ .setPermissionDecision (by rfl) ..
  case clearPermissionDecisions => exact hstep ▸ .clearPermissionDecisions (by rfl)
  case invalidateDocumentScope => exact hstep ▸ .single (.invalidate ..)
  case restoreExtensionSettings => exact hstep ▸ hafter fun _ h => .single (.settings h)
  case updateExtensionSetting => exact hstep ▸ .updateExtensionSetting ..
  case enqueueHostEvent => exact hstep ▸ hripples (Ripples.enqueueHostEvent ..)
  case enqueueExtensionEvent => exact hstep ▸ hripples (Ripples.enqueueExtensionEvent ..)
  case invokeCommand => exact hstep ▸ hripples (Ripples.invokeCommand ..)
  case completeEffect =>
    obtain ⟨effect, -, rfl⟩ := Option.map_eq_some_iff.mp hstep
    exact .completeEffect ..
  case suspend => exact hstep ▸ hafter fun _ h => hripples (Ripples.suspend h)
  case resume extension =>
    have hresumed : Edits (fun other => some extension = some other) session.host
        (session.host.resume extension).2 := .resume rfl
    split at hstep <;> rename_i heq <;> rw [heq] at hresumed <;>
      exact Option.some.inj hstep ▸ hresumed
  case unload => exact hstep ▸ hafter fun _ => .unload rfl
  case remove => exact hstep ▸ hafter fun _ => .remove rfl
  case setSafeMode => exact hstep ▸ .setSafeMode ..

end Session

end KeyReader.Extension
