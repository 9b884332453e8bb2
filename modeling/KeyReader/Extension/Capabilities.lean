import KeyReader.Extension.Resolution

/-! The resolution of the capabilities over whole runs of the extension host. -/

namespace KeyReader.Extension

open Checked Std OrderedMap Option

namespace ExtensionHost

variable {G : Type} {host next : ExtensionHost G}

theorem Running.of_le (h : host.Running)
    (hnext : ∀ extension, next.state extension = some .active → host.state extension =
      some .active ∧ next.runtimes[extension]?.isSome = host.runtimes[extension]?.isSome) :
    next.Running := by
  intro extension hactive
  obtain ⟨hactive, hruntime⟩ := hnext extension hactive
  rw [hruntime]
  exact h extension hactive

variable {extension : ExtensionId} {record : PackageRecord}

theorem SameActive.of_record (hbefore : host.state extension ≠ some .active)
    (hafter : record.state ≠ .active) :
    SameActive host { host with registry := host.registry.insert extension record } where
  hostCapabilities := rfl
  registry other record' hactive := by
    rw [getElem?_insert]
    split
    · rename_i h
      subst h
      constructor
      · intro heq
        cases heq
        exact absurd hactive hafter
      · intro hrecord
        exact absurd (state_eq_some.mpr ⟨record', hrecord, hactive⟩) hbefore
    · exact Iff.rfl
  capabilities _ _ := rfl

variable {target : LifecycleState}

theorem SameActive.transition (hbefore : host.state extension ≠ some .active)
    (htarget : target ≠ .active) (h : host.transition extension target = .ok next) :
    SameActive host next := by
  obtain ⟨record, -, -, rfl⟩ := transition_eq_ok.mp h
  exact .of_record hbefore htarget

theorem SameActive.of_erase (hstate : host.state extension ≠ some .active) :
    SameActive host { host with registry := host.registry.erase extension } where
  hostCapabilities := rfl
  registry other record hactive := by
    rw [getElem?_erase]
    split
    · rename_i h
      subst h
      refine ⟨fun heq => (some_ne_none _ heq.symm).elim, fun hrecord => ?_⟩
      exact absurd (state_eq_some.mpr ⟨record, hrecord, hactive⟩) hstate
    · exact Iff.rfl
  capabilities _ _ := rfl

theorem SameActive.of_inactive (runtime : ActiveRuntime G)
    (hstate : host.state extension ≠ some .active) :
    SameActive host (host.setRuntime extension runtime) where
  __ := refl host
  capabilities other hactive := by
    rw [runtimes_setRuntime, if_neg]
    rintro rfl
    exact hstate hactive

theorem state_of_transition (hnext : host.transition extension target = .ok next) :
    next.state extension = some target := by
  obtain ⟨record, -, -, rfl⟩ := transition_eq_ok.mp hnext
  exact state_eq_some.mpr ⟨{ record with state := target },
    by rw [getElem?_insert, if_pos rfl], rfl⟩

/-- An active or suspended extension fails as soon as its runtime is gone. -/
theorem transitionOrIgnore_failed
    (hstate : host.state extension = some .active ∨ host.state extension = some .suspended) :
    ∃ record : PackageRecord, record.state = .failed ∧
      ((host.dropWork extension).removeRuntime extension).transitionOrIgnore extension .failed =
        { (host.dropWork extension).removeRuntime extension with
          registry := host.registry.insert extension record } := by
  obtain ⟨record, hrecord, hallowed⟩ : ∃ record, host.registry[extension]? = some record ∧
      lifecycleTransitionAllowed record.state .failed := by
    rcases hstate with hstate | hstate <;> obtain ⟨record, hrecord, hstate⟩ := state_eq_some.mp hstate <;>
      exact ⟨record, hrecord, by rw [hstate]; decide⟩
  have htransition : ((host.dropWork extension).removeRuntime extension).transition extension
      .failed = .ok _ := transition_eq_ok.mpr ⟨record, hrecord, hallowed, rfl⟩
  refine ⟨{ record with state := .failed }, rfl, ?_⟩
  rw [transitionOrIgnore, htransition]
  rfl

section

variable (h : host.Running)

include h

theorem Running.of_transition (htarget : target ≠ .active)
    (hnext : host.transition extension target = .ok next) : next.Running := by
  obtain ⟨record, -, -, rfl⟩ := transition_eq_ok.mp hnext
  refine h.of_le fun other hactive => ⟨?_, rfl⟩
  obtain ⟨record', hrecord', hactive⟩ := state_eq_some.mp hactive
  rw [getElem?_insert] at hrecord'
  split at hrecord'
  · cases hrecord'
    exact absurd hactive htarget
  · exact state_eq_some.mpr ⟨record', hrecord', hactive⟩

theorem Running.failDeferredRuntime
    (hstate : host.state extension = some .active ∨ host.state extension = some .suspended) :
    (((host.dropWork extension).removeRuntime extension).transitionOrIgnore extension
      .failed).Running := by
  obtain ⟨record, hfailed, hstopped⟩ := transitionOrIgnore_failed hstate
  rw [hstopped]
  refine h.of_le fun other hactive => ?_
  have hother : ¬extension = other := by
    rintro rfl
    obtain ⟨record', hrecord', hstate'⟩ := state_eq_some.mp hactive
    rw [getElem?_insert, if_pos rfl] at hrecord'
    cases hrecord'
    cases hfailed.symm.trans hstate'
  obtain ⟨record', hrecord', hactive⟩ := state_eq_some.mp hactive
  rw [getElem?_insert, if_neg hother] at hrecord'
  refine ⟨state_eq_some.mpr ⟨record', hrecord', hactive⟩, ?_⟩
  show (host.runtimes.erase extension)[other]?.isSome = _
  rw [getElem?_erase, if_neg hother]

theorem Running.closeRuntime (hstate : host.state extension ≠ some .active) :
    (host.closeRuntime extension).Running := by
  have hclosed : (host.closeRuntime extension).registry = host.registry ∧
      (host.closeRuntime extension).runtimes = host.runtimes.erase extension := by
    unfold ExtensionHost.closeRuntime
    split <;> exact ⟨rfl, rfl⟩
  refine h.of_le fun other hactive => ?_
  unfold ExtensionHost.state at hactive hstate ⊢
  rw [hclosed.1] at hactive
  refine ⟨hactive, ?_⟩
  rw [hclosed.2, getElem?_erase, if_neg]
  rintro rfl
  exact hstate hactive

theorem Running.disable {state : LifecycleState}
    (hnext : host.disable extension state = .ok next) : next.Running := by
  have hclose : ∀ {next : ExtensionHost G}, (do
      let host ← host.transition extension .unloading
      (host.closeRuntime extension).transition extension .disabled) = .ok next → next.Running := by
    intro next hnext
    obtain ⟨unloading, hunloading, hnext⟩ := bind_eq_ok.mp hnext
    have hrunning := h.of_transition LifecycleState.noConfusion hunloading
    refine Running.of_transition ?_ LifecycleState.noConfusion hnext
    refine hrunning.closeRuntime ?_
    rw [state_of_transition hunloading]
    decide
  unfold ExtensionHost.disable at hnext
  cases state with
  | active | suspended => exact hclose hnext
  | removed => cases hnext
  | disabled =>
    cases hnext
    exact h
  | installed | validated | failed | unloading =>
    exact h.of_transition LifecycleState.noConfusion hnext

end

variable [Platform] {manifest : ExtensionManifest}

section

variable (h : host.Resolved)

include h

theorem Resolved.install {metadata : PackageMetadata}
    (hnext : host.install manifest metadata = .ok next) : next.Resolved := by
  unfold ExtensionHost.install at hnext
  obtain ⟨-, hnext⟩ := ensure_bind_eq_ok.mp hnext
  obtain ⟨hfree, hnext⟩ := ensure_bind_eq_ok.mp hnext
  obtain ⟨-, hnext⟩ := ensure_bind_eq_ok.mp hnext
  cases hnext
  refine h.of_same (.of_record ?_ ?_)
  · rintro hactive
    obtain ⟨record, hrecord, -⟩ := state_eq_some.mp hactive
    rw [contains_eq_isSome, hrecord] at hfree
    exact hfree rfl
  · exact LifecycleState.noConfusion

theorem Resolved.replace {metadata : PackageMetadata}
    (hnext : host.replace manifest metadata = .ok next) : next.Resolved := by
  unfold ExtensionHost.replace at hnext
  obtain ⟨hidle, hnext⟩ := ensure_bind_eq_ok.mp hnext
  obtain ⟨-, hnext⟩ := ensure_bind_eq_ok.mp hnext
  cases hnext
  refine h.of_same (.of_record ?_ ?_)
  · intro hactive
    obtain ⟨record, hrecord, hactive⟩ := state_eq_some.mp hactive
    rw [hrecord, any_some, hactive] at hidle
    exact hidle (by decide)
  · exact LifecycleState.noConfusion

section

variable (extension : ExtensionId)

theorem Resolved.purge (permission : Permission) :
    (host.purgeSnapshotNamespacesForPermission extension permission).Resolved := by
  unfold purgeSnapshotNamespacesForPermission
  split
  · exact h
  · rename_i runtime hruntime
    exact h.of_same (.of_setRuntime hruntime rfl)

theorem Resolved.setPermissionDecision (permission : Permission) (decision : PermissionDecision) :
    (host.setPermissionDecision extension permission decision).Resolved := by
  unfold ExtensionHost.setPermissionDecision
  split
  · refine Resolved.purge ?_ ..
    exact h.of_same (.of_eq rfl rfl rfl)
  · exact h.of_same (.of_eq rfl rfl rfl)

theorem Resolved.clearPermissionDecisions : (host.clearPermissionDecisions extension).Resolved := by
  refine List.foldlRecOn (motive := Resolved) _ _ ?_ fun next hnext permission _ =>
    hnext.purge extension permission
  exact h.of_same (.of_eq rfl rfl rfl)

end

theorem Resolved.requireSnapshotPermissions (snapshot : SnapshotKind)
    (permissions : List Permission) :
    (host.requireSnapshotPermissions snapshot permissions).Resolved := by
  unfold ExtensionHost.requireSnapshotPermissions
  split <;> exact h.of_same (.of_eq rfl rfl rfl)

theorem Resolved.restoreExtensionSettings {settings : DataValue}
    (hnext : host.restoreExtensionSettings extension settings = .ok next) : next.Resolved := by
  unfold ExtensionHost.restoreExtensionSettings at hnext
  obtain ⟨record, -, hnext⟩ := bind_eq_ok.mp hnext
  obtain ⟨settings', -, hnext⟩ := bind_eq_ok.mp hnext
  dsimp only at hnext
  split at hnext
  · cases hnext
    exact h.of_same (.of_eq rfl rfl rfl)
  · rename_i runtime hruntime
    cases hnext
    have hset : (host.setRuntime extension { runtime with
        state := Assoc.insert "settings" settings' runtime.state }).Resolved :=
      h.of_same (.of_setRuntime hruntime rfl)
    exact hset.of_same (.of_eq rfl rfl rfl)

end

variable [NativeExtension G]

section

variable (h : host.Resolved)

include h

theorem Resolved.change {checked : Prop} (hchange : Change checked host next) : next.Resolved := by
  cases hchange with
  | cause hcause => exact h.childCause hcause
  | violation extension message => exact h.recordViolation extension message
  | enqueue target source event cause rootCause => exact h.enqueueEventInternal ..
  | guest guest hruntime => exact h.of_same (.of_setRuntime hruntime rfl)
  | @patch extension runtime state persistedSettings hruntime hkept =>
    have hset : (host.setRuntime extension { runtime with state }).Resolved :=
      h.of_same (.of_setRuntime hruntime rfl)
    exact hset.of_same (.of_eq rfl rfl rfl)
  | accept leader hvalid => exact h.of_same (.of_eq rfl rfl rfl)
  | snapshot value hruntime hchecked | restore hruntime hsame =>
    exact h.of_same (.of_setRuntime hruntime rfl)
  | fail hruntime hstate =>
    exact (h.running.failDeferredRuntime hstate).reconcile.broadcastCapabilityChanges

theorem Resolved.changes (hchanges : Changes False host next) : next.Resolved := by
  induction hchanges with
  | refl => exact h
  | tail _ hchange ih => exact ih.change hchange

theorem Resolved.processTick : host.processTick.1.Resolved := by
  have hadvanced : host.advance.Resolved := h.of_same (.of_eq rfl rfl rfl)
  have hbefore := hadvanced.changes (Changes.beforeSelection host False.elim)
  obtain ⟨report, heq⟩ := host.processTick_eq
  rw [heq]
  have hdequeued : (host.beforeSelection.dequeue host.selectionBudget).Resolved :=
    hbefore.of_same (.of_eq rfl rfl rfl)
  exact hdequeued.changes (.dispatch host.selection (_, report, []))

section

variable (effect : AcceptedEffect)

theorem Resolved.queueCompletedEffect (id : EffectId) (pending : PendingEffect)
    (result : EffectResult) :
    (host.queueCompletedEffect effect id pending result).Resolved := by
  have hqueued := h.changes (Changes.queueEffectCompleted host effect.extension effect.generation
    id pending.cause result "effect completion exceeded maximum dispatch depth" :
      Changes False host _)
  unfold ExtensionHost.queueCompletedEffect
  split <;> rename_i heq <;> rw [heq] at hqueued
  · exact hqueued.of_same (.of_eq rfl rfl rfl)
  · exact hqueued

theorem Resolved.completeFollower (result : EffectResult) (follower : EffectId) :
    (completeFollower effect result host follower).Resolved := by
  unfold ExtensionHost.completeFollower
  split
  · exact h
  · refine Resolved.queueCompletedEffect ?_ ..
    exact h.of_same (.of_eq rfl rfl rfl)

theorem Resolved.completeEffect
    (result : EffectResult) : (host.completeEffect effect result).2.Resolved := by
  unfold ExtensionHost.completeEffect
  split
  · exact h
  · rename_i pending _
    dsimp only
    split
    · exact h.of_same (.of_eq rfl rfl rfl)
    · refine List.foldlRecOn (motive := Resolved) _ _ (Resolved.queueCompletedEffect ?_ ..)
        fun next hnext follower _ => hnext.completeFollower effect result follower
      exact h.of_same (.of_eq rfl rfl rfl)

end

theorem Resolved.invalidateDocumentScope (snapshots : List SnapshotKind) :
    (host.invalidateDocumentScope snapshots).Resolved := by
  refine h.of_same ⟨rfl, fun _ _ _ => Iff.rfl, fun extension _ => ?_⟩
  show (host.runtimes.map fun _ runtime => invalidateRuntime snapshots runtime)[extension]?.map _ = _
  rw [ExtTreeMap.getElem?_map, map_map]
  rfl

theorem Resolved.announceSetting (extension : ExtensionId) (key : String) :
    (host.announceSetting extension key).2.Resolved := by
  have hqueued := h.enqueueHostEvent extension (.lifecycle (.settingsChanged [key]))
  unfold ExtensionHost.announceSetting
  split
  · split <;> rename_i heq <;> rwa [heq] at hqueued
  · exact h

theorem Resolved.updateExtensionSetting (extension : ExtensionId) (key : String)
    (value : DataValue) : (host.updateExtensionSetting extension key value).2.Resolved := by
  have hannounced := h.announceSetting extension key
  unfold ExtensionHost.updateExtensionSetting
  split
  · exact h
  split
  · exact h
  split <;> rename_i heq <;> rw [heq] at hannounced
  · exact hannounced
  split
  · exact hannounced
  · rename_i hnext
    exact hannounced.restoreExtensionSettings hnext

theorem Resolved.invokeCommand (command : CommandId) (payload : DataValue) :
    (host.invokeCommand command payload).2.Resolved := by
  unfold ExtensionHost.invokeCommand
  split
  · exact h
  split
  · exact h
  · exact h.enqueueHostEvent ..

theorem Resolved.unload (hnext : host.unload extension = .ok next) : next.Resolved := by
  unfold ExtensionHost.unload at hnext
  split at hnext
  · cases hnext
  · cases hnext
    exact h
  · obtain ⟨disabled, hdisabled, hnext⟩ := bind_eq_ok.mp hnext
    cases hnext
    have hrunning := h.running.disable hdisabled
    have hdropped : (disabled.dropWork extension).Running := hrunning
    exact hdropped.reconcile.broadcastCapabilityChanges

theorem Resolved.remove (hnext : host.remove extension = .ok next) : next.Resolved := by
  unfold ExtensionHost.remove at hnext
  obtain ⟨unloaded, hunloaded, hnext⟩ := bind_eq_ok.mp hnext
  obtain ⟨removed, hremoved, hnext⟩ := bind_eq_ok.mp hnext
  cases hnext
  have hstate : unloaded.state extension ≠ some .active := by
    intro hactive
    obtain ⟨record, hrecord, hallowed, -⟩ := transition_eq_ok.mp hremoved
    obtain ⟨record', hrecord', hactive⟩ := state_eq_some.mp hactive
    cases hrecord.symm.trans hrecord'
    rw [hactive] at hallowed
    exact absurd hallowed (by decide)
  have hremoved' := (h.unload hunloaded).of_same
    (.transition hstate LifecycleState.noConfusion hremoved)
  refine (hremoved'.of_same (.of_erase ?_)).of_same (.of_eq rfl rfl rfl)
  rw [state_of_transition hremoved]
  decide

theorem Resolved.setSafeMode (enabled : Bool) : (host.setSafeMode enabled).Resolved := by
  unfold ExtensionHost.setSafeMode
  split
  · exact h.of_same (.of_eq rfl rfl rfl)
  · refine List.foldlRecOn (motive := Resolved) _ _ ?_ fun next hnext extension _ =>
      hnext.suspendOrIgnore extension _
    exact h.of_same (.of_eq rfl rfl rfl)

end

def Unawaited (host : ExtensionHost G) (manifest : ExtensionManifest) : Prop :=
  ∀ offer ∈ manifest.capabilities.provided, ∀ request : CapabilityRequest,
    (request ∈ manifest.capabilities.optional ∨ ∃ (other : ExtensionId) (record : PackageRecord),
      host.registry[other]? = some record ∧ record.state = .active ∧
        request ∈ record.manifest.capabilities.optional) →
    offer.id = request.id → Platform.versionMatches request.version offer.version →
      host.Offered request

omit [NativeExtension G] in
theorem Unawaited.of_same (h : host.Unawaited manifest) (hsame : SameActive host next) :
    next.Unawaited manifest := by
  intro offer hoffer request hrequest hid hversion
  rw [hsame.offered]
  refine h offer hoffer request (hrequest.imp_right ?_) hid hversion
  rintro ⟨other, record, hrecord, hactive, hmem⟩
  exact ⟨other, record, (hsame.registry other record hactive).mp hrecord, hactive, hmem⟩

variable {capabilities : CapabilitySnapshot}

omit [NativeExtension G] in
/-- A new runtime with the capabilities that its manifest resolves to. -/
theorem Resolved.start (h : host.Resolved) {runtime : ActiveRuntime G}
    (hrecord : host.registry[extension]? = some record) (hstate : record.state ≠ .active)
    (hresolved : host.resolveCapabilities record.manifest = .ok capabilities)
    (hunawaited : host.Unawaited record.manifest)
    (hregistry : next.registry = host.registry.insert extension { record with state := .active })
    (hruntimes : next.runtimes = host.runtimes.insert extension runtime)
    (hcapabilities : runtime.capabilities = capabilities)
    (hoffers : next.hostCapabilities = host.hostCapabilities) : next.Resolved := by
  subst hcapabilities
  have hother : ∀ other record', ¬extension = other →
      (next.registry[other]? = some record' ↔ host.registry[other]? = some record') := by
    intro other record' hne
    rw [hregistry, getElem?_insert, if_neg hne]
  have hself : ∀ record', next.registry[extension]? = some record' ↔
      { record with state := .active } = record' := by
    intro record'
    rw [hregistry, getElem?_insert, if_pos rfl, Option.some.injEq]
  have hruntime : ∀ other, next.runtimes[other]? =
      if extension = other then some runtime else host.runtimes[other]? := by
    intro other
    rw [hruntimes, getElem?_insert]
  -- the offers are the earlier ones and those of the manifest
  have hmore : ∀ request, host.Offered request → next.Offered request := by
    rintro request ⟨offer, hoffer, hmeets⟩
    refine ⟨offer, ?_, hmeets⟩
    rw [mem_capabilityOffers] at hoffer ⊢
    rw [hoffers]
    refine hoffer.imp_right ?_
    rintro ⟨provider, record', hrunning, hrecord', hactive, hmem⟩
    have hne : ¬extension = provider := by
      rintro rfl
      cases hrecord.symm.trans hrecord'
      exact hstate hactive
    refine ⟨provider, record', ?_, (hother provider record' hne).mpr hrecord', hactive, hmem⟩
    rwa [hruntime, if_neg hne]
  have hless : ∀ request, next.Offered request → host.Offered request ∨
      ∃ offer ∈ record.manifest.capabilities.provided, offer.id = request.id ∧
        Platform.versionMatches request.version offer.version := by
    rintro request ⟨offer, hoffer, hmeets⟩
    rw [mem_capabilityOffers, hoffers] at hoffer
    rcases hoffer with hhost | ⟨provider, record', hrunning, hrecord', hactive, hmem⟩
    · exact .inl ⟨offer, mem_capabilityOffers.mpr (.inl hhost), hmeets⟩
    · by_cases hne : extension = provider
      · subst hne
        obtain rfl := (hself record').mp hrecord'
        exact .inr ⟨offer, hmem, hmeets⟩
      · rw [hruntime, if_neg hne] at hrunning
        exact .inl ⟨offer, mem_capabilityOffers.mpr (.inr ⟨provider, record', hrunning,
          (hother provider record' hne).mp hrecord', hactive, hmem⟩), hmeets⟩
  have hkeeps : ∀ request, (request ∈ record.manifest.capabilities.optional ∨
      ∃ (other : ExtensionId) (record : PackageRecord), host.registry[other]? = some record ∧
        record.state = .active ∧ request ∈ record.manifest.capabilities.optional) →
      (next.Offered request ↔ host.Offered request) := by
    refine fun request hrequest => ⟨fun hnext => ?_, hmore request⟩
    rcases hless request hnext with hhost | ⟨offer, hoffer, hid, hversion⟩
    · exact hhost
    · exact hunawaited offer hoffer request hrequest hid hversion
  constructor
  · intro other hactive
    rw [hruntime]
    split
    · rfl
    · rename_i hne
      obtain ⟨record', hrecord', hactive⟩ := state_eq_some.mp hactive
      exact h.running other
        (state_eq_some.mpr ⟨record', (hother other record' hne).mp hrecord', hactive⟩)
  · intro other record' runtime' hrecord' hactive hruntime'
    rw [hruntime] at hruntime'
    split at hruntime'
    · rename_i heq
      subst heq
      cases hruntime'
      obtain rfl := (hself record').mp hrecord'
      exact resolveCapabilities_of_offered hresolved (fun request _ => hmore request)
        fun request hmem => hkeeps request (.inl hmem)
    · rename_i hne
      have hrecord' := (hother other record' hne).mp hrecord'
      exact resolveCapabilities_of_offered
        (h.current other record' runtime' hrecord' hactive hruntime') (fun request _ => hmore request)
        fun request hmem => hkeeps request (.inr ⟨other, record', hrecord', hactive, hmem⟩)

omit [NativeExtension G] in
theorem resolve_of_checkStart (h : host.checkStart record = .ok capabilities) :
    host.resolveCapabilities record.manifest = .ok capabilities := by
  unfold checkStart at h
  obtain ⟨-, h⟩ := ensure_bind_eq_ok.mp h
  obtain ⟨-, h⟩ := unit_bind_eq_ok.mp h
  obtain ⟨resolved, hresolved, h⟩ := bind_eq_ok.mp h
  obtain ⟨-, h⟩ := unit_bind_eq_ok.mp h
  cases h
  exact hresolved

omit [Platform] [NativeExtension G] in
/-- The settings of the last run change neither the packages nor the runtimes. -/
theorem restoreSettings_eq (host : ExtensionHost G) (extension : ExtensionId)
    (manifest : ExtensionManifest) : ∃ persistedSettings,
      (host.restoreSettings extension manifest).2 = { host with persistedSettings } := by
  unfold restoreSettings
  split
  · exact ⟨host.persistedSettings, rfl⟩
  split <;> exact ⟨_, rfl⟩

theorem Resolved.startRuntime (h : host.Resolved) {installed : PackageRecord}
    {context : ActivationContext} (hrecord : host.registry[context.extension]? = some installed)
    (hmanifest : installed.manifest = record.manifest) (hstate : installed.state ≠ .active)
    (hresolved : host.resolveCapabilities record.manifest = .ok context.capabilities)
    (guest : Option G) (subscriptions : List EventSubscription) (update : ExtensionUpdate)
    (hunawaited : (host.startRuntime record context guest subscriptions update).1.toBool →
      host.Unawaited record.manifest) :
    (host.startRuntime record context guest subscriptions update).2.Resolved := by
  unfold ExtensionHost.startRuntime at hunawaited ⊢
  dsimp only at hunawaited ⊢
  split
  · exact h
  · rename_i next hnext
    rw [hnext] at hunawaited
    obtain ⟨record', hrecord', -, rfl⟩ := transition_eq_ok.mp hnext
    cases hrecord.symm.trans hrecord'
    have hunawaited := hunawaited rfl
    rw [← hmanifest] at hunawaited hresolved
    refine Resolved.broadcastCapabilityChanges (Resolved.changes ?_
      (Handles.arbitrateUpdate .. : Handles False _ _).changes)
    obtain ⟨persistedSettings, hrestored⟩ := restoreSettings_eq ({ host with
      registry := host.registry.insert context.extension { installed with state := .active } })
      context.extension record.manifest
    apply h.start hrecord hstate hresolved hunawaited
    · rw [hrestored]
      rfl
    · rw [hrestored]
      rfl
    · rfl
    · rw [hrestored]
      rfl

theorem Resolved.activateValidated (h : host.Resolved) {installed : PackageRecord}
    (hrecord : host.registry[extension]? = some installed)
    (hmanifest : installed.manifest = record.manifest) (hstate : installed.state ≠ .active)
    (hunawaited : (host.activateValidated extension record).1.toBool → host.Unawaited record.manifest) :
    (host.activateValidated extension record).2.Resolved := by
  unfold ExtensionHost.activateValidated at hunawaited ⊢
  split
  · exact h
  · rename_i capabilities hcheck
    rw [hcheck] at hunawaited
    have hresolved := resolve_of_checkStart hcheck
    have hsame : SameActive host host.freshGeneration.2.rootCause.2 := .of_eq rfl rfl rfl
    have hready := h.of_same hsame
    dsimp only at hunawaited ⊢
    split
    · rename_i error herror
      unfold failActivation transitionOrIgnore
      split
      · rename_i next hnext
        refine hready.of_same (.transition ?_ LifecycleState.noConfusion hnext)
        intro hactive
        obtain ⟨record', hrecord', hactive⟩ := state_eq_some.mp hactive
        cases hrecord.symm.trans hrecord'
        exact hstate hactive
      · exact hready
    · rename_i guest subscriptions update hinstance
      rw [hinstance] at hunawaited
      refine Resolved.startRuntime hready ?_ hmanifest hstate ?_ _ _ _
        fun hok => (hunawaited hok).of_same hsame
      · exact hrecord
      exact resolveCapabilities_of_offered hresolved (fun request _ => (hsame.offered request).mpr)
        fun request _ => hsame.offered request

theorem Resolved.activate (h : host.Resolved) (extension : ExtensionId)
    (hunawaited : (host.activate extension).1.toBool → ∀ record : PackageRecord,
      host.registry[extension]? = some record → host.Unawaited record.manifest) :
    (host.activate extension).2.Resolved := by
  unfold ExtensionHost.activate at hunawaited ⊢
  split
  · exact h
  · rename_i record hrecord
    rw [hrecord] at hunawaited
    dsimp only at hunawaited
    have hidle : record.state ≠ .active → host.state extension ≠ some .active := by
      intro hstate hactive
      obtain ⟨record', hrecord', hactive⟩ := state_eq_some.mp hactive
      cases hrecord.symm.trans hrecord'
      exact hstate hactive
    split
    · rename_i hstopped
      have hstate : record.state ≠ .active := by
        rcases hstopped with h | h <;> rw [h] <;> exact LifecycleState.noConfusion
      rw [if_pos hstopped] at hunawaited
      split
      · exact h
      · rename_i next hnext
        rw [hnext] at hunawaited
        have hsame : SameActive host next :=
          .transition (hidle hstate) LifecycleState.noConfusion hnext
        obtain ⟨record', hrecord', -, rfl⟩ := transition_eq_ok.mp hnext
        cases hrecord.symm.trans hrecord'
        have hvalidated : (host.registry.insert extension { record with
            state := .validated })[extension]? = some { record with state := .validated } := by
          rw [getElem?_insert, if_pos rfl]
        exact (h.of_same hsame).activateValidated hvalidated rfl LifecycleState.noConfusion
          fun hok => (hunawaited hok record rfl).of_same hsame
    split
    · exact h
    · rename_i hstopped hvalidated
      rw [if_neg hstopped, if_neg hvalidated] at hunawaited
      refine h.activateValidated hrecord rfl ?_ fun hok => hunawaited hok record rfl
      rw [not_not.mp hvalidated]
      exact LifecycleState.noConfusion

omit [Platform] in
theorem capabilities_resumeGuest (runtime : ActiveRuntime G) (context : ActivationContext) :
    (resumeGuest runtime context).2.capabilities = runtime.capabilities := by
  unfold resumeGuest
  split <;> rfl

theorem Resolved.resumeChecked (h : host.Resolved)
    (hrecord : host.registry[extension]? = some record) (hstate : record.state ≠ .active)
    (hresolved : host.resolveCapabilities record.manifest = .ok capabilities)
    (hunawaited : (host.resumeChecked extension capabilities).1.toBool →
      host.Unawaited record.manifest) :
    (host.resumeChecked extension capabilities).2.Resolved := by
  have hrooted : host.rootCause.2.Resolved := h.of_same (.of_eq rfl rfl rfl)
  have hidle : host.rootCause.2.state extension ≠ some .active := by
    intro hactive
    obtain ⟨record', hrecord', hactive⟩ := state_eq_some.mp hactive
    cases hrecord.symm.trans hrecord'
    exact hstate hactive
  unfold ExtensionHost.resumeChecked at hunawaited ⊢
  dsimp only at hunawaited ⊢
  split
  · exact hrooted
  · rename_i runtime hruntime
    rw [hruntime] at hunawaited
    dsimp only at hunawaited
    have hcapabilities := capabilities_resumeGuest { runtime with capabilities }
      { extension, generation := runtime.generation, cause := host.rootCause.1, capabilities }
    generalize resumeGuest { runtime with capabilities }
      { extension, generation := runtime.generation, cause := host.rootCause.1, capabilities } =
        resumed at hunawaited hcapabilities ⊢
    obtain ⟨outcome, resumed⟩ := resumed
    have hset := hrooted.of_same (.of_inactive resumed hidle)
    cases outcome with
    | error error => exact hset
    | ok update =>
      dsimp only at hunawaited ⊢
      split
      · exact hset
      · rename_i next hnext
        rw [hnext] at hunawaited
        obtain ⟨record', hrecord', -, rfl⟩ := transition_eq_ok.mp hnext
        cases hrecord.symm.trans hrecord'
        refine Resolved.broadcastCapabilityChanges (Resolved.changes ?_
          (Handles.arbitrateUpdate .. : Handles False _ _).changes)
        apply h.start hrecord hstate hresolved (hunawaited rfl)
        · rfl
        · rfl
        · exact hcapabilities
        · rfl

theorem Resolved.resume (h : host.Resolved) (extension : ExtensionId)
    (hunawaited : (host.resume extension).1.toBool → ∀ record : PackageRecord,
      host.registry[extension]? = some record → host.Unawaited record.manifest) :
    (host.resume extension).2.Resolved := by
  unfold ExtensionHost.resume at hunawaited ⊢
  split
  · exact h
  · rename_i record hrecord
    rw [hrecord] at hunawaited
    dsimp only at hunawaited
    split
    · exact h
    · rename_i hsuspended
      rw [if_neg hsuspended] at hunawaited
      split
      · exact h
      · rename_i capabilities hcheck
        rw [hcheck] at hunawaited
        refine h.resumeChecked hrecord ?_ (resolve_of_checkStart hcheck)
          fun hok => hunawaited hok record rfl
        rw [not_not.mp hsuspended]
        exact LifecycleState.noConfusion

end ExtensionHost

namespace Session

variable {G : Type} [Platform] [NativeExtension G]

/-- An operation that starts an extension brings no capability that an optional request awaits. -/
def StartsUnawaited (session : Session G) : Operation G → Prop
  | .activate extension => (session.host.activate extension).1.toBool → ∀ record : PackageRecord,
      session.host.registry[extension]? = some record → session.host.Unawaited record.manifest
  | .resume extension => (session.host.resume extension).1.toBool → ∀ record : PackageRecord,
      session.host.registry[extension]? = some record → session.host.Unawaited record.manifest
  | _ => True

variable {session : Session G}

omit [NativeExtension G] in
theorem resolved_after (h : session.host.Resolved) {result : Except HostError (ExtensionHost G)}
    (hresult : ∀ host, result = .ok host → host.Resolved) :
    (session.after result).host.Resolved := by
  cases result with
  | ok host => exact hresult host rfl
  | error error => exact h

theorem resolved_step {next : Session G} {operation : Operation G} (h : session.host.Resolved)
    (hunawaited : session.StartsUnawaited operation) (hstep : session.step operation = some next) :
    next.host.Resolved := by
  cases operation <;> simp only [step, Option.some.injEq] at hstep
  case install => exact hstep ▸ resolved_after h fun _ => h.install
  case replace => exact hstep ▸ resolved_after h fun _ => h.replace
  case registerNativeAdapter => exact hstep ▸ h.of_same (.of_eq rfl rfl rfl)
  case registerWasmAdapter => exact hstep ▸ h.of_same (.of_eq rfl rfl rfl)
  case removeWasmAdapter => exact hstep ▸ h.of_same (.of_eq rfl rfl rfl)
  case registerHostCapability id version =>
    have hrunning : ({ session.host with
        hostCapabilities := session.host.hostCapabilities.insert id version } :
          ExtensionHost G).Running := h.running
    exact hstep ▸ hrunning.reconcile.broadcastCapabilityChanges
  case removeHostCapability id =>
    have hrunning : ({ session.host with
        hostCapabilities := session.host.hostCapabilities.erase id
        capabilityPermissions := session.host.capabilityPermissions.erase id } :
          ExtensionHost G).Running := h.running
    exact hstep ▸ hrunning.reconcile.broadcastCapabilityChanges
  case requireCapabilityPermission => exact hstep ▸ h.of_same (.of_eq rfl rfl rfl)
  case requireSnapshotPermissions => exact hstep ▸ h.requireSnapshotPermissions ..
  case setPermissionDecision => exact hstep ▸ h.setPermissionDecision ..
  case clearPermissionDecisions => exact hstep ▸ h.clearPermissionDecisions _
  case invalidateDocumentScope => exact hstep ▸ h.invalidateDocumentScope _
  case restoreExtensionSettings =>
    exact hstep ▸ resolved_after h fun _ => h.restoreExtensionSettings
  case updateExtensionSetting => exact hstep ▸ h.updateExtensionSetting ..
  case activate extension =>
    have hactivated := h.activate extension hunawaited
    split at hstep <;> rename_i heq <;> rw [heq] at hactivated <;>
      exact some.inj hstep ▸ hactivated
  case enqueueHostEvent => exact hstep ▸ h.enqueueHostEvent ..
  case enqueueExtensionEvent => exact hstep ▸ h.enqueueExtensionEvent ..
  case invokeCommand => exact hstep ▸ h.invokeCommand ..
  case processTick =>
    exact hstep ▸ h.processTick
  case completeEffect =>
    obtain ⟨effect, -, rfl⟩ := map_eq_some_iff.mp hstep
    exact h.completeEffect effect _
  case suspend => exact hstep ▸ resolved_after h fun _ => h.suspend
  case resume extension =>
    have hresumed := h.resume extension hunawaited
    split at hstep <;> rename_i heq <;> rw [heq] at hresumed <;>
      exact some.inj hstep ▸ hresumed
  case unload => exact hstep ▸ resolved_after h fun _ => h.unload
  case remove => exact hstep ▸ resolved_after h fun _ => h.remove
  case setSafeMode => exact hstep ▸ h.setSafeMode _

def startedBy : Operation G → Option ExtensionId
  | .activate extension | .resume extension => some extension
  | _ => none

/-- An operation that starts no extension but one that provides nothing, or one without optional
requests before all others. -/
def startsFirst (session : Session G) (operation : Operation G) : Bool :=
  (startedBy operation).all fun extension => session.host.registry[extension]?.all fun record =>
    record.manifest.capabilities.provided = [] ∨
      (record.manifest.capabilities.optional = [] ∧ session.host.activeIds = [])

theorem startsUnawaited_of_first {operation : Operation G} (h : session.startsFirst operation) :
    session.StartsUnawaited operation := by
  have hstarted : ∀ extension, startedBy operation = some extension → ∀ record : PackageRecord,
      session.host.registry[extension]? = some record →
        session.host.Unawaited record.manifest := by
    intro extension hextension record hrecord offer hoffer request hrequest
    unfold startsFirst at h
    rw [hextension, all_some, hrecord, all_some, decide_eq_true_eq] at h
    rcases h with hprovided | ⟨hoptional, hactive⟩
    · rw [hprovided] at hoffer
      exact absurd hoffer List.not_mem_nil
    · rcases hrequest with hmem | ⟨other, record', hrecord', hstate, -⟩
      · rw [hoptional] at hmem
        exact absurd hmem List.not_mem_nil
      · have hmem := ExtensionHost.mem_activeIds.mpr
          (ExtensionHost.state_eq_some.mpr ⟨record', hrecord', hstate⟩)
        rw [hactive] at hmem
        exact absurd hmem List.not_mem_nil
  cases operation with
  | activate extension | resume extension => exact fun _ => hstarted extension rfl
  | _ => trivial

/-- An active extension has a runtime with the capabilities that its manifest resolves to, and is
offered what it requires.  A suspension is a recursion that ends, whatever depends on what: no fuel
above the number of active extensions changes it. -/
theorem capabilities_current (config : HostConfig) (operations : List (Operation G))
    (session : Session G) (hrun : Transition.run step (.new config) operations = some session)
    (hunawaited : Transition.Along step StartsUnawaited (.new config) operations) :
    (∀ (extension : ExtensionId) (record : PackageRecord),
      session.host.registry[extension]? = some record → record.state = .active →
        ∃ runtime, session.host.runtimes[extension]? = some runtime ∧
          session.host.resolveCapabilities record.manifest = .ok runtime.capabilities ∧
          ∀ request ∈ record.manifest.capabilities.required, session.host.Offered request) ∧
    ∀ (host : ExtensionHost G) (extension : ExtensionId) (reason : String),
      (host.suspendOrIgnore extension reason = match host.suspend extension reason with
        | .ok next => next
        | .error _ => host) ∧
      ∀ fuel, host.activeCount ≤ fuel →
        ExtensionHost.suspendFuel fuel host extension reason = host.suspendOrIgnore extension reason := by
  constructor
  · have hnew : (Session.new config : Session G).host.Resolved := by
      constructor
      · intro extension hactive
        simp [Session.new, ExtensionHost.new, ExtensionHost.state] at hactive
      · intro extension record runtime hrecord
        simp [Session.new, ExtensionHost.new] at hrecord
    have hresolved := Transition.run_preserves (fun _ _ _ => resolved_step) hnew hunawaited hrun
    intro extension record hrecord hactive
    have hruntime := hresolved.running extension
      (ExtensionHost.state_eq_some.mpr ⟨record, hrecord, hactive⟩)
    obtain ⟨runtime, hruntime⟩ := isSome_iff_exists.mp hruntime
    have hcurrent := hresolved.current extension record runtime hrecord hactive hruntime
    exact ⟨runtime, hruntime, hcurrent, ExtensionHost.offered_of_resolveCapabilities hcurrent⟩
  · intro host extension reason
    exact ⟨ExtensionHost.suspendOrIgnore_eq host extension reason, fun fuel hfuel =>
      ExtensionHost.suspendFuel_eq hfuel le_rfl extension reason⟩

end Session

namespace Session

attribute [local instance] exactVersions noInstances

/-- An extension that would like to look words up, and one that can. -/
def readerManifest : ExtensionManifest :=
  declarativeManifest "com.example.reader"
    ⟨[], [⟨"com.example.lookup", "=1.0.0", .application⟩], []⟩

def dictionaryManifest : ExtensionManifest :=
  declarativeManifest "com.example.dictionary" ⟨[], [], [⟨"com.example.lookup", "1.0.0"⟩]⟩

/-- Both are installed, and the one that provides the capability is activated last. -/
def lateProvider : List (Operation Empty) :=
  [.install readerManifest ⟨.bundled⟩, .install dictionaryManifest ⟨.bundled⟩,
    .activate "com.example.reader", .activate "com.example.dictionary"]

/-- Both are installed, and the one that provides the capability is activated first. -/
def earlyProvider : List (Operation Empty) :=
  [.install readerManifest ⟨.bundled⟩, .install dictionaryManifest ⟨.bundled⟩,
    .activate "com.example.dictionary", .activate "com.example.reader"]

def readerCapabilities (session : Session Empty) :
    Option (LifecycleState × CapabilitySnapshot × Option CapabilitySnapshot) := do
  let record ← session.host.registry["com.example.reader"]?
  let runtime ← session.host.runtimes["com.example.reader"]?
  some (record.state, runtime.capabilities,
    (session.host.resolveCapabilities record.manifest).toOption)

/-- A provider that is activated after an extension with the optional request: the request stays
unmet. -/
theorem capabilities_stale_of_lateProvider :
    ¬∀ session, Transition.run step (.new .default) lateProvider = some session →
      ∀ (extension : ExtensionId) (record : PackageRecord),
        session.host.registry[extension]? = some record → record.state = .active →
          ∃ runtime, session.host.runtimes[extension]? = some runtime ∧
            session.host.resolveCapabilities record.manifest = .ok runtime.capabilities := by
  intro h
  have hstale : (Transition.run step (.new .default) lateProvider).bind readerCapabilities =
      some (.active, ⟨[], ["com.example.lookup"]⟩,
        some ⟨[⟨"com.example.reader", "com.example.lookup", .application⟩], []⟩) := by
    decide +kernel
  obtain ⟨session, hrun, hreader⟩ := bind_eq_some_iff.mp hstale
  obtain ⟨record, hrecord, hreader⟩ := bind_eq_some_iff.mp hreader
  obtain ⟨runtime, hruntime, hreader⟩ := bind_eq_some_iff.mp hreader
  obtain ⟨hactive, hcapabilities, hresolved⟩ := by
    simpa only [Option.some.injEq, Prod.mk.injEq] using hreader
  obtain ⟨runtime', hruntime', hcurrent⟩ := h session hrun _ record hrecord hactive
  cases hruntime.symm.trans hruntime'
  rw [hcurrent, hcapabilities] at hresolved
  exact absurd hresolved (by decide)

theorem capabilities_current_of_earlyProvider : ∃ session,
    Transition.run step (.new .default) earlyProvider = some session ∧
      ∃ (record : PackageRecord) (runtime : ActiveRuntime Empty),
        session.host.registry["com.example.reader"]? = some record ∧ record.state = .active ∧
        session.host.runtimes["com.example.reader"]? = some runtime ∧
        session.host.resolveCapabilities record.manifest = .ok runtime.capabilities := by
  have hfirst : Transition.Along step (startsFirst · ·) (.new .default) earlyProvider := by
    decide +kernel
  have hunawaited := hfirst.imp fun _ _ => startsUnawaited_of_first
  have hactive : (Transition.run step (.new .default) earlyProvider).bind (fun session =>
      session.host.registry["com.example.reader"]?.map (·.state)) = some .active := by
    decide +kernel
  obtain ⟨session, hrun, hactive⟩ := bind_eq_some_iff.mp hactive
  obtain ⟨record, hrecord, hactive⟩ := map_eq_some_iff.mp hactive
  obtain ⟨runtime, hruntime, hcurrent, -⟩ :=
    (capabilities_current .default earlyProvider session hrun hunawaited).1 _ record hrecord hactive
  exact ⟨session, hrun, record, runtime, hrecord, hactive, hruntime, hcurrent⟩

end Session

end KeyReader.Extension
