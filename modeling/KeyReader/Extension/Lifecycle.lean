import KeyReader.Extension.Capabilities
import KeyReader.Extension.EventOrder

/-! The lifecycle of the extensions over whole runs: which of them have a runtime, what the pending
effects refer to, and which generations are given out. -/

namespace KeyReader.Extension

open Checked Machine Std OrderedMap Option

namespace ExtensionHost

variable {G : Type}

def generationOf (host : ExtensionHost G) (extension : ExtensionId) : Option GenerationId :=
  host.runtimes[extension]?.map (·.generation)

structure Lifecycle (host : ExtensionHost G) : Prop where
  runtime : ∀ extension, (host.generationOf extension).isSome ↔ Started (host.state extension)
  pending : ∀ extension id entry, host.pendingEffects.lookup (extension, id) = some entry →
    host.generationOf extension = some entry.generation

theorem Lifecycle.of_same {host next : ExtensionHost G} (h : host.Lifecycle)
    (hstate : ∀ extension, Started (next.state extension) ↔ Started (host.state extension))
    (hgeneration : ∀ extension, next.generationOf extension = host.generationOf extension)
    (hpending : ∀ extension id entry, next.pendingEffects.lookup (extension, id) = some entry →
      host.pendingEffects.lookup (extension, id) = some entry) : next.Lifecycle := by
  constructor
  · intro extension
    rw [hgeneration, hstate]
    exact h.runtime extension
  · intro extension id entry hentry
    rw [hgeneration]
    exact h.pending extension id entry (hpending extension id entry hentry)

/-- A step that starts no extension. -/
structure Keeps (host next : ExtensionHost G) : Prop where
  generation : ∀ extension generation, next.generationOf extension = some generation →
    host.generationOf extension = some generation
  nextGeneration : next.nextGeneration = host.nextGeneration
  lifecycle : host.Lifecycle → next.Lifecycle

variable {extension : ExtensionId} (host : ExtensionHost G)

namespace Keeps

theorem of_same {host next : ExtensionHost G}
    (hstate : ∀ extension, Started (next.state extension) ↔ Started (host.state extension))
    (hgeneration : ∀ extension, next.generationOf extension = host.generationOf extension)
    (hnext : next.nextGeneration = host.nextGeneration)
    (hpending : ∀ extension id entry, next.pendingEffects.lookup (extension, id) = some entry →
      host.pendingEffects.lookup (extension, id) = some entry) : Keeps host next :=
  ⟨fun extension _ h => (hgeneration extension).symm.trans h, hnext,
    fun h => h.of_same hstate hgeneration hpending⟩

theorem of_eq {host next : ExtensionHost G} (hregistry : next.registry = host.registry)
    (hruntimes : next.runtimes = host.runtimes) (hnext : next.nextGeneration = host.nextGeneration)
    (hpending : next.pendingEffects = host.pendingEffects) : Keeps host next := by
  refine of_same (fun extension => ?_) (fun extension => ?_) hnext fun _ _ _ h => hpending ▸ h
  · unfold ExtensionHost.state
    rw [hregistry]
  · unfold generationOf
    rw [hruntimes]

theorem refl : Keeps host host := of_eq rfl rfl rfl rfl

theorem trans {host middle next : ExtensionHost G} (first : Keeps host middle)
    (second : Keeps middle next) : Keeps host next :=
  ⟨fun extension generation h =>
      first.generation extension generation (second.generation extension generation h),
    second.nextGeneration.trans first.nextGeneration, fun h => second.lifecycle (first.lifecycle h)⟩

theorem of_plain {host next : ExtensionHost G} (h : Plain host next) : Keeps host next := by
  refine of_same (fun extension => ?_) (fun extension => ?_) h.nextGeneration fun _ _ => h.pending _
  · unfold ExtensionHost.state
    rw [h.registry]
  · unfold generationOf
    rw [h.runtimes]

theorem of_quiet {host next : ExtensionHost G} (h : Quiet host next) : Keeps host next := by
  refine of_same (fun extension => ?_) (fun extension => ?_) h.nextGeneration
    fun extension id entry hentry => ?_
  · rcases h.lifecycle extension with heq | ⟨hactive, hsuspended⟩
    · rw [heq]
    · rw [hactive, hsuspended]
      exact ⟨fun _ => .inl rfl, fun _ => .inr rfl⟩
  · have hcore : ∀ host : ExtensionHost G,
        host.generationOf extension = (host.core extension).map (·.1) := by
      intro host
      unfold generationOf core
      cases host.runtimes[extension]? <;> rfl
    rw [hcore, hcore, h.core]
  · rw [h.pending] at hentry
    split at hentry
    · cases hentry
    · exact hentry

theorem of_setRuntime {host : ExtensionHost G} {runtime next : ActiveRuntime G}
    (hruntime : host.runtimes[extension]? = some runtime)
    (hgeneration : next.generation = runtime.generation) :
    Keeps host (host.setRuntime extension next) := by
  refine of_same (fun _ => Iff.rfl) (fun other => ?_) rfl fun _ _ _ h => h
  unfold generationOf
  rw [runtimes_setRuntime]
  split
  · rename_i h
    rw [← h, hruntime, map_some, map_some, hgeneration]
  · rfl

theorem transition {host next : ExtensionHost G} {target : LifecycleState}
    (htarget : Started (some target) ↔ Started (host.state extension))
    (h : host.transition extension target = .ok next) : Keeps host next := by
  obtain ⟨record, hrecord, -, rfl⟩ := transition_eq_ok.mp h
  refine of_same (fun other => ?_) (fun _ => rfl) rfl fun _ _ _ h => h
  unfold ExtensionHost.state
  rw [getElem?_insert]
  split
  · rename_i heq
    subst heq
    exact htarget
  · exact Iff.rfl

theorem of_record {host : ExtensionHost G} {record : PackageRecord}
    (hbefore : ¬Started (host.state extension)) (hafter : ¬Started (some record.state)) :
    Keeps host { host with registry := host.registry.insert extension record } := by
  refine of_same (fun other => ?_) (fun _ => rfl) rfl fun _ _ _ h => h
  unfold ExtensionHost.state at hbefore ⊢
  rw [getElem?_insert]
  split
  · rename_i heq
    subst heq
    exact ⟨fun h => absurd h hafter, fun h => absurd h hbefore⟩
  · exact Iff.rfl

end Keeps

/-- An extension loses its runtime and its pending effects as it leaves the states that have one. -/
theorem Keeps.of_stop {host next : ExtensionHost G} (extension : ExtensionId)
    (hnext : next.nextGeneration = host.nextGeneration)
    (hruntimes : next.runtimes = host.runtimes.erase extension)
    (hstopped : ¬Started (next.state extension))
    (hstate : ∀ other, extension ≠ other → next.state other = host.state other)
    (hpending : ∀ id, next.pendingEffects.lookup (extension, id) = none)
    (hother : ∀ other id entry, extension ≠ other →
      next.pendingEffects.lookup (other, id) = some entry →
        host.pendingEffects.lookup (other, id) = some entry) : Keeps host next := by
  have hgeneration : ∀ other, next.generationOf other =
      if extension = other then none else host.generationOf other := by
    intro other
    unfold generationOf
    rw [hruntimes, getElem?_erase]
    split <;> rfl
  refine ⟨fun other generation h => ?_, hnext, fun h => ⟨fun other => ?_, fun other id entry hentry => ?_⟩⟩
  · rw [hgeneration] at h
    split at h
    · cases h
    · exact h
  · rw [hgeneration]
    split
    · rename_i heq
      subst heq
      exact ⟨fun h => absurd h Bool.false_ne_true, fun h => absurd h hstopped⟩
    · rename_i hne
      rw [hstate other hne]
      exact h.runtime other
  · rw [hgeneration]
    split
    · rename_i heq
      subst heq
      rw [hpending id] at hentry
      cases hentry
    · rename_i hne
      exact h.pending other id entry (hother other id entry hne hentry)

theorem lookup_dropWork (extension other : ExtensionId) (id : EffectId) :
    (host.dropWork extension).pendingEffects.lookup (other, id) =
      if extension = other then none else host.pendingEffects.lookup (other, id) := by
  show (Table.retain (·.1 ≠ extension) host.pendingEffects).lookup (other, id) = _
  rw [Table.lookup_retain]
  by_cases h : extension = other
  · simp [h]
  · simp [h, Ne.symm h]

/-- An extension that fails in the background. -/
theorem Keeps.fail [Platform] [NativeExtension G] {host : ExtensionHost G}
    (hstate : host.state extension = some .active ∨ host.state extension = some .suspended) :
    Keeps host (host.failDeferredRuntime extension) := by
  obtain ⟨record, hfailed, hrecord⟩ := transitionOrIgnore_failed hstate
  have hstate' : ∀ other, (((host.dropWork extension).removeRuntime extension).transitionOrIgnore
      extension .failed).state other = if extension = other then some .failed else host.state other := by
    intro other
    rw [hrecord, ExtensionHost.state, getElem?_insert]
    split
    · exact congrArg some hfailed
    · rfl
  have hstopped : Keeps host (((host.dropWork extension).removeRuntime extension).transitionOrIgnore
      extension .failed) := by
    refine .of_stop extension ?_ ?_ ?_ (fun other hne => ?_) (fun id => ?_) fun other id entry hne h => ?_
    · rw [hrecord]
      rfl
    · rw [hrecord]
      rfl
    · rw [hstate', if_pos rfl]
      decide
    · rw [hstate', if_neg hne]
    · rw [(Aside.transitionOrIgnore ..).pending]
      exact (lookup_dropWork host extension extension id).trans (if_pos rfl)
    · rw [(Aside.transitionOrIgnore ..).pending] at h
      exact ((lookup_dropWork host extension other id).trans (if_neg hne)).symm.trans h
  exact hstopped.trans ((Keeps.of_quiet (.reconcileActiveCapabilities _)).trans
    (.of_quiet (.broadcastCapabilityChanges _)))

variable [Platform] [NativeExtension G]

omit [Platform] [NativeExtension G] in
/-- An accepted effect is one of the runtime that has requested it. -/
theorem Keeps.accept {host : ExtensionHost G} {generation : GenerationId} {cause : CauseContext}
    {request : EffectRequest} (leader : EffectId)
    (hvalid : host.validateEffect extension generation cause request = .ok ()) :
    Keeps host (host.addPending extension generation request leader) := by
  unfold validateEffect at hvalid
  obtain ⟨-, hvalid⟩ := ensure_bind_eq_ok.mp hvalid
  obtain ⟨-, hvalid⟩ := ensure_bind_eq_ok.mp hvalid
  obtain ⟨-, hvalid⟩ := ensure_bind_eq_ok.mp hvalid
  obtain ⟨hgeneration, -⟩ := ensure_bind_eq_ok.mp hvalid
  have hruntime : host.generationOf extension = some generation := by
    unfold generationOf
    cases hruntime : host.runtimes[extension]? with
    | none =>
      rw [hruntime] at hgeneration
      cases hgeneration
    | some runtime =>
      rw [hruntime, any_some, decide_eq_true_eq] at hgeneration
      rw [map_some, hgeneration]
  refine ⟨fun _ _ h => h, rfl, fun h => ⟨h.runtime, fun other id entry hentry => ?_⟩⟩
  change (host.pendingEffects.insert (extension, request.id) _).lookup (other, id) = _ at hentry
  rcases Table.of_lookup_insert hentry with ⟨heq, rfl⟩ | ⟨-, hentry⟩
  · obtain ⟨rfl, -⟩ := Prod.mk.inj heq
    exact hruntime
  · exact h.pending other id entry hentry

theorem Keeps.of_change {checked : Prop} {host next : ExtensionHost G}
    (h : Change checked host next) : Keeps host next := by
  cases h with
  | cause hcause => exact of_quiet (.childCause hcause)
  | violation extension message => exact of_quiet (.recordViolation ..)
  | enqueue => exact of_quiet (.enqueueEventInternal ..)
  | guest guest hruntime => exact of_setRuntime hruntime rfl
  | @patch extension runtime state persistedSettings hruntime =>
    have hset : Keeps host (host.setRuntime extension { runtime with state }) :=
      of_setRuntime hruntime rfl
    exact hset.trans (of_eq rfl rfl rfl rfl)
  | accept leader hvalid => exact accept leader hvalid
  | snapshot value hruntime | restore hruntime => exact of_setRuntime hruntime rfl
  | fail hruntime hstate => exact fail hstate

theorem Keeps.of_changes {host next : ExtensionHost G} (h : Changes False host next) :
    Keeps host next := by
  induction h with
  | refl => exact refl host
  | tail _ hlast ih => exact ih.trans (of_change hlast)

theorem Keeps.arbitrateUpdate (extension : ExtensionId) (generation : GenerationId)
    (cause : CauseContext) (update : ExtensionUpdate) (accepted : List AcceptedEffect) :
    Keeps host (host.arbitrateUpdate extension generation cause update accepted).1 :=
  of_changes (Handles.arbitrateUpdate ..).changes

theorem Keeps.beforeSelection : Keeps host host.beforeSelection := by
  have hadvanced : Keeps host host.advance := of_eq rfl rfl rfl rfl
  exact hadvanced.trans (of_changes (Changes.beforeSelection host False.elim))

/-- The host at a turn of the loop over the selected events, after some of them. -/
def turn (host : ExtensionHost G) (taken : List QueuedEvent) :
    ExtensionHost G × TickReport × List (ExtensionId × CauseId) :=
  taken.foldl dispatchQueued (host.beforeSelection.dequeue host.selectionBudget,
    (host.beginTick.2.processDeferred host.beginTick.1).2, [])

theorem Keeps.turn (taken : List QueuedEvent) : Keeps host (host.turn taken).1 := by
  have hdequeued : Keeps host.beforeSelection (host.beforeSelection.dequeue host.selectionBudget) :=
    of_eq rfl rfl rfl rfl
  exact ((Keeps.beforeSelection host).trans hdequeued).trans
    (of_changes (.dispatch taken (_, _, [])))

theorem Keeps.processTick : Keeps host host.processTick.1 :=
  .turn host host.selection

section policy

omit [Platform] [NativeExtension G]

theorem not_started_of_registry {host : ExtensionHost G}
    (h : ∀ record, host.registry[extension]? = some record → record.state ≠ .active ∧
      record.state ≠ .suspended) :
    ¬Started (host.state extension) := by
  rintro (hstate | hstate)
  · obtain ⟨record, hrecord, hstate⟩ := state_eq_some.mp hstate
    exact (h record hrecord).1 hstate
  · obtain ⟨record, hrecord, hstate⟩ := state_eq_some.mp hstate
    exact (h record hrecord).2 hstate

theorem Keeps.install [Platform] {host next : ExtensionHost G} {manifest : ExtensionManifest}
    {metadata : PackageMetadata} (h : host.install manifest metadata = .ok next) :
    Keeps host next := by
  unfold ExtensionHost.install at h
  obtain ⟨-, h⟩ := ensure_bind_eq_ok.mp h
  obtain ⟨hnew, h⟩ := ensure_bind_eq_ok.mp h
  obtain ⟨-, h⟩ := ensure_bind_eq_ok.mp h
  refine Except.ok.inj h ▸ of_record (not_started_of_registry fun record hrecord => ?_) ?_
  · rw [contains_eq_isSome, hrecord] at hnew
    exact absurd rfl hnew
  · exact of_decide_eq_false rfl

theorem Keeps.replace [Platform] {host next : ExtensionHost G} {manifest : ExtensionManifest}
    {metadata : PackageMetadata} (h : host.replace manifest metadata = .ok next) :
    Keeps host next := by
  unfold ExtensionHost.replace at h
  obtain ⟨hidle, h⟩ := ensure_bind_eq_ok.mp h
  obtain ⟨-, h⟩ := ensure_bind_eq_ok.mp h
  refine Except.ok.inj h ▸ of_record (not_started_of_registry fun record hrecord => ?_) ?_
  · rw [hrecord, any_some, decide_eq_true_eq] at hidle
    constructor <;> intro hstate <;> exact hidle (by rw [hstate]; simp)
  · exact of_decide_eq_false rfl

theorem Keeps.restoreExtensionSettings {host next : ExtensionHost G} {settings : DataValue}
    (h : host.restoreExtensionSettings extension settings = .ok next) : Keeps host next := by
  unfold ExtensionHost.restoreExtensionSettings at h
  obtain ⟨record, -, h⟩ := bind_eq_ok.mp h
  obtain ⟨settings, -, h⟩ := bind_eq_ok.mp h
  have hstored : Keeps host { host with
      persistedSettings := host.persistedSettings.insert extension settings } :=
    of_eq rfl rfl rfl rfl
  dsimp only at h
  split at h
  · exact Except.ok.inj h ▸ hstored
  · rename_i runtime hruntime
    exact Except.ok.inj h ▸ hstored.trans (of_setRuntime hruntime rfl)

end policy

omit [Platform] in
theorem Keeps.invalidateDocumentScope (snapshots : List SnapshotKind) :
    Keeps host (host.invalidateDocumentScope snapshots) := by
  refine of_same (fun _ => Iff.rfl) (fun extension => ?_) rfl fun extension id entry h => ?_
  · unfold generationOf
    show (host.runtimes.map _)[extension]?.map _ = _
    rw [ExtTreeMap.getElem?_map]
    cases host.runtimes[extension]? <;> rfl
  · cases h

omit [Platform] [NativeExtension G] in
theorem closeRuntime_eq (extension : ExtensionId) :
    (host.closeRuntime extension).registry = host.registry ∧
      (host.closeRuntime extension).runtimes = host.runtimes.erase extension ∧
      (host.closeRuntime extension).nextGeneration = host.nextGeneration := by
  unfold closeRuntime
  split <;> exact ⟨rfl, rfl, rfl⟩

omit [Platform] [NativeExtension G] in
/-- A started extension is unloaded: it loses its runtime, and then its work. -/
theorem Keeps.stop {host unloading next : ExtensionHost G}
    (hunloading : host.transition extension .unloading = .ok unloading)
    (hnext : (unloading.closeRuntime extension).transition extension .disabled = .ok next) :
    Keeps host (next.dropWork extension) := by
  have haside := (Aside.transition hunloading).trans
    ((Aside.closeRuntime unloading extension).trans (.transition hnext))
  obtain ⟨hregistry, hruntimes, hgeneration⟩ := closeRuntime_eq unloading extension
  obtain ⟨hruntimes', hgeneration', hstate'⟩ := transition_spec hunloading
  obtain ⟨hruntimes'', hgeneration'', hstate''⟩ := transition_spec hnext
  refine .of_stop extension ?_ ?_ ?_ (fun other hne => ?_) (fun id => ?_) fun other id entry hne h => ?_
  · exact hgeneration''.trans (hgeneration.trans hgeneration')
  · exact hruntimes''.trans (hruntimes.trans (congrArg (·.erase extension) hruntimes'))
  · show ¬Started (next.state extension)
    rw [hstate'', if_pos rfl]
    decide
  · show next.state other = host.state other
    rw [hstate'', if_neg hne, ExtensionHost.state, hregistry]
    exact (hstate' other).trans (if_neg hne)
  · rw [lookup_dropWork, if_pos rfl]
  · rw [lookup_dropWork, if_neg hne, haside.pending] at h
    exact h

omit [Platform] [NativeExtension G] in
/-- A package that is not started is taken out of the registry. -/
theorem Keeps.forget {host next : ExtensionHost G} (hstate : ¬Started (host.state extension))
    (hregistry : next.registry = host.registry.erase extension)
    (hruntimes : next.runtimes = host.runtimes) (hnext : next.nextGeneration = host.nextGeneration)
    (hpending : next.pendingEffects = host.pendingEffects) : Keeps host next := by
  refine of_same (fun other => ?_) (fun other => ?_) hnext fun _ _ _ h => hpending ▸ h
  · unfold ExtensionHost.state at hstate ⊢
    rw [hregistry, getElem?_erase]
    split
    · rename_i heq
      subst heq
      exact ⟨fun h => absurd h (by decide), fun h => absurd h hstate⟩
    · exact Iff.rfl
  · unfold generationOf
    rw [hruntimes]

theorem Keeps.of_edit {own : ExtensionId → Prop} {host next : ExtensionHost G}
    (h : Edit own host next) : Keeps host next := by
  cases h with
  | ripples h => exact of_quiet (.of_ripples h)
  | changes h => exact of_changes h
  | plain h => exact of_plain h
  | runtime hruntime hgeneration => exact of_setRuntime hruntime hgeneration
  | settings h => exact restoreExtensionSettings h
  | decisions => exact of_eq rfl rfl rfl rfl
  | transition _ hstarted h => exact transition hstarted h
  | stop _ hunloading h => exact stop hunloading h
  | forget _ hidle => exact forget hidle rfl rfl rfl rfl
  | invalidate => exact invalidateDocumentScope ..

theorem Keeps.of_edits {own : ExtensionId → Prop} {host next : ExtensionHost G}
    (h : Edits own host next) : Keeps host next := by
  induction h with
  | refl => exact refl host
  | tail _ hlast ih => exact ih.trans (of_edit hlast)

/-- A step that starts at most the extensions whose generations it gives out. -/
structure Starts (issued : List GenerationId) (host next : ExtensionHost G) : Prop where
  generation : ∀ extension generation, next.generationOf extension = some generation →
    host.generationOf extension = some generation ∨ generation ∈ issued
  numbers : (issued = [] ∧ next.nextGeneration = host.nextGeneration) ∨
    ((issued = [] ∨ issued = [host.nextGeneration]) ∧
      next.nextGeneration = saturatingAdd host.nextGeneration 1)
  lifecycle : host.Lifecycle → next.Lifecycle

omit [Platform] [NativeExtension G] in
theorem Starts.of_keeps {host next : ExtensionHost G} (h : Keeps host next) : Starts [] host next :=
  ⟨fun extension generation hnext => .inl (h.generation extension generation hnext),
    .inl ⟨rfl, h.nextGeneration⟩, h.lifecycle⟩

/-- The generations that an activation gives out. -/
def issuedBy (outcome : Except HostError ActivationReport) : List GenerationId :=
  match outcome with
  | .ok report => [report.generation]
  | .error _ => []

omit [Platform] [NativeExtension G] in
/-- The runtime of a new instance, for an extension that has none. -/
theorem lifecycle_setRuntime {host next : ExtensionHost G} (h : host.Lifecycle)
    (runtime : ActiveRuntime G) (hidle : ¬Started (host.state extension))
    (hstate : ∀ other, next.state other = if extension = other then some .active else host.state other)
    (hruntimes : next.runtimes = host.runtimes.insert extension runtime)
    (hpending : next.pendingEffects = host.pendingEffects) : next.Lifecycle := by
  have hnone : host.generationOf extension = none := by
    rw [← not_isSome_iff_eq_none, h.runtime]
    exact hidle
  have hgeneration : ∀ other, next.generationOf other =
      if extension = other then some runtime.generation else host.generationOf other := by
    intro other
    unfold generationOf
    rw [hruntimes, getElem?_insert]
    split <;> rfl
  refine ⟨fun other => ?_, fun other id entry hentry => ?_⟩
  · rw [hgeneration, hstate]
    split
    · exact ⟨fun _ => .inl rfl, fun _ => rfl⟩
    · exact h.runtime other
  · rw [hpending] at hentry
    have hbefore := h.pending other id entry hentry
    rw [hgeneration]
    split
    · rename_i heq
      rw [← heq, hnone] at hbefore
      cases hbefore
    · exact hbefore

/-- The end of an activation. -/
theorem startRuntime_starts {host : ExtensionHost G} {record : PackageRecord}
    {context : ActivationContext} (hidle : ¬Started (host.state context.extension))
    (guest : Option G) (subscriptions : List EventSubscription) (update : ExtensionUpdate) :
    ((∃ error, host.startRuntime record context guest subscriptions update = (.error error, host)) ∨
      ∃ report, (host.startRuntime record context guest subscriptions update).1 = .ok report ∧
        report.generation = context.generation) ∧
    (host.startRuntime record context guest subscriptions update).2.nextGeneration =
      host.nextGeneration ∧
    (∀ extension generation,
      (host.startRuntime record context guest subscriptions update).2.generationOf extension =
          some generation →
        host.generationOf extension = some generation ∨ generation = context.generation) ∧
    (host.Lifecycle →
      (host.startRuntime record context guest subscriptions update).2.Lifecycle) := by
  unfold startRuntime
  dsimp only
  split
  · rename_i error herror
    exact ⟨.inl ⟨error, rfl⟩, rfl, fun _ _ h => .inl h, id⟩
  · rename_i active hactive
    obtain ⟨hruntimes, hnext, hstate⟩ := transition_spec hactive
    have hpending := (Aside.transition hactive).pending
    obtain ⟨persistedSettings, hrestored⟩ :=
      restoreSettings_eq active context.extension record.manifest
    generalize hrun : (⟨context.generation, context.capabilities, subscriptions, guest,
      (active.restoreSettings context.extension record.manifest).1, 0⟩ : ActiveRuntime G) = runtime
    have hkeeps : ∀ started : ExtensionHost G, Keeps started
        (started.arbitrateUpdate context.extension context.generation context.cause update
          []).1.broadcastCapabilityChanges := fun started =>
      (Keeps.arbitrateUpdate ..).trans (.of_quiet (.broadcastCapabilityChanges _))
    have hstarted := hkeeps
      ((active.restoreSettings context.extension record.manifest).2.setRuntime context.extension
        runtime)
    have hgeneration : runtime.generation = context.generation := by rw [← hrun]
    rw [hrestored] at hstarted ⊢
    refine ⟨.inr ⟨_, rfl, rfl⟩, hstarted.nextGeneration.trans hnext,
      fun extension generation h => ?_, fun h => hstarted.lifecycle ?_⟩
    · have hset := hstarted.generation extension generation h
      unfold generationOf at hset ⊢
      rw [runtimes_setRuntime] at hset
      split at hset
      · exact .inr ((some.inj hset).symm.trans hgeneration)
      · rw [← hruntimes]
        exact .inl hset
    · exact lifecycle_setRuntime h runtime hidle hstate
        (congrArg (·.insert context.extension runtime) hruntimes) hpending

theorem Starts.activateValidated {host : ExtensionHost G} {record : PackageRecord}
    (hidle : ¬Started (host.state extension)) :
    Starts (issuedBy (host.activateValidated extension record).1) host
      (host.activateValidated extension record).2 := by
  unfold ExtensionHost.activateValidated
  split
  · exact of_keeps (.refl host)
  · rename_i capabilities hcheck
    dsimp only
    split
    · have hfailed : Keeps host.freshGeneration.2.rootCause.2
          (host.freshGeneration.2.rootCause.2.failActivation extension) := by
        unfold failActivation transitionOrIgnore
        split
        · have hfailed : ¬Started (some .failed) := by decide
          exact .transition ⟨fun h => absurd h hfailed, fun h => absurd h hidle⟩ ‹_›
        · exact .refl _
      exact ⟨fun _ _ h => .inl (hfailed.generation _ _ h),
        .inr ⟨.inl rfl, hfailed.nextGeneration⟩, fun h => hfailed.lifecycle ⟨h.runtime, h.pending⟩⟩
    · rename_i guest subscriptions update hinstance
      have hstarted := @startRuntime_starts G _ _ host.freshGeneration.2.rootCause.2 record
        { extension, generation := host.freshGeneration.1
          cause := host.freshGeneration.2.rootCause.1, capabilities } hidle guest subscriptions update
      obtain ⟨houtcome, hnext, hgeneration, hlifecycle⟩ := hstarted
      rcases houtcome with ⟨error, heq⟩ | ⟨report, hreport, hnumber⟩
      · rw [heq]
        exact ⟨fun _ _ h => .inl h, .inr ⟨.inl rfl, rfl⟩, fun h => ⟨h.runtime, h.pending⟩⟩
      · rw [hreport, issuedBy, hnumber]
        refine ⟨fun other generation h => ?_, .inr ⟨.inr rfl, hnext⟩,
          fun h => hlifecycle ⟨h.runtime, h.pending⟩⟩
        exact (hgeneration other generation h).imp_right List.mem_singleton.mpr

theorem Starts.activate (extension : ExtensionId) :
    Starts (issuedBy (host.activate extension).1) host (host.activate extension).2 := by
  have hidle : ∀ {record : PackageRecord}, host.registry[extension]? = some record →
      ¬Started (some record.state) → ¬Started (host.state extension) := by
    intro record hrecord hidle hstarted
    unfold ExtensionHost.state at hstarted
    rw [hrecord] at hstarted
    exact hidle hstarted
  unfold ExtensionHost.activate
  split
  · exact of_keeps (.refl host)
  · rename_i record hrecord
    split
    · rename_i hstopped
      have hbefore : ¬Started (some record.state) := by
        rcases hstopped with h | h <;> rw [h] <;> decide
      split
      · exact of_keeps (.refl host)
      · rename_i next hnext
        have hafter : ¬Started (some .validated) := by decide
        have hkeeps : Keeps host next := .transition
          ⟨fun h => absurd h hafter, fun h => absurd h (hidle hrecord hbefore)⟩ hnext
        have hstopped : ¬Started (next.state extension) := by
          rw [state_of_transition hnext]
          exact hafter
        have hstarts : Starts _ next (next.activateValidated extension record).2 :=
          activateValidated hstopped
        refine ⟨fun other generation h => ?_, ?_, fun h => hstarts.lifecycle (hkeeps.lifecycle h)⟩
        · exact (hstarts.generation other generation h).imp_left (hkeeps.generation other generation)
        · rw [← hkeeps.nextGeneration]
          exact hstarts.numbers
    split
    · exact of_keeps (.refl host)
    · rename_i hstate
      refine activateValidated (hidle hrecord ?_)
      rw [not_not.mp hstate]
      decide

end ExtensionHost

namespace Session

variable {G : Type} [Platform] [NativeExtension G]

open ExtensionHost

/-- The generations that an operation gives out. -/
def issuedBy (session : Session G) : Operation G → List GenerationId
  | .activate extension => ExtensionHost.issuedBy (session.host.activate extension).1
  | _ => []

/-- The generations that a run gives out, in its order. -/
def issued : Session G → List (Operation G) → List GenerationId
  | _, [] => []
  | session, operation :: operations => session.issuedBy operation ++
      (session.step operation).elim [] fun next => next.issued operations

omit [Platform] [NativeExtension G] in
theorem keeps_after (session : Session G) {result : Except HostError (ExtensionHost G)}
    (h : ∀ next, result = .ok next → Keeps session.host next) :
    Keeps session.host (session.after result).host := by
  cases result with
  | ok next => exact h next rfl
  | error error => exact .refl session.host

variable {next session : Session G}

theorem keeps_step {operation : Operation G}
    (hactivate : ∀ extension, operation ≠ .activate extension)
    (hstep : session.step operation = some next) : Keeps session.host next.host := by
  cases operation
  case activate extension => exact absurd rfl (hactivate extension)
  case install => exact some.inj hstep ▸ session.keeps_after fun _ => .install
  case replace => exact some.inj hstep ▸ session.keeps_after fun _ => .replace
  case processTick => exact some.inj hstep ▸ .processTick session.host
  all_goals exact .of_edits (edits_step rfl hstep)

theorem starts_step {operation : Operation G} (hstep : session.step operation = some next) :
    Starts (session.issuedBy operation) session.host next.host := by
  cases operation
  case activate extension =>
    have hactivated := Starts.activate session.host extension
    simp only [step] at hstep
    rw [issuedBy]
    split at hstep <;> rename_i heq <;> rw [heq] at hactivated ⊢ <;>
      exact some.inj hstep ▸ hactivated
  all_goals exact .of_keeps (keeps_step (fun _ h => by cases h) hstep)

/-- The generations that were given out, and the next one.  The counter stops at its maximum. -/
structure Issued (host : ExtensionHost G) (issued : List GenerationId) : Prop where
  increasing : issued.Pairwise fun generation later =>
    generation ≤ later ∧ (generation < u64Max → generation < later)
  below : ∀ generation ∈ issued, generation ≤ host.nextGeneration ∧
    (generation < u64Max → generation < host.nextGeneration)
  bounded : host.nextGeneration ≤ u64Max
  running : ∀ extension generation, host.generationOf extension = some generation →
    generation ∈ issued

omit [Platform] [NativeExtension G] in
theorem Issued.starts {host next : ExtensionHost G} {earlier issued : List GenerationId}
    (h : Issued host earlier) (hstarts : Starts issued host next) :
    Issued next (earlier ++ issued) := by
  have hrunning : ∀ extension generation, next.generationOf extension = some generation →
      generation ∈ earlier ++ issued := by
    intro extension generation hnext
    rcases hstarts.generation extension generation hnext with hbefore | hmem
    · exact List.mem_append_left _ (h.running extension generation hbefore)
    · exact List.mem_append_right _ hmem
  have hbounded := h.bounded
  have hbelow : ∀ generation ∈ earlier ++ issued, generation ≤ next.nextGeneration ∧
      (generation < u64Max → generation < next.nextGeneration) := by
    intro generation hmem
    rcases hstarts.numbers with ⟨rfl, hnext⟩ | ⟨hissued, hnext⟩
    · rw [hnext]
      rw [List.append_nil] at hmem
      exact h.below generation hmem
    · rw [hnext]
      have hle : generation ≤ host.nextGeneration := by
        rcases List.mem_append.mp hmem with hmem | hmem
        · exact (h.below generation hmem).1
        · rcases hissued with rfl | rfl
          · exact absurd hmem List.not_mem_nil
          · exact (List.mem_singleton.mp hmem).le
      exact ⟨Nat.le_min.mpr ⟨Nat.le_succ_of_le hle, Nat.le_trans hle hbounded⟩,
        fun hlimit => Nat.lt_min.mpr ⟨Nat.lt_succ_of_le hle, hlimit⟩⟩
  refine ⟨?_, hbelow, ?_, hrunning⟩
  · rcases hstarts.numbers with ⟨rfl, -⟩ | ⟨rfl | rfl, -⟩
    · rw [List.append_nil]
      exact h.increasing
    · rw [List.append_nil]
      exact h.increasing
    · refine List.pairwise_append.mpr ⟨h.increasing, List.pairwise_singleton _ _, ?_⟩
      intro generation hmem later hlater
      obtain rfl := List.mem_singleton.mp hlater
      exact h.below generation hmem
  · rcases hstarts.numbers with ⟨-, hnext⟩ | ⟨-, hnext⟩ <;> rw [hnext]
    · exact hbounded
    · exact Nat.min_le_right _ _

theorem lifecycle_run {operations : List (Operation G)} {earlier : List GenerationId}
    (h : session.host.Lifecycle) (hissued : Issued session.host earlier)
    (hrun : Transition.run step session operations = some next) :
    next.host.Lifecycle ∧ Issued next.host (earlier ++ session.issued operations) := by
  induction operations generalizing session earlier with
  | nil =>
    obtain rfl : session = next := by simpa [Transition.run] using hrun
    exact ⟨h, by rwa [issued, List.append_nil]⟩
  | cons operation operations ih =>
    obtain ⟨middle, hstep, hrest⟩ := Transition.run_cons.mp hrun
    have hstarts := starts_step hstep
    rw [issued, hstep, elim_some, ← List.append_assoc]
    exact ih (hstarts.lifecycle h) (hissued.starts hstarts) hrest

omit [Platform] [NativeExtension G] in
theorem lifecycle_new (config : HostConfig) : (Session.new config : Session G).host.Lifecycle := by
  refine ⟨fun extension => ?_, nofun⟩
  simp [generationOf, ExtensionHost.state, Session.new, ExtensionHost.new, Started]

/-- The extensions with a runtime are those that are active or suspended, every pending effect is one
of the runtime of its extension, a generation is given out once, until the counter is full, and the
turn of an event finds the runtime of a target that is active, and calls no other. -/
theorem lifecycle_sound (config : HostConfig) (operations : List (Operation G))
    (session : Session G) (hrun : Transition.run step (.new config) operations = some session) :
    (∀ extension : ExtensionId, session.host.runtimes[extension]?.isSome ↔
      session.host.state extension = some .active ∨
        session.host.state extension = some .suspended) ∧
    (∀ extension id entry, session.host.pendingEffects.lookup (extension, id) = some entry →
      ∃ runtime, session.host.runtimes[extension]? = some runtime ∧
        runtime.generation = entry.generation) ∧
    ((Session.new config).issued operations).Pairwise (fun generation later =>
      generation ≤ later ∧ (generation < u64Max → generation < later)) ∧
    (∀ (extension : ExtensionId) (runtime : ActiveRuntime G),
      session.host.runtimes[extension]? = some runtime →
        runtime.generation ∈ (Session.new config).issued operations) ∧
    ∀ taken queued rest, session.host.selection = taken ++ queued :: rest →
      if (session.host.turn taken).1.state queued.target = some .active then
        ∃ runtime, (session.host.turn taken).1.runtimes[queued.target]? = some runtime
      else (session.host.turn (taken ++ [queued])).1 = (session.host.turn taken).1 ∨
        ∃ message, (session.host.turn (taken ++ [queued])).1 =
          (session.host.turn taken).1.recordViolation queued.target message := by
  have hnone : Issued (Session.new config : Session G).host [] := by
    refine ⟨.nil, nofun, ?_, fun extension _ h => ?_⟩
    · show 1 ≤ u64Max
      decide
    simp [generationOf, Session.new, ExtensionHost.new] at h
  obtain ⟨hlifecycle, hissued⟩ := lifecycle_run (lifecycle_new config) hnone hrun
  have hsome : ∀ (host : ExtensionHost G) (extension : ExtensionId),
      (host.generationOf extension).isSome = host.runtimes[extension]?.isSome :=
    fun host extension => isSome_map
  refine ⟨fun extension => ?_, fun extension id entry h => ?_, hissued.increasing,
    fun extension runtime h => ?_, fun taken queued rest _ => ?_⟩
  · rw [← hsome]
    exact hlifecycle.runtime extension
  · exact map_eq_some_iff.mp (hlifecycle.pending extension id entry h)
  · exact hissued.running extension _ (by rw [generationOf, h]; rfl)
  · have hturn := (Keeps.turn session.host taken).lifecycle hlifecycle
    have hnext : session.host.turn (taken ++ [queued]) =
        dispatchQueued (session.host.turn taken) queued := by
      unfold ExtensionHost.turn
      rw [List.foldl_append]
      rfl
    rw [hnext]
    split
    · rename_i hactive
      rw [← isSome_iff_exists, ← hsome]
      exact (hturn.runtime queued.target).mpr (.inl hactive)
    · rename_i hidle
      unfold dispatchQueued
      dsimp only
      split
      · exact .inr ⟨_, rfl⟩
      · exact .inl (by rw [if_pos (.inl hidle)])

theorem issued_append {operations more : List (Operation G)}
    (hrun : Transition.run step session operations = some next) :
    session.issued (operations ++ more) = session.issued operations ++ next.issued more := by
  induction operations generalizing session with
  | nil =>
    obtain rfl : session = next := by simpa [Transition.run] using hrun
    rfl
  | cons operation operations ih =>
    obtain ⟨middle, hstep, hrest⟩ := Transition.run_cons.mp hrun
    rw [List.cons_append, issued, issued, hstep, elim_some, elim_some, ih hrest, List.append_assoc]

end Session

namespace Session

attribute [local instance] exactVersions lateAnswer

/-- A package whose adapter is not registered. -/
def adapterless : ExtensionManifest :=
  { declarativeManifest "com.example.reader" ⟨[], [], []⟩ with
    entrypoint := .nativeBuiltin ⟨"com.example.reader", "background"⟩ none }

theorem lifecycle_sound_background : ∃ session,
    Transition.run step (.new .default) (startBackground ++ [.processTick]) = some session ∧
    ∀ extension : ExtensionId, session.host.runtimes[extension]?.isSome ↔
      session.host.state extension = some .active ∨
        session.host.state extension = some .suspended := by
  have hrun : (Transition.run step (.new .default)
      (startBackground ++ [.processTick])).isSome := by decide +kernel
  obtain ⟨session, hrun⟩ := isSome_iff_exists.mp hrun
  exact ⟨session, hrun, (lifecycle_sound .default _ session hrun).1⟩

/-- The package has failed some times, each of which has used up a generation. -/
def failing (count : Nat) : Session Nat :=
  ⟨{ ExtensionHost.new .default with
      registry := (∅ : ExtTreeMap ExtensionId PackageRecord).insert "com.example.reader"
        ⟨adapterless, ⟨.bundled⟩, .failed⟩
      nextGeneration := count, nextCause := count }, []⟩

theorem run_failing {first count : Nat} (h : first + count ≤ u64Max) :
    Transition.run step (failing first) (List.replicate count (.activate "com.example.reader")) =
      some (failing (first + count)) := by
  induction count generalizing first with
  | zero => rfl
  | succ count ih =>
    have hstep : step (failing first) (.activate "com.example.reader") =
        some (failing (saturatingAdd first 1)) := rfl
    have hnext : saturatingAdd first 1 = first + 1 := Nat.min_eq_left (by omega)
    rw [List.replicate_succ, Transition.run_cons]
    refine ⟨failing (first + 1), hnext ▸ hstep, ?_⟩
    rw [ih (by omega)]
    exact congrArg (fun count => some (failing count)) (by omega)

/-- The package fails until the counter of the generations is full. -/
def failAlways : List (Operation Nat) :=
  [.install adapterless ⟨.bundled⟩, .activate "com.example.reader"] ++
    List.replicate (u64Max - 2) (.activate "com.example.reader")

def activateTwice : List (Operation Nat) :=
  [.registerNativeAdapter ⟨"com.example.reader", "background"⟩ id, .activate "com.example.reader",
    .unload "com.example.reader", .activate "com.example.reader"]

/-- An event can wait for a package that was never activated, and the last generation is given out
again and again. -/
theorem lifecycle_exceptions :
    (∃ session : Session Nat, Transition.run step (.new .default) [.install adapterless ⟨.bundled⟩,
        .enqueueHostEvent "com.example.reader" (.lifecycle .applicationReady)] = some session ∧
      ∃ queued ∈ session.host.queue, (session.host.runtimes[queued.target]?).isNone) ∧
    ∃ session, Transition.run step (.new .default) (failAlways ++ activateTwice) = some session ∧
      ¬((Session.new .default : Session Nat).issued (failAlways ++ activateTwice)).Nodup := by
  constructor
  · have hwaits : (Transition.run step (.new .default : Session Nat)
        [.install adapterless ⟨.bundled⟩,
          .enqueueHostEvent "com.example.reader" (.lifecycle .applicationReady)]).any
        (fun session => session.host.queue.any fun queued =>
          (session.host.runtimes[queued.target]?).isNone) = true := by decide +kernel
    obtain ⟨session, hrun, hqueue⟩ := (any_eq_true _ _).mp hwaits
    obtain ⟨queued, hmem, hnone⟩ := List.any_eq_true.mp hqueue
    exact ⟨session, hrun, queued, hmem, hnone⟩
  · have hfirst : Transition.run step (.new .default)
        [.install adapterless ⟨.bundled⟩, .activate "com.example.reader"] = some (failing 2) := rfl
    have hfail : Transition.run step (.new .default) failAlways =
        some (failing (2 + (u64Max - 2))) :=
      Transition.run_append hfirst (run_failing (by decide))
    have hlast : (Transition.run step (failing (2 + (u64Max - 2))) activateTwice).isSome := by
      decide +kernel
    have hissued : (failing (2 + (u64Max - 2))).issued activateTwice = [u64Max, u64Max] := by
      decide +kernel
    obtain ⟨session, hrun⟩ := isSome_iff_exists.mp hlast
    refine ⟨session, Transition.run_append hfail hrun, fun hnodup => ?_⟩
    rw [issued_append hfail, hissued] at hnodup
    exact absurd (hnodup.sublist (List.sublist_append_right _ _)) (by decide)

end Session

end KeyReader.Extension
