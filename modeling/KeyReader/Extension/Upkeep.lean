import KeyReader.Extension.Ownership

/-! What becomes of the settings of an extension, in its state and among the persisted ones: what one
operation of the host does to them, and the invariants that follow. -/

namespace KeyReader.Extension

open Checked Std OrderedMap Option Table

/-- The settings of an extension: the field of its state, if it has a runtime, and the persisted
ones. -/
structure SettingsView where
  running : Option (Option DataValue)
  saved : Option DataValue

/-- One thing that happens to the settings of an extension, whose package has one of the manifests. -/
inductive SettingsView.Step (manifests : ExtensionManifest → Prop) : SettingsView → SettingsView → Prop
  | patch {before after : Option DataValue} (saved : Option DataValue)
      (hwritten : (∀ manifest, manifests manifest → manifest.Aimed) →
        ExtensionManifest.Written manifests before after) :
      Step manifests ⟨some before, saved⟩ ⟨some after, after.or saved⟩
  | restore {manifest : ExtensionManifest} {limits : ValidationLimits}
      {settings normalized : DataValue} (running : Option (Option DataValue))
      (saved : Option DataValue) (hmanifest : manifests manifest)
      (h : normalizePersistedSettings manifest settings limits = .ok normalized) :
      Step manifests ⟨running, saved⟩ ⟨running.map fun _ => some normalized, some normalized⟩
  /-- The persisted settings are normalized. -/
  | renew {manifest : ExtensionManifest} {limits : ValidationLimits}
      {settings normalized : DataValue} (running : Option (Option DataValue))
      (hmanifest : manifests manifest)
      (h : normalizePersistedSettings manifest settings limits = .ok normalized) :
      Step manifests ⟨running, some settings⟩ ⟨running, some normalized⟩
  | forget (view : SettingsView) : Step manifests view { view with saved := none }
  | stop (view : SettingsView) : Step manifests view { view with running := none }
  | close (settings : DataValue) (saved : Option DataValue) :
      Step manifests ⟨some (some settings), saved⟩ ⟨none, some settings⟩

/-- The settings with which a runtime starts: the persisted ones, or the defaults where there are none. -/
inductive SettingsView.Starts (manifest : ExtensionManifest) : SettingsView → Option DataValue → Prop
  | saved {limits : ValidationLimits} {settings normalized : DataValue}
      (running : Option (Option DataValue))
      (h : normalizePersistedSettings manifest settings limits = .ok normalized) :
      Starts manifest ⟨running, some normalized⟩ (some normalized)
  | defaults (running : Option (Option DataValue)) : Starts manifest ⟨running, none⟩
      (Assoc.get "settings" (initialExtensionState manifest))

theorem SettingsView.Step.mono {manifests others : ExtensionManifest → Prop}
    (hle : ∀ manifest, manifests manifest → others manifest) {view next : SettingsView}
    (h : Step manifests view next) : Step others view next := by
  cases h with
  | patch saved hwritten =>
    refine .patch saved fun haimed => Relation.ReflTransGen.mono ?_ _ _
      (hwritten fun manifest h => haimed _ (hle _ h))
    exact fun _ _ ⟨manifest, hmanifest, hrest⟩ => ⟨manifest, hle _ hmanifest, hrest⟩
  | restore running saved hmanifest h => exact .restore running saved (hle _ hmanifest) h
  | renew running hmanifest h => exact .renew running (hle _ hmanifest) h
  | forget => exact .forget view
  | stop => exact .stop view
  | close settings saved => exact .close settings saved

namespace ExtensionHost

variable {G : Type}

def settingsView (host : ExtensionHost G) (extension : ExtensionId) : SettingsView where
  running := host.runtimes[extension]?.map fun runtime => Assoc.get "settings" runtime.state
  saved := host.persistedSettings.lookup extension

variable {extension : ExtensionId} {host : ExtensionHost G}

theorem settingsView_of_runtime {runtime : ActiveRuntime G}
    (h : host.runtimes[extension]? = some runtime) :
    host.settingsView extension = ⟨some (Assoc.get "settings" runtime.state),
      host.persistedSettings.lookup extension⟩ := by
  unfold settingsView
  rw [h]
  rfl

theorem settingsView_setRuntime (host : ExtensionHost G) (extension other : ExtensionId)
    (runtime : ActiveRuntime G) : (host.setRuntime extension runtime).settingsView other =
      if extension = other then ⟨some (Assoc.get "settings" runtime.state),
        host.persistedSettings.lookup extension⟩ else host.settingsView other := by
  unfold settingsView
  rw [runtimes_setRuntime]
  split
  · rename_i heq
    rw [heq]
    rfl
  · rfl

/-- A step that starts no extension, installs no package and treats the settings as it has to. -/
structure Settles (host next : ExtensionHost G) : Prop where
  package : ∀ extension package, next.package extension = some package →
    host.package extension = some package
  settings : ∀ extension, Relation.ReflTransGen (SettingsView.Step (host.Describes extension))
    (host.settingsView extension) (next.settingsView extension)

namespace Settles

variable {host middle next : ExtensionHost G} {extension : ExtensionId}

theorem of_step (extension : ExtensionId) (running : Option (ActiveRuntime G))
    {saved : Option DataValue} (hpackage : ∀ other, next.package other = host.package other)
    (hruntimes : ∀ other, next.runtimes[other]? =
      if extension = other then running else host.runtimes[other]?)
    (hsaved : ∀ other, next.persistedSettings.lookup other =
      if other = extension then saved else host.persistedSettings.lookup other)
    (hstep : SettingsView.Step (host.Describes extension) (host.settingsView extension)
      ⟨running.map fun runtime => Assoc.get "settings" runtime.state, saved⟩) :
    Settles host next := by
  refine ⟨fun other package h => hpackage other ▸ h, fun other => ?_⟩
  have hview : next.settingsView other = ⟨(if extension = other then running
      else host.runtimes[other]?).map fun runtime => Assoc.get "settings" runtime.state,
      if other = extension then saved else host.persistedSettings.lookup other⟩ := by
    unfold settingsView
    rw [hruntimes, hsaved]
  rw [hview]
  by_cases hne : other = extension
  · subst hne
    rw [if_pos rfl, if_pos rfl]
    exact .single hstep
  · rw [if_neg (Ne.symm hne), if_neg hne]
    exact .refl

theorem of_same (hpackage : ∀ extension, next.package extension = host.package extension)
    (hview : ∀ extension, next.settingsView extension = host.settingsView extension) :
    Settles host next :=
  ⟨fun extension _ h => hpackage extension ▸ h, fun extension => by rw [hview extension]⟩

theorem of_eq (hregistry : next.registry = host.registry)
    (hruntimes : next.runtimes = host.runtimes)
    (hsaved : next.persistedSettings = host.persistedSettings) : Settles host next := by
  refine of_same (fun extension => ?_) fun extension => ?_
  · unfold ExtensionHost.package
    rw [hregistry]
  · unfold settingsView
    rw [hruntimes, hsaved]

theorem refl (host : ExtensionHost G) : Settles host host := of_eq rfl rfl rfl

theorem trans (first : Settles host middle) (second : Settles middle next) : Settles host next where
  package extension package h := first.package extension package
    (second.package extension package h)
  settings extension := (first.settings extension).trans (Relation.ReflTransGen.mono
    (fun _ _ h => h.mono fun _ ⟨metadata, hpackage⟩ => ⟨metadata, first.package _ _ hpackage⟩)
    _ _ (second.settings extension))

theorem of_quiet (h : Quiet host next) : Settles host next := by
  have hview : ∀ (host : ExtensionHost G) extension, host.settingsView extension =
      ⟨(host.core extension).map fun core => Assoc.get "settings" core.2.2,
        host.persistedSettings.lookup extension⟩ := by
    intro host extension
    unfold settingsView ExtensionHost.core
    rw [map_map]
    rfl
  refine of_same h.package fun extension => ?_
  rw [hview, hview, h.core, h.persistedSettings]

theorem of_settings {before after : ActiveRuntime G}
    (hbefore : host.runtimes[extension]? = some before)
    (hsettings : Assoc.get "settings" after.state = Assoc.get "settings" before.state) :
    Settles host (host.setRuntime extension after) := by
  refine of_same (fun _ => rfl) fun other => ?_
  rw [settingsView_setRuntime]
  split
  · rename_i heq
    rw [← heq, settingsView_of_runtime hbefore, hsettings]
  · rfl

theorem of_state {before after : ActiveRuntime G}
    (hbefore : host.runtimes[extension]? = some before) (hstate : after.state = before.state) :
    Settles host (host.setRuntime extension after) :=
  of_settings hbefore (by rw [hstate])

theorem package_transition {target : LifecycleState}
    (h : host.transition extension target = .ok next)
    (other : ExtensionId) : next.package other = host.package other := by
  obtain ⟨record, hrecord, -, rfl⟩ := transition_eq_ok.mp h
  unfold ExtensionHost.package
  rw [getElem?_insert]
  split
  · rename_i heq
    rw [← heq, hrecord]
    rfl
  · rfl

theorem transition {target : LifecycleState} (h : host.transition extension target = .ok next) :
    Settles host next := by
  refine of_same (package_transition h) fun other => ?_
  obtain ⟨record, -, -, rfl⟩ := transition_eq_ok.mp h
  rfl

section

variable (host : ExtensionHost G) (extension : ExtensionId)

theorem transitionOrIgnore
    (target : LifecycleState) : Settles host (host.transitionOrIgnore extension target) := by
  unfold ExtensionHost.transitionOrIgnore
  split
  · exact transition ‹_›
  · exact refl host

theorem removeRuntime : Settles host (host.removeRuntime extension) :=
  of_step extension _ (fun _ => rfl) (getElem?_erase _ _ ·)
    (fun _ => (ite_eq_right_iff.mpr fun heq =>
      congrArg (host.persistedSettings.lookup ·) heq.symm).symm) (.stop _)

theorem closeRuntime : Settles host (host.closeRuntime extension) := by
  unfold ExtensionHost.closeRuntime
  split
  · rename_i settings hsettings
    obtain ⟨runtime, hruntime, hsettings⟩ := bind_eq_some_iff.mp hsettings
    refine of_step extension _ (fun _ => rfl) (getElem?_erase _ _ ·) (fun _ => lookup_insert ..) ?_
    rw [settingsView_of_runtime hruntime, hsettings]
    exact .close settings _
  · exact removeRuntime ..

end

section tick

variable [Platform] [NativeExtension G]

theorem failDeferredRuntime (host : ExtensionHost G) (extension : ExtensionId) :
    Settles host (host.failDeferredRuntime extension) := by
  have hdropped : Settles host (host.dropWork extension) := of_eq rfl rfl rfl
  have hremoved := hdropped.trans (removeRuntime (host.dropWork extension) extension)
  exact hremoved.trans ((transitionOrIgnore ..).trans
    (of_quiet ((Quiet.reconcileActiveCapabilities _).trans (.broadcastCapabilityChanges _))))

theorem of_change {checked : Prop} {next : ExtensionHost G} (h : Change checked host next) :
    Settles host next := by
  cases h with
  | cause hcause => exact of_quiet (.childCause hcause)
  | violation extension message => exact of_quiet (.recordViolation ..)
  | enqueue => exact of_quiet (.enqueueEventInternal ..)
  | guest guest hruntime => exact of_state hruntime rfl
  | @patch extension runtime state persistedSettings hruntime hkept hsaved =>
    refine of_step extension _ (fun _ => rfl) (runtimes_setRuntime host extension · _) hsaved ?_
    rw [settingsView_of_runtime hruntime]
    exact .patch _ hkept.written
  | accept leader hvalid => exact of_eq rfl rfl rfl
  | @snapshot extension runtime kind value hruntime =>
    refine of_settings hruntime ?_
    rw [Assoc.get_insert, if_neg (snapshotNamespace_ne_settings kind)]
  | restore hruntime hsame => exact of_settings hruntime (hsame "settings")
  | fail => exact failDeferredRuntime ..

theorem of_changes {next : ExtensionHost G} (h : Changes False host next) : Settles host next := by
  induction h with
  | refl => exact refl host
  | tail _ hlast ih => exact ih.trans (of_change hlast)

theorem arbitrateUpdate (host : ExtensionHost G) (extension : ExtensionId)
    (generation : GenerationId) (cause : CauseContext) (update : ExtensionUpdate)
    (accepted : List AcceptedEffect) :
    Settles host (host.arbitrateUpdate extension generation cause update accepted).1 :=
  of_changes (Handles.arbitrateUpdate ..).changes

theorem processTick (host : ExtensionHost G) : Settles host host.processTick.1 := by
  have hadvanced : Settles host host.advance := of_eq rfl rfl rfl
  have hbefore : Settles host.advance host.beforeSelection :=
    of_changes (Changes.beforeSelection host False.elim)
  have hdequeued : Settles host.beforeSelection
      (host.beforeSelection.dequeue host.selectionBudget) := of_eq rfl rfl rfl
  obtain ⟨report, heq⟩ := host.processTick_eq
  rw [heq]
  exact hadvanced.trans (hbefore.trans (hdequeued.trans
    (of_changes (.dispatch host.selection (_, report, [])))))

end tick

theorem restoreExtensionSettings {settings : DataValue}
    (h : host.restoreExtensionSettings extension settings = .ok next) : Settles host next := by
  unfold ExtensionHost.restoreExtensionSettings at h
  obtain ⟨record, hrecord, h⟩ := bind_eq_ok.mp h
  obtain ⟨normalized, hnormalized, h⟩ := bind_eq_ok.mp h
  have hdescribes : host.Describes extension record.manifest := by
    refine ⟨record.metadata, ?_⟩
    unfold ExtensionHost.package
    rw [okOr_eq_ok.mp hrecord]
    rfl
  have hstep := fun running saved => SettingsView.Step.restore running saved hdescribes
    (mapError_eq_ok.mp hnormalized)
  dsimp only at h
  split at h
  · rename_i hruntime
    cases h
    have hview : host.settingsView extension = ⟨none, host.persistedSettings.lookup extension⟩ := by
      unfold settingsView
      rw [show host.runtimes[extension]? = none from hruntime]
      rfl
    refine of_step extension none (fun _ => rfl)
      (fun _ => (ite_eq_right_iff.mpr fun heq => heq ▸ hruntime.symm).symm)
      (fun _ => lookup_insert ..) ?_
    rw [hview]
    exact hstep none _
  · rename_i runtime hruntime
    cases h
    refine of_step extension _ (fun _ => rfl) (runtimes_setRuntime _ extension · _)
      (fun _ => lookup_insert ..) ?_
    rw [settingsView_of_runtime hruntime, map_some, Assoc.get_insert, if_pos rfl]
    exact hstep _ _

theorem invalidateDocumentScope [NativeExtension G] (host : ExtensionHost G)
    (snapshots : List SnapshotKind) : Settles host (host.invalidateDocumentScope snapshots) := by
  refine of_same (fun _ => rfl) fun extension => ?_
  unfold settingsView ExtensionHost.invalidateDocumentScope
  rw [ExtTreeMap.getElem?_map, map_map]
  congr 2
  funext runtime
  refine List.foldlRecOn snapshots _ (motive := fun state : Fields =>
    Assoc.get "settings" state = Assoc.get "settings" runtime.state) rfl fun state h kind _ => ?_
  rw [Assoc.get_remove, if_neg (snapshotNamespace_ne_settings kind), h]

theorem forget (host : ExtensionHost G) (extension : ExtensionId) : Settles host { host with
      persistedSettings := host.persistedSettings.erase extension
      registry := host.registry.erase extension } := by
  refine ⟨fun other package hpackage => ?_, ?_⟩
  · unfold ExtensionHost.package at hpackage ⊢
    rw [getElem?_erase] at hpackage
    split at hpackage
    · cases hpackage
    · exact hpackage
  · have hforgotten : Settles host { host with
        persistedSettings := host.persistedSettings.erase extension } := by
      refine of_step extension host.runtimes[extension]? (fun _ => rfl)
        (fun _ => (ite_eq_right_iff.mpr fun heq => heq ▸ rfl).symm)
        (fun _ => lookup_erase ..) (.forget _)
    exact hforgotten.settings

theorem of_edit [Platform] [NativeExtension G] {own : ExtensionId → Prop} (h : Edit own host next) :
    Settles host next := by
  cases h with
  | ripples h => exact of_quiet (.of_ripples h)
  | changes h => exact of_changes h
  | plain h => exact of_eq h.registry h.runtimes h.persistedSettings
  | runtime hruntime _ hsettings => exact of_settings hruntime hsettings
  | settings h => exact restoreExtensionSettings h
  | decisions => exact of_eq rfl rfl rfl
  | transition _ _ h => exact transition h
  | @stop unloading stopped extension _ hunloading h =>
    have hdropped : Settles stopped (stopped.dropWork extension) := of_eq rfl rfl rfl
    exact (transition hunloading).trans ((closeRuntime ..).trans ((transition h).trans hdropped))
  | forget => exact forget ..
  | invalidate => exact invalidateDocumentScope ..

theorem of_edits [Platform] [NativeExtension G] {own : ExtensionId → Prop}
    (h : Edits own host next) : Settles host next := by
  induction h with
  | refl => exact refl host
  | tail _ hlast ih => exact ih.trans (of_edit hlast)

end Settles

structure Guard (fit : ExtensionId → ExtensionManifest → Prop)
    (keeps : ExtensionId → (ExtensionManifest → Prop) → SettingsView → Prop) : Prop where
  named : ∀ {extension manifest}, fit extension manifest →
    ∀ setting ∈ manifest.settings, setting.key ≠ ""
  step : ∀ {extension manifests view next}, SettingsView.Step manifests view next →
    (∀ manifest, manifests manifest → fit extension manifest ∧ manifest.Aimed) →
    (∀ manifest other, manifests manifest → manifests other → manifest = other) →
      keeps extension manifests view → keeps extension manifests next
  /-- The packages of an extension without a runtime do not matter. -/
  place : ∀ {extension manifests others view}, keeps extension manifests view →
    (view.running = none ∨ ∀ manifest, others manifest → manifests manifest) →
      keeps extension others view
  start : ∀ {extension manifests manifest view settings}, manifests manifest →
    fit extension manifest → (∀ other, manifests other → other = manifest) →
      SettingsView.Starts manifest view settings → keeps extension manifests view →
        keeps extension manifests { view with running := some settings }

/-- What the packages and the settings have to be. -/
structure Guarded (fit : ExtensionId → ExtensionManifest → Prop)
    (keeps : ExtensionId → (ExtensionManifest → Prop) → SettingsView → Prop)
    (host : ExtensionHost G) : Prop where
  vetted : host.Vetted
  fit : ∀ extension manifest, host.Describes extension manifest →
    fit extension manifest ∧ manifest.Aimed
  keeps : ∀ extension, keeps extension (host.Describes extension) (host.settingsView extension)

variable {record : PackageRecord}

theorem describes_of_record (h : host.registry[extension]? = some record) :
    host.package extension = some (record.manifest, record.metadata) := by
  unfold package
  rw [h]
  rfl

theorem settles_restoreSettings {manifest : ExtensionManifest}
    (hdescribes : host.Describes extension manifest) :
    Settles host (host.restoreSettings extension manifest).2 := by
  have hruntimes : ∀ other, host.runtimes[other]? =
      if extension = other then host.runtimes[extension]? else host.runtimes[other]? :=
    fun _ => (ite_eq_right_iff.mpr fun heq => heq ▸ rfl).symm
  unfold restoreSettings
  split
  · exact .refl host
  · rename_i settings hsettings
    split
    · rename_i normalized hnormalized
      refine .of_step extension _ (fun _ => rfl) hruntimes (fun _ => lookup_insert ..) ?_
      rw [show host.settingsView extension = ⟨_, some settings⟩ from congrArg _ hsettings]
      exact .renew _ hdescribes hnormalized
    · exact .of_step extension _ (fun _ => rfl) hruntimes (fun _ => lookup_erase ..) (.forget _)

theorem starts_restoreSettings (host : ExtensionHost G) (extension : ExtensionId)
    (manifest : ExtensionManifest) : SettingsView.Starts manifest
      ((host.restoreSettings extension manifest).2.settingsView extension)
      (Assoc.get "settings" (host.restoreSettings extension manifest).1) := by
  unfold restoreSettings settingsView
  split
  · rename_i hnone
    rw [hnone]
    exact .defaults _
  split
  · rename_i hnormalized
    rw [AList.lookup_insert, Assoc.get_insert, if_pos rfl]
    exact .saved _ hnormalized
  · dsimp only
    rw [AList.lookup_erase]
    exact .defaults _

theorem Describes.unique (manifest other : ExtensionManifest) : host.Describes extension manifest →
      host.Describes extension other → manifest = other :=
  fun ⟨_, h⟩ ⟨_, hother⟩ => congrArg Prod.fst (some.inj (h.symm.trans hother))

namespace Guarded

variable {fit : ExtensionId → ExtensionManifest → Prop}
  {keeps : ExtensionId → (ExtensionManifest → Prop) → SettingsView → Prop}
  {host next : ExtensionHost G} {extension : ExtensionId} {manifest : ExtensionManifest}
  {metadata : PackageMetadata} (guard : Guard fit keeps)

include guard

section

variable (h : host.Guarded fit keeps)

include h

theorem settles (hstep : Settles host next) : next.Guarded fit keeps where
  vetted extension manifest metadata hpackage :=
    h.vetted extension manifest metadata (hstep.package extension _ hpackage)
  fit extension manifest := fun ⟨metadata, hpackage⟩ =>
    h.fit extension manifest ⟨metadata, hstep.package extension _ hpackage⟩
  keeps extension := by
    have hrun : ∀ view, Relation.ReflTransGen (SettingsView.Step (host.Describes extension))
        (host.settingsView extension) view → keeps extension (host.Describes extension) view := by
      intro view hsteps
      induction hsteps with
      | refl => exact h.keeps extension
      | tail _ hlast ih => exact guard.step hlast (h.fit extension) Describes.unique ih
    exact guard.place (hrun _ (hstep.settings extension)) (.inr fun manifest ⟨metadata, hpackage⟩ =>
      ⟨metadata, hstep.package extension _ hpackage⟩)

/-- A package is put under an id that is not started. -/
theorem of_record (hlifecycle : host.Lifecycle) (hidle : ¬Started (host.state extension))
    (hvetted : record.manifest.Vetted) (hfit : fit extension record.manifest)
    (haimed : record.manifest.Aimed) :
    { host with registry := host.registry.insert extension record }.Guarded fit keeps := by
  have hpackage : ∀ other package,
      { host with registry := host.registry.insert extension record }.package other =
        some package → (extension = other ∧ package = (record.manifest, record.metadata)) ∨
          (extension ≠ other ∧ host.package other = some package) := by
    intro other package h
    unfold ExtensionHost.package at h ⊢
    rw [getElem?_insert] at h
    split at h
    · exact .inl ⟨‹_›, (Option.some.inj h).symm⟩
    · exact .inr ⟨‹_›, h⟩
  refine ⟨fun other manifest metadata h' => ?_, fun other manifest h' => ?_, fun other => ?_⟩
  · rcases hpackage other _ h' with ⟨-, heq⟩ | ⟨-, h'⟩
    · obtain ⟨rfl, -⟩ := Prod.mk.inj heq
      exact hvetted
    · exact h.vetted other manifest metadata h'
  · obtain ⟨metadata, h'⟩ := h'
    rcases hpackage other _ h' with ⟨rfl, heq⟩ | ⟨-, h'⟩
    · obtain ⟨rfl, -⟩ := Prod.mk.inj heq
      exact ⟨hfit, haimed⟩
    · exact h.fit other manifest ⟨metadata, h'⟩
  · refine guard.place (h.keeps other) ?_
    by_cases heq : extension = other
    · -- an id that is not started has no runtime
      subst heq
      refine .inl ?_
      cases hruntime : host.runtimes[extension]? with
      | none =>
        show Option.map _ host.runtimes[extension]? = none
        rw [hruntime]
        rfl
      | some runtime =>
        refine absurd ((hlifecycle.runtime extension).mp ?_) hidle
        rw [generationOf, hruntime]
        rfl
    · refine .inr ?_
      rintro manifest ⟨metadata, h'⟩
      refine ⟨metadata, ?_⟩
      rcases hpackage other _ h' with ⟨hsame, -⟩ | ⟨-, h'⟩
      · exact absurd hsame heq
      · exact h'

theorem of_start (hdescribes : host.Describes extension manifest) {runtime : ActiveRuntime G}
    (hstarts : SettingsView.Starts manifest
      (host.settingsView extension) (Assoc.get "settings" runtime.state)) :
    (host.setRuntime extension runtime).Guarded fit keeps := by
  refine ⟨h.vetted, h.fit, fun other => ?_⟩
  rw [settingsView_setRuntime]
  split
  · rename_i heq
    subst heq
    exact guard.start hdescribes (h.fit _ _ hdescribes).1
      (fun other hother => Describes.unique _ _ hother hdescribes) hstarts (h.keeps extension)
  · exact h.keeps other

end

variable [Platform]

theorem install (h : host.Guarded fit keeps) (hlifecycle : host.Lifecycle)
    (hfit : fit manifest.id manifest) (hnext : host.install manifest metadata = .ok next) :
    next.Guarded fit keeps := by
  unfold ExtensionHost.install at hnext
  obtain ⟨-, hnext⟩ := ensure_bind_eq_ok.mp hnext
  obtain ⟨hnew, hnext⟩ := ensure_bind_eq_ok.mp hnext
  obtain ⟨hvalid, hnext⟩ := ensure_bind_eq_ok.mp hnext
  refine Except.ok.inj hnext ▸ h.of_record guard hlifecycle
    (not_started_of_registry fun record hrecord => ?_)
    (ExtensionManifest.vetted_of_validate hvalid) hfit
    (ExtensionManifest.aimed_of_validate hvalid (guard.named hfit))
  rw [contains_eq_isSome, hrecord] at hnew
  exact absurd rfl hnew

theorem replace (h : host.Guarded fit keeps) (hlifecycle : host.Lifecycle)
    (hfit : fit manifest.id manifest) (hnext : host.replace manifest metadata = .ok next) :
    next.Guarded fit keeps := by
  unfold ExtensionHost.replace at hnext
  obtain ⟨hidle, hnext⟩ := ensure_bind_eq_ok.mp hnext
  obtain ⟨hvalid, hnext⟩ := ensure_bind_eq_ok.mp hnext
  refine Except.ok.inj hnext ▸ h.of_record guard hlifecycle
    (not_started_of_registry fun record hrecord => ?_)
    (ExtensionManifest.vetted_of_validate hvalid) hfit
    (ExtensionManifest.aimed_of_validate hvalid (guard.named hfit))
  rw [hrecord, any_some, decide_eq_true_eq] at hidle
  constructor <;> intro hstate <;> exact hidle (by rw [hstate]; simp)

variable [NativeExtension G]

section

variable (h : host.Guarded fit keeps)

include h

theorem startRuntime {context : ActivationContext}
    (hpackage : host.package context.extension = some (record.manifest, record.metadata))
    (guest : Option G) (subscriptions : List EventSubscription) (update : ExtensionUpdate) :
    (host.startRuntime record context guest subscriptions update).2.Guarded fit keeps := by
  unfold ExtensionHost.startRuntime
  dsimp only
  split
  · exact h
  rename_i active hactive
  have hdescribes : active.Describes context.extension record.manifest :=
    ⟨record.metadata, (Settles.package_transition hactive _).trans hpackage⟩
  have hrestored := (h.settles guard (.transition hactive)).settles guard
    (settles_restoreSettings hdescribes)
  have hdescribes' : (active.restoreSettings context.extension record.manifest).2.Describes
      context.extension record.manifest := by
    unfold restoreSettings
    split
    · exact hdescribes
    · split <;> exact hdescribes
  exact (hrestored.of_start guard hdescribes' (active.starts_restoreSettings ..)).settles guard
    (.trans (.arbitrateUpdate ..) (.of_quiet (.broadcastCapabilityChanges _)))

theorem activateValidated
    (hpackage : host.package extension = some (record.manifest, record.metadata)) :
    (host.activateValidated extension record).2.Guarded fit keeps := by
  have hcause : Settles host host.freshGeneration.2.rootCause.2 := .of_eq rfl rfl rfl
  unfold ExtensionHost.activateValidated
  split
  · exact h
  · dsimp only
    split
    · exact h.settles guard (hcause.trans (.transitionOrIgnore ..))
    · refine startRuntime guard (h.settles guard hcause) ?_ _ _ _
      exact hpackage

theorem activate (extension : ExtensionId) : (host.activate extension).2.Guarded fit keeps := by
  unfold ExtensionHost.activate
  split
  · exact h
  · rename_i record hrecord
    have hpackage := describes_of_record hrecord
    split
    · split
      · exact h
      · rename_i next hnext
        exact activateValidated guard (h.settles guard (.transition hnext))
          ((Settles.package_transition hnext extension).trans hpackage)
    split
    · exact h
    · exact activateValidated guard h hpackage

end

end Guarded

end ExtensionHost

def Operation.installed {G : Type} : Operation G → Option ExtensionManifest
  | .install manifest _ => some manifest
  | .replace manifest _ => some manifest
  | _ => none

namespace Session

open ExtensionHost

variable {G : Type} [Platform] [NativeExtension G] {next session : Session G}

theorem settles_step {operation : Operation G} (hinstalled : operation.installed = none)
    (hactivate : ∀ extension, operation ≠ .activate extension)
    (hstep : session.step operation = some next) : Settles session.host next.host := by
  cases operation
  case activate extension => exact absurd rfl (hactivate extension)
  case install => cases hinstalled
  case replace => cases hinstalled
  case processTick => exact some.inj hstep ▸ .processTick session.host
  all_goals exact .of_edits (edits_step rfl hstep)

section guarded

variable {fit : ExtensionId → ExtensionManifest → Prop}
  {keeps : ExtensionId → (ExtensionManifest → Prop) → SettingsView → Prop}
  (guard : Guard fit keeps)

omit [Platform] [NativeExtension G] in
theorem guarded_new (config : HostConfig)
    (hblank : ∀ extension manifests, keeps extension manifests ⟨none, none⟩) :
    (Session.new config : Session G).host.Guarded fit keeps := by
  have hpackage : ∀ extension, (Session.new config : Session G).host.package extension = none :=
    fun extension => by simp [ExtensionHost.package, Session.new, ExtensionHost.new]
  refine ⟨fun extension _ _ h => ?_, fun extension _ h => ?_, fun extension => ?_⟩
  · cases (hpackage extension).symm.trans h
  · obtain ⟨_, h⟩ := h
    cases (hpackage extension).symm.trans h
  · have hview : (Session.new config : Session G).host.settingsView extension = ⟨none, none⟩ := by
      simp [settingsView, Session.new, ExtensionHost.new]
    rw [hview]
    exact hblank ..

include guard

theorem guarded_step {operation : Operation G} (h : session.host.Guarded fit keeps)
    (hlifecycle : session.host.Lifecycle)
    (hfit : ∀ manifest ∈ operation.installed, fit manifest.id manifest)
    (hstep : session.step operation = some next) : next.host.Guarded fit keeps := by
  have hafter : ∀ {result : Except HostError (ExtensionHost G)},
      (∀ next, result = .ok next → next.Guarded fit keeps) →
        (session.after result).host.Guarded fit keeps := by
    intro result hnext
    cases result with
    | ok next => exact hnext next rfl
    | error error => exact h
  cases operation
  case install manifest metadata =>
    exact some.inj hstep ▸ hafter fun _ => h.install guard hlifecycle (hfit manifest rfl)
  case replace manifest metadata =>
    exact some.inj hstep ▸ hafter fun _ => h.replace guard hlifecycle (hfit manifest rfl)
  case activate extension =>
    have hactivated := h.activate guard extension
    simp only [step] at hstep
    split at hstep <;> rename_i heq <;> rw [heq] at hactivated <;>
      exact some.inj hstep ▸ hactivated
  all_goals exact h.settles guard (settles_step rfl (fun _ h => by cases h) hstep)

theorem guarded_run {operations : List (Operation G)} (h : session.host.Guarded fit keeps)
    (hlifecycle : session.host.Lifecycle)
    (hfit : ∀ operation ∈ operations, ∀ manifest ∈ operation.installed, fit manifest.id manifest)
    (hrun : Transition.run step session operations = some next) : next.host.Guarded fit keeps := by
  induction operations generalizing session with
  | nil =>
    obtain rfl : session = next := by simpa [Transition.run] using hrun
    exact h
  | cons operation operations ih =>
    obtain ⟨middle, hstep, hrest⟩ := Transition.run_cons.mp hrun
    exact ih (guarded_step guard h hlifecycle (hfit operation List.mem_cons_self) hstep)
      ((starts_step hstep).lifecycle hlifecycle)
      (List.forall_mem_cons.mp hfit).2 hrest

end guarded

end Session

end KeyReader.Extension
