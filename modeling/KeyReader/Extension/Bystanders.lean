import KeyReader.Extension.Lifecycle

/-! What an operation on one extension does to it, and what it leaves of the others: their packages
and permission decisions, and their states but for a suspension or a failure. -/

namespace KeyReader.Extension

open Checked OrderedMap Option Table

variable {own : ExtensionId → Prop}

namespace ExtensionHost

variable {G : Type}

def Fades (state next : Option LifecycleState) : Prop :=
  next = state ∨ (Started state ∧ (next = some .suspended ∨ next = some .failed))

namespace Fades

theorem refl (state : Option LifecycleState) : Fades state state := .inl rfl

theorem trans {first middle last : Option LifecycleState} (h : Fades first middle)
    (h' : Fades middle last) : Fades first last := by
  rcases h with rfl | ⟨hstarted, hmiddle⟩
  · exact h'
  · rcases h' with rfl | ⟨-, hlast⟩
    · exact .inr ⟨hstarted, hmiddle⟩
    · exact .inr ⟨hstarted, hlast⟩

theorem active {state next : Option LifecycleState} (h : Fades state next)
    (hactive : next = some .active) : state = some .active := by
  rcases h with rfl | ⟨-, h | h⟩
  · exact hactive
  all_goals rw [hactive] at h; cases h

end Fades

/-- The operation handles the packages of some extensions only: it starts no other, and leaves the
packages and the permission decisions of the others. -/
structure Spares (own : ExtensionId → Prop) (host next : ExtensionHost G) : Prop where
  limits : next.config.validationLimits = host.config.validationLimits
  licenses : next.config.allowedLicenseExpressions = host.config.allowedLicenseExpressions
  package : ∀ extension, ¬own extension → next.package extension = host.package extension
  decisions : ∀ extension, ¬own extension →
    next.permissionDecision extension = host.permissionDecision extension
  state : ∀ extension, ¬own extension → Fades (host.state extension) (next.state extension)

variable {extension : ExtensionId}

namespace Spares

variable {own : ExtensionId → Prop} {host middle next : ExtensionHost G}

theorem refl (host : ExtensionHost G) : Spares own host host :=
  ⟨rfl, rfl, fun _ _ => rfl, fun _ _ => rfl, fun _ _ => .refl _⟩

theorem trans (first : Spares own host middle) (second : Spares own middle next) :
    Spares own host next where
  limits := second.limits.trans first.limits
  licenses := second.licenses.trans first.licenses
  package extension h := (second.package extension h).trans (first.package extension h)
  decisions extension h := (second.decisions extension h).trans (first.decisions extension h)
  state extension h := (first.state extension h).trans (second.state extension h)

theorem mono {wider : ExtensionId → Prop} (h : Spares own host next)
    (hwider : ∀ extension, own extension → wider extension) : Spares wider host next where
  limits := h.limits
  licenses := h.licenses
  package extension hspared := h.package extension fun hown => hspared (hwider extension hown)
  decisions extension hspared := h.decisions extension fun hown => hspared (hwider extension hown)
  state extension hspared := h.state extension fun hown => hspared (hwider extension hown)

theorem permissionDecision_congr
    (h : next.permissionDecisions.lookup extension = host.permissionDecisions.lookup extension) :
    next.permissionDecision extension = host.permissionDecision extension := by
  funext permission
  unfold ExtensionHost.permissionDecision
  rw [h]

theorem of_registry (hlimits : next.config.validationLimits = host.config.validationLimits)
    (hlicenses : next.config.allowedLicenseExpressions = host.config.allowedLicenseExpressions)
    (hregistry : next.registry = host.registry)
    (hdecisions : next.permissionDecisions = host.permissionDecisions) : Spares own host next where
  limits := hlimits
  licenses := hlicenses
  package extension _ := by rw [ExtensionHost.package, hregistry, ExtensionHost.package]
  decisions extension _ := permissionDecision_congr (by rw [hdecisions])
  state extension _ := by
    have hstate : next.state extension = host.state extension := by
      rw [ExtensionHost.state, hregistry, ExtensionHost.state]
    exact .inl hstate

theorem of_eq (hconfig : next.config = host.config) (hregistry : next.registry = host.registry)
    (hdecisions : next.permissionDecisions = host.permissionDecisions) : Spares own host next :=
  of_registry (by rw [hconfig]) (by rw [hconfig]) hregistry hdecisions

theorem of_steady (h : Steady host next) : Spares own host next where
  limits := by rw [h.config]
  licenses := by rw [h.config]
  package extension _ := h.package extension
  decisions extension _ := permissionDecision_congr (by rw [h.permissionDecisions])
  state extension _ := by
    rcases h.lifecycle extension with heq | ⟨hactive, hsuspended⟩
    · exact .inl heq
    · exact .inr ⟨.inl hactive, .inl hsuspended⟩

theorem of_quiet (h : Quiet host next) : Spares own host next := of_steady (.of_quiet h)

theorem insert {record : PackageRecord} (hown : own extension) (hconfig : next.config = host.config)
    (hregistry : next.registry = host.registry.insert extension record)
    (hdecisions : next.permissionDecisions = host.permissionDecisions) : Spares own host next where
  limits := by rw [hconfig]
  licenses := by rw [hconfig]
  package other h := by
    have hne : extension ≠ other := fun heq => h (heq ▸ hown)
    rw [ExtensionHost.package, hregistry, getElem?_insert, if_neg hne, ExtensionHost.package]
  decisions other _ := permissionDecision_congr (by rw [hdecisions])
  state other h := by
    have hne : extension ≠ other := fun heq => h (heq ▸ hown)
    have hstate : next.state other = host.state other := by
      rw [ExtensionHost.state, hregistry, getElem?_insert, if_neg hne, ExtensionHost.state]
    exact .inl hstate

theorem transition {target : LifecycleState} (hown : own extension)
    (h : host.transition extension target = .ok next) : Spares own host next := by
  obtain ⟨record, -, -, rfl⟩ := transition_eq_ok.mp h
  exact insert hown rfl rfl rfl

end Spares

/-- What of an extension is decided by operations on it. -/
structure View where
  package : Option (ExtensionManifest × PackageMetadata)
  decisions : Permission → PermissionDecision
  state : Option LifecycleState

section

variable (host : ExtensionHost G) (extension : ExtensionId)

def view : View :=
  ⟨host.package extension, host.permissionDecision extension, host.state extension⟩

@[simp] theorem view_package : (host.view extension).package = host.package extension := rfl

@[simp] theorem view_state : (host.view extension).state = host.state extension := rfl

end

variable {host next : ExtensionHost G}

theorem Spares.view (h : Spares own host next) (hspared : ¬own extension) :
    ∃ state, Fades (host.state extension) state ∧
      next.view extension = { host.view extension with state } := by
  refine ⟨next.state extension, h.state extension hspared, ?_⟩
  unfold ExtensionHost.view
  rw [h.package extension hspared, h.decisions extension hspared]

/-- The operation handles one extension only, whose view it changes to the given one. -/
structure Leads (extension : ExtensionId) (host next : ExtensionHost G) (view : View) : Prop where
  spares : Spares (· = extension) host next
  view : next.view extension = view

namespace Leads

variable {extension : ExtensionId} {host middle next : ExtensionHost G}

theorem refl (host : ExtensionHost G) : Leads extension host host (host.view extension) :=
  ⟨.refl host, rfl⟩

theorem trans {first last : View} (h : Leads extension host middle first)
    (h' : Leads extension middle next last) : Leads extension host next last :=
  ⟨h.spares.trans h'.spares, h'.view⟩

variable {view : View}

section

variable (h : Leads extension host middle view)

include h

theorem kept
    (h' : Leads extension middle next (middle.view extension)) : Leads extension host next view :=
  h.trans (h.view ▸ h')

theorem fades (hspares : Spares (fun _ => False) middle next) :
    ∃ state, Fades view.state state ∧ Leads extension host next { view with state } := by
  have hforeign : ¬(fun _ : ExtensionId => False) extension := not_false
  obtain ⟨state, hstate, hview⟩ := hspares.view hforeign
  refine ⟨state, ?_, h.spares.trans (hspares.mono fun _ => False.elim), ?_⟩
  · rwa [← h.view]
  · rw [hview, h.view]

theorem idle (hspares : Spares (fun _ => False) middle next)
    (hidle : ¬Started view.state) : Leads extension host next view := by
  obtain ⟨state, hstate, hleads⟩ := h.fades hspares
  rcases hstate with rfl | ⟨hstarted, -⟩
  · exact hleads
  · exact absurd hstarted hidle

end

theorem of_eq (hconfig : next.config = host.config) (hregistry : next.registry = host.registry)
    (hdecisions : next.permissionDecisions = host.permissionDecisions) :
    Leads extension host next (host.view extension) := by
  refine ⟨.of_eq hconfig hregistry hdecisions, ?_⟩
  unfold ExtensionHost.view ExtensionHost.package ExtensionHost.state
  have hsame : next.permissionDecision extension = host.permissionDecision extension :=
    Spares.permissionDecision_congr (by rw [hdecisions])
  rw [hregistry, hsame]

theorem transition {target : LifecycleState} (h : host.transition extension target = .ok next) :
    Leads extension host next { host.view extension with state := some target } := by
  obtain ⟨record, hrecord, -, rfl⟩ := transition_eq_ok.mp h
  refine ⟨.transition rfl h, ?_⟩
  unfold ExtensionHost.view ExtensionHost.package ExtensionHost.state
  rw [getElem?_insert, if_pos rfl, hrecord]
  rfl

section packages

theorem register (manifest : ExtensionManifest) (metadata : PackageMetadata) :
    Leads manifest.id host { host with
      registry := host.registry.insert manifest.id { manifest, metadata, state := .validated } }
      { host.view manifest.id with
        package := some (manifest, metadata), state := some .validated } := by
  refine ⟨.insert rfl rfl rfl rfl, ?_⟩
  unfold ExtensionHost.view ExtensionHost.package ExtensionHost.state
  rw [getElem?_insert, if_pos rfl]
  rfl

variable [Platform] {manifest : ExtensionManifest}

theorem install {metadata : PackageMetadata} (h : host.install manifest metadata = .ok next) :
    host.package manifest.id = none ∧ manifest.validate host.config.validationLimits = [] ∧
      Leads manifest.id host next { host.view manifest.id with
        package := some (manifest, metadata), state := some .validated } := by
  unfold ExtensionHost.install at h
  obtain ⟨-, h⟩ := ensure_bind_eq_ok.mp h
  obtain ⟨hnew, h⟩ := ensure_bind_eq_ok.mp h
  obtain ⟨hvalid, h⟩ := ensure_bind_eq_ok.mp h
  cases h
  refine ⟨?_, hvalid, register manifest metadata⟩
  rw [contains_eq_isSome, Bool.not_eq_true, isSome_eq_false_iff, isNone_iff_eq_none]
    at hnew
  unfold ExtensionHost.package
  rw [hnew]
  rfl

theorem replace {metadata : PackageMetadata} (h : host.replace manifest metadata = .ok next) :
    manifest.validate host.config.validationLimits = [] ∧
      Leads manifest.id host next { host.view manifest.id with
        package := some (manifest, metadata), state := some .validated } := by
  unfold ExtensionHost.replace at h
  obtain ⟨-, h⟩ := ensure_bind_eq_ok.mp h
  obtain ⟨hvalid, h⟩ := ensure_bind_eq_ok.mp h
  cases h
  exact ⟨hvalid, register manifest metadata⟩

theorem exists_replace (metadata : PackageMetadata)
    (hvalid : manifest.validate host.config.validationLimits = [])
    (hstate : host.state manifest.id = some .disabled) :
    ∃ next, host.replace manifest metadata = .ok next := by
  obtain ⟨record, hrecord, hdisabled⟩ := state_eq_some.mp hstate
  unfold ExtensionHost.replace
  rw [hrecord, any_some, hdisabled]
  exact ⟨_, ensure_bind_eq_ok.mpr ⟨by decide, ensure_bind_eq_ok.mpr ⟨hvalid, rfl⟩⟩⟩

end packages

section

variable (host : ExtensionHost G)

theorem purge (permission : Permission) :
    Leads extension host (host.purgeSnapshotNamespacesForPermission extension permission)
      (host.view extension) := by
  unfold purgeSnapshotNamespacesForPermission
  split
  · exact refl host
  · exact of_eq rfl rfl rfl

theorem purges (permissions : List Permission) (host : ExtensionHost G) :
    Leads extension host (permissions.foldl (fun host permission =>
      host.purgeSnapshotNamespacesForPermission extension permission) host)
      (host.view extension) := by
  induction permissions generalizing host with
  | nil => exact refl host
  | cons permission permissions ih => exact (purge host permission).kept (ih _)

theorem decided {table : AList fun _ : ExtensionId => List PermissionEntry}
    {decisions : Permission → PermissionDecision}
    (hspared : ∀ other, other ≠ extension →
      table.lookup other = host.permissionDecisions.lookup other)
    (hown : ∀ permission, { host with permissionDecisions := table }.permissionDecision extension
      permission = decisions permission) :
    Leads extension host { host with permissionDecisions := table }
      { host.view extension with decisions } := by
  refine ⟨⟨rfl, rfl, fun _ _ => rfl,
    fun other hne => Spares.permissionDecision_congr (hspared other hne), fun _ _ => .refl _⟩, ?_⟩
  rw [← funext hown]
  rfl

theorem find?_replaceF {entries : List PermissionEntry} {permission other : Permission}
    {decision : PermissionDecision} (h : entries.any (·.permission = permission)) :
    (entries.replaceF fun entry =>
      if entry.permission = permission then some { entry with decision } else none).find?
        (·.permission = other) =
      if permission = other then some ⟨permission, decision⟩
      else entries.find? (·.permission = other) := by
  induction entries with
  | nil => cases h
  | cons entry entries ih =>
    obtain ⟨stored, earlier⟩ := entry
    by_cases hstored : stored = permission
    · subst hstored
      simp only [List.replaceF, if_pos, List.find?_cons]
      split <;> rename_i heq <;> simp_all
    · have hrest : entries.any (·.permission = permission) := by
        simpa [hstored] using h
      simp only [List.replaceF, if_neg hstored, List.find?_cons, ih hrest]
      by_cases hother : permission = other
      · subst hother
        simp [hstored]
      · simp [hother]

theorem setPermissionDecision (permission : Permission) (decision : PermissionDecision) :
    Leads extension host (host.setPermissionDecision extension permission decision)
      { host.view extension with decisions := fun other =>
          if permission = other then decision else host.permissionDecision extension other } := by
  generalize hentries : (host.permissionDecisions.lookup extension).getD [] = entries
  generalize hwritten : (if entries.any (·.permission = permission) then
      entries.replaceF fun entry =>
        if entry.permission = permission then some { entry with decision } else none
    else entries ++ [⟨permission, decision⟩]) = written
  have hfind : ∀ other, written.find? (·.permission = other) =
      if permission = other then some ⟨permission, decision⟩
      else entries.find? (·.permission = other) := by
    intro other
    rw [← hwritten]
    split
    · exact find?_replaceF ‹_›
    · rename_i hnew
      rw [List.find?_append]
      by_cases hother : permission = other
      · subst hother
        have hnone : entries.find? (·.permission = permission) = none := by
          rw [List.find?_eq_none]
          intro entry hmem hentry
          exact hnew (List.any_eq_true.mpr ⟨entry, hmem, hentry⟩)
        simp [hnone]
      · simp [hother]
  have hset : Leads extension host { host with
      permissionDecisions := host.permissionDecisions.insert extension written }
      { host.view extension with decisions := fun other =>
          if permission = other then decision else host.permissionDecision extension other } := by
    refine decided host (fun other hne => ?_) fun other => ?_
    · exact (lookup_insert ..).trans (if_neg hne)
    · unfold ExtensionHost.permissionDecision
      rw [lookup_insert, if_pos rfl, bind_some, hfind]
      by_cases hother : permission = other
      · rw [if_pos hother, if_pos hother]
      · rw [if_neg hother, if_neg hother, ← hentries]
        cases host.permissionDecisions.lookup extension <;> rfl
  unfold ExtensionHost.setPermissionDecision
  dsimp only
  rw [hentries, hwritten]
  split
  · exact hset.kept (purge _ permission)
  · exact hset

theorem clearPermissionDecisions : Leads extension host (host.clearPermissionDecisions extension)
      { host.view extension with decisions := fun _ => .undecided } := by
  have hcleared : Leads extension host { host with
      permissionDecisions := host.permissionDecisions.erase extension }
      { host.view extension with decisions := fun _ => .undecided } := by
    refine decided host (fun other hne => ?_) fun other => ?_
    · exact (lookup_erase ..).trans (if_neg hne)
    · unfold ExtensionHost.permissionDecision
      rw [lookup_erase, if_pos rfl]
      rfl
  exact hcleared.kept (purges _ _)

end

theorem restoreExtensionSettings {settings : DataValue}
    (h : host.restoreExtensionSettings extension settings = .ok next) :
    Leads extension host next (host.view extension) := by
  unfold ExtensionHost.restoreExtensionSettings at h
  obtain ⟨record, -, h⟩ := bind_eq_ok.mp h
  obtain ⟨settings, -, h⟩ := bind_eq_ok.mp h
  dsimp only at h
  split at h <;> exact Except.ok.inj h ▸ of_eq rfl rfl rfl

section lifecycle

variable {state : LifecycleState}

/-- The change to `Disabled`, and the loss of the runtime. -/
theorem disable (hstate : host.state extension = some state)
    (h : host.disable extension state = .ok next) :
    Leads extension host next { host.view extension with state := some .disabled } := by
  have hstop : ((host.transition extension .unloading).bind fun host =>
      (host.closeRuntime extension).transition extension .disabled) = .ok next →
      Leads extension host next { host.view extension with state := some .disabled } := by
    intro h
    obtain ⟨unloading, hunloading, h⟩ := bind_eq_ok.mp h
    have hclosed : Leads extension unloading (unloading.closeRuntime extension)
        (unloading.view extension) := by
      unfold closeRuntime
      split <;> exact of_eq rfl rfl rfl
    have hfirst := (transition hunloading).kept hclosed
    have hlast := transition h
    rw [hfirst.view] at hlast
    exact hfirst.trans hlast
  cases state with
  | active | suspended => exact hstop h
  | installed | validated | failed | unloading => exact transition h
  | removed => cases h
  | disabled =>
    cases h
    refine ⟨.refl host, ?_⟩
    rw [← hstate]
    rfl

theorem exists_disable (hstate : host.state extension = some state) (hremoved : state ≠ .removed) :
    ∃ next, host.disable extension state = .ok next := by
  obtain ⟨record, hrecord, rfl⟩ := state_eq_some.mp hstate
  have htransition : ∀ (host : ExtensionHost G) (record : PackageRecord) target,
      host.registry[extension]? = some record →
      lifecycleTransitionAllowed record.state target →
      ∃ next : ExtensionHost G, host.transition extension target = .ok next ∧
        next.registry[extension]? = some { record with state := target } := by
    intro host record target hrecord hallowed
    refine ⟨_, transition_eq_ok.mpr ⟨record, hrecord, hallowed, rfl⟩, ?_⟩
    rw [getElem?_insert, if_pos rfl]
  have hstop : lifecycleTransitionAllowed record.state .unloading →
      ∃ next, ((host.transition extension .unloading).bind fun host =>
        (host.closeRuntime extension).transition extension .disabled) = .ok next := by
    intro hallowed
    obtain ⟨unloading, hunloading, hnext⟩ := htransition host record _ hrecord hallowed
    have hregistry := (closeRuntime_eq unloading extension).1
    obtain ⟨next, hlast, -⟩ := htransition (unloading.closeRuntime extension) _ .disabled
      (by rw [hregistry]; exact hnext) rfl
    refine ⟨next, ?_⟩
    rw [hunloading]
    exact hlast
  have hidle : lifecycleTransitionAllowed record.state .disabled →
      ∃ next, host.transition extension .disabled = .ok next := by
    intro hallowed
    obtain ⟨next, hnext, -⟩ := htransition host record _ hrecord hallowed
    exact ⟨next, hnext⟩
  unfold ExtensionHost.disable
  cases hkind : record.state <;> rw [hkind] at hstop hidle
  case active => exact hstop rfl
  case suspended => exact hstop rfl
  case removed => exact absurd hkind hremoved
  case disabled => exact ⟨host, rfl⟩
  all_goals exact hidle rfl

variable [Platform] [NativeExtension G]

theorem unload (h : host.unload extension = .ok next) :
    Leads extension host next { host.view extension with state := some .disabled } := by
  unfold ExtensionHost.unload at h
  split at h
  · cases h
  · rename_i hstate
    cases h
    refine ⟨.refl host, ?_⟩
    rw [← hstate]
    rfl
  · rename_i state hstate
    obtain ⟨disabled, hdisabled, h⟩ := bind_eq_ok.mp h
    cases h
    have hdropped : Spares (fun _ => False) disabled (disabled.dropWork extension) :=
      .of_eq rfl rfl rfl
    refine (disable hstate hdisabled).idle ((hdropped.trans
      (.of_quiet (.reconcileActiveCapabilities _))).trans
        (.of_quiet (.broadcastCapabilityChanges _))) ?_
    show ¬Started (some .disabled)
    decide

theorem exists_unload (hstate : host.state extension = some state) (hremoved : state ≠ .removed) :
    ∃ next, host.unload extension = .ok next := by
  obtain ⟨disabled, hdisabled⟩ := exists_disable hstate hremoved
  unfold ExtensionHost.unload
  rw [hstate]
  cases state
  case disabled => exact ⟨host, rfl⟩
  all_goals exact ⟨_, bind_eq_ok.mpr ⟨disabled, hdisabled, rfl⟩⟩

theorem remove (h : host.remove extension = .ok next) :
    Leads extension host next ⟨none, fun _ => .undecided, none⟩ := by
  unfold ExtensionHost.remove at h
  obtain ⟨unloaded, hunloaded, h⟩ := bind_eq_ok.mp h
  obtain ⟨removed, hremoved, h⟩ := bind_eq_ok.mp h
  cases h
  have hbefore := (unload hunloaded).spares.trans (transition hremoved).spares
  refine ⟨hbefore.trans ⟨rfl, rfl, fun other hne => ?_, fun other hne => ?_, fun other hne => ?_⟩,
    ?_⟩
  · unfold ExtensionHost.package
    rw [getElem?_erase, if_neg (Ne.symm hne)]
  · exact Spares.permissionDecision_congr ((lookup_erase ..).trans (if_neg hne))
  · unfold ExtensionHost.state
    rw [getElem?_erase, if_neg (Ne.symm hne)]
    exact .refl _
  · unfold ExtensionHost.view ExtensionHost.package ExtensionHost.state
    rw [getElem?_erase, if_pos rfl]
    congr 1
    funext permission
    unfold ExtensionHost.permissionDecision
    rw [lookup_erase, if_pos rfl]
    rfl

theorem exists_remove (hstate : host.state extension = some state) (hremoved : state ≠ .removed) :
    ∃ next, host.remove extension = .ok next := by
  obtain ⟨unloaded, hunloaded⟩ := exists_unload hstate hremoved
  have hdisabled : unloaded.state extension = some .disabled :=
    congrArg View.state (unload hunloaded).view
  obtain ⟨record, hrecord, hkind⟩ := state_eq_some.mp hdisabled
  have hallowed : lifecycleTransitionAllowed record.state .removed := by
    rw [hkind]
    rfl
  have htransition := transition_eq_ok.mpr ⟨record, hrecord, hallowed, rfl⟩
  unfold ExtensionHost.remove
  exact ⟨_, bind_eq_ok.mpr ⟨unloaded, hunloaded, bind_eq_ok.mpr ⟨_, htransition, rfl⟩⟩⟩

end lifecycle

/-- The states in which an activation can leave an extension. -/
def Activated (state next : Option LifecycleState) : Prop :=
  next = state ∨ next = some .validated ∨ next = some .failed ∨ next = some .active ∨
    next = some .suspended

section activation

variable [Platform] [NativeExtension G]

theorem startRuntime (record : PackageRecord) (context : ActivationContext) (guest : Option G)
    (subscriptions : List EventSubscription) (update : ExtensionUpdate) :
    ∃ state, Activated (host.state context.extension) state ∧ Leads context.extension host
      (host.startRuntime record context guest subscriptions update).2
      { host.view context.extension with state } := by
  unfold ExtensionHost.startRuntime
  dsimp only
  split
  · exact ⟨_, .inl rfl, .refl host⟩
  · rename_i active hactive
    obtain ⟨persistedSettings, hrestored⟩ :=
      restoreSettings_eq active context.extension record.manifest
    have hset : Spares (fun _ => False) active ((active.restoreSettings context.extension
        record.manifest).2.setRuntime context.extension
          { generation := context.generation, capabilities := context.capabilities, subscriptions
            guest, state := (active.restoreSettings context.extension record.manifest).1
            violations := 0 }) := by
      rw [hrestored]
      exact .of_eq rfl rfl rfl
    obtain ⟨state, hfades, hleads⟩ := (transition hactive).fades ((hset.trans
      (.of_steady (show Handles False _ _ from Handles.arbitrateUpdate ..).steady)).trans
        (.of_quiet (.broadcastCapabilityChanges _)))
    refine ⟨state, ?_, hleads⟩
    rcases hfades with rfl | ⟨-, rfl | rfl⟩ <;> simp [Activated]

theorem activateValidated (host : ExtensionHost G) (extension : ExtensionId)
    (record : PackageRecord) : ∃ state, Activated (host.state extension) state ∧
      Leads extension host (host.activateValidated extension record).2
        { host.view extension with state } := by
  unfold ExtensionHost.activateValidated
  split
  · exact ⟨_, .inl rfl, .refl host⟩
  · rename_i capabilities _
    have hcounted : Leads extension host host.freshGeneration.2.rootCause.2
        (host.view extension) := .of_eq rfl rfl rfl
    dsimp only
    split
    · unfold failActivation transitionOrIgnore
      split
      · rename_i failed hfailed
        have hlast := transition hfailed
        rw [hcounted.view] at hlast
        exact ⟨some .failed, .inr (.inr (.inl rfl)), hcounted.trans hlast⟩
      · exact ⟨_, .inl rfl, hcounted⟩
    · rename_i guest subscriptions update _
      obtain ⟨state, hstate, hleads⟩ := @startRuntime G host.freshGeneration.2.rootCause.2 _ _ record
        { extension, generation := host.freshGeneration.1
          cause := host.freshGeneration.2.rootCause.1, capabilities } guest subscriptions update
      exact ⟨state, hstate, hcounted.trans hleads⟩

theorem activate (host : ExtensionHost G) (extension : ExtensionId) :
    ∃ state, Activated (host.state extension) state ∧
      Leads extension host (host.activate extension).2 { host.view extension with state } := by
  unfold ExtensionHost.activate
  split
  · exact ⟨_, .inl rfl, .refl host⟩
  · rename_i record hrecord
    split
    · split
      · exact ⟨_, .inl rfl, .refl host⟩
      · rename_i validated hvalidated
        obtain ⟨state, hstate, hleads⟩ := activateValidated validated extension record
        rw [(transition hvalidated).view] at hleads
        refine ⟨state, ?_, (transition hvalidated).trans hleads⟩
        rw [state_of_transition hvalidated] at hstate
        rcases hstate with rfl | hstate
        · exact .inr (.inl rfl)
        · exact .inr hstate
    · split
      · exact ⟨_, .inl rfl, .refl host⟩
      · exact activateValidated host extension record

end activation

end Leads

theorem Spares.of_leads {state : Option LifecycleState}
    (h : Leads extension host next { host.view extension with state })
    (hfades : Fades (host.state extension) state) : Spares (fun _ => False) host next where
  limits := h.spares.limits
  licenses := h.spares.licenses
  package other _ := by
    by_cases heq : other = extension
    · subst heq
      exact congrArg View.package h.view
    · exact h.spares.package other heq
  decisions other _ := by
    by_cases heq : other = extension
    · subst heq
      exact congrArg View.decisions h.view
    · exact h.spares.decisions other heq
  state other _ := by
    by_cases heq : other = extension
    · subst heq
      have hstate : next.state other = state := congrArg View.state h.view
      rwa [hstate]
    · exact h.spares.state other heq

variable [Platform] [NativeExtension G]

theorem Spares.fail (hstarted : Started (host.state extension)) :
    Spares (fun _ => False) host (host.failDeferredRuntime extension) := by
  have hdropped : Leads extension host ((host.dropWork extension).removeRuntime extension)
      (host.view extension) := .of_eq rfl rfl rfl
  have hfailed : Spares (fun _ => False) host
      (((host.dropWork extension).removeRuntime extension).transitionOrIgnore extension .failed) := by
    unfold ExtensionHost.transitionOrIgnore
    split
    · rename_i next hnext
      have hlast := Leads.transition hnext
      rw [hdropped.view] at hlast
      exact of_leads (hdropped.trans hlast) (.inr ⟨hstarted, .inr rfl⟩)
    · exact .of_eq rfl rfl rfl
  exact (hfailed.trans (.of_quiet (.reconcileActiveCapabilities _))).trans
    (.of_quiet (.broadcastCapabilityChanges _))

theorem Spares.of_changes (h : Changes False host next) : Spares own host next := by
  have hspares : Spares (fun _ => False) host next := ?_
  · exact hspares.mono fun _ => False.elim
  induction h with
  | refl => exact refl host
  | tail _ hlast ih =>
    refine ih.trans ?_
    cases hlast with
    | cause hcause => exact of_quiet (.childCause hcause)
    | violation => exact of_quiet (.recordViolation ..)
    | enqueue => exact of_quiet (.enqueueEventInternal ..)
    | guest | patch | accept | snapshot | restore => exact of_eq rfl rfl rfl
    | fail _ hstarted => exact fail hstarted

theorem Spares.processTick (host : ExtensionHost G) : Spares own host host.processTick.1 := by
  obtain ⟨report, htick⟩ := processTick_eq host
  have hadvanced : Spares own host host.advance := of_eq rfl rfl rfl
  have hbefore := hadvanced.trans (of_changes (Changes.beforeSelection host False.elim))
  have hdequeued : Spares own host.beforeSelection
      (host.beforeSelection.dequeue host.selectionBudget) := of_eq rfl rfl rfl
  rw [htick]
  exact (hbefore.trans hdequeued).trans (of_changes (.dispatch host.selection (_, report, [])))

theorem Spares.of_edit (h : Edit own host next) : Spares own host next := by
  cases h with
  | ripples h => exact of_quiet (.of_ripples h)
  | changes h => exact of_changes h
  | plain h => exact of_registry h.limits h.licenses h.registry h.decisions
  | runtime | invalidate => exact of_eq rfl rfl rfl
  | settings h =>
    exact (of_leads (Leads.restoreExtensionSettings h) (.refl _)).mono fun _ => False.elim
  | decisions h => exact ⟨rfl, rfl, fun _ _ => rfl, fun other hother =>
      permissionDecision_congr (h other hother), fun _ _ => .refl _⟩
  | transition hown _ h => exact transition hown h
  | @stop unloading stopped extension hown hunloading h =>
    have hclosed : Spares own unloading (unloading.closeRuntime extension) := by
      unfold ExtensionHost.closeRuntime
      split <;> exact of_eq rfl rfl rfl
    have hdropped : Spares own stopped (stopped.dropWork extension) := of_eq rfl rfl rfl
    exact (transition hown hunloading).trans (hclosed.trans ((transition hown h).trans hdropped))
  | @forget extension hown =>
    have herased : ∀ other, ¬own other →
        (host.registry.erase extension)[other]? = host.registry[other]? := by
      intro other hother
      have hne : extension ≠ other := fun heq => hother (heq ▸ hown)
      rw [getElem?_erase, if_neg hne]
    refine ⟨rfl, rfl, fun other hother => ?_, fun _ _ => rfl, fun other hother => .inl ?_⟩
    · exact congrArg (Option.map _) (herased other hother)
    · exact congrArg (Option.map _) (herased other hother)

theorem Spares.of_edits (h : Edits own host next) : Spares own host next := by
  induction h with
  | refl => exact refl host
  | tail _ hlast ih => exact ih.trans (of_edit hlast)

theorem Leads.resumeChecked (host : ExtensionHost G) (extension : ExtensionId)
    (capabilities : CapabilitySnapshot) : ∃ state, Leads extension host
      (host.resumeChecked extension capabilities).2 { host.view extension with state } := by
  have hcaused : Leads extension host host.rootCause.2 (host.view extension) := .of_eq rfl rfl rfl
  unfold ExtensionHost.resumeChecked
  dsimp only
  split
  · exact ⟨_, hcaused⟩
  · rename_i runtime _
    generalize resumeGuest { runtime with capabilities } _ = resumed
    have hset : Leads extension host (host.rootCause.2.setRuntime extension resumed.2)
        (host.view extension) := .of_eq rfl rfl rfl
    split
    · exact ⟨_, hset⟩
    split
    · exact ⟨_, hset⟩
    · rename_i next hnext
      have hstarted := Leads.transition hnext
      rw [hset.view] at hstarted
      obtain ⟨state, -, hleads⟩ := (hset.trans hstarted).fades
        ((Spares.of_steady (show Handles False _ _ from Handles.arbitrateUpdate next extension
          resumed.2.generation host.rootCause.1 ‹_› []).steady).trans
            (.of_quiet (.broadcastCapabilityChanges _)))
      exact ⟨state, hleads⟩

theorem Leads.resume (host : ExtensionHost G) (extension : ExtensionId) :
    ∃ state, Leads extension host (host.resume extension).2 { host.view extension with state } := by
  unfold ExtensionHost.resume
  split
  · exact ⟨_, .refl host⟩
  · split
    · exact ⟨_, .refl host⟩
    · split
      · exact ⟨_, .refl host⟩
      · exact resumeChecked ..

end ExtensionHost

namespace Session

open ExtensionHost

variable {G : Type} [Platform] [NativeExtension G]

omit [Platform] [NativeExtension G] in
theorem spares_after (session : Session G) {result : Except HostError (ExtensionHost G)}
    (h : ∀ next, result = .ok next → Spares own session.host next) :
    Spares own session.host (session.after result).host := by
  cases result with
  | ok next => exact h next rfl
  | error error => exact .refl session.host

theorem spares_step {session next : Session G} {operation : Operation G}
    (hstep : session.step operation = some next) :
    Spares (fun extension => operation.subject? = some extension) session.host next.host := by
  have hown : ∀ {subject : ExtensionId} {host next : ExtensionHost G} {view : View},
      operation.subject? = some subject → Leads subject host next view →
      Spares (fun extension => operation.subject? = some extension) host next := by
    intro subject host next view hsubject h
    exact h.spares.mono fun extension heq => heq ▸ hsubject
  cases operation
  case install =>
    exact some.inj hstep ▸ session.spares_after fun _ h => hown rfl (Leads.install h).2.2
  case replace =>
    exact some.inj hstep ▸ session.spares_after fun _ h => hown rfl (Leads.replace h).2
  case activate extension =>
    obtain ⟨state, -, hleads⟩ := Leads.activate session.host extension
    simp only [step] at hstep
    split at hstep <;> rename_i heq <;> rw [heq] at hleads <;>
      exact some.inj hstep ▸ hown rfl hleads
  case processTick => exact some.inj hstep ▸ .processTick session.host
  all_goals exact .of_edits (edits_step rfl hstep)

/-- An extension stays installed, unless it is removed, and no other one is installed. -/
theorem isSome_package_step {session next : Session G} {operation : Operation G}
    (hinstall : ∀ manifest metadata, operation ≠ .install manifest metadata)
    (hremove : ∀ extension, operation ≠ .remove extension)
    (hinstalled : ∀ extension, operation.subject? = some extension →
      (session.host.package extension).isSome)
    (hstep : session.step operation = some next) (extension : ExtensionId) :
    (next.host.package extension).isSome = (session.host.package extension).isSome := by
  by_cases hsubject : operation.subject? = some extension
  · have hbefore := hinstalled extension hsubject
    have hkept : ∀ {view : View}, Leads extension session.host next.host view →
        view.package.isSome → (next.host.package extension).isSome := by
      intro view hleads hview
      rwa [← view_package, hleads.view]
    rw [hbefore]
    cases operation with
    | install manifest metadata => exact absurd rfl (hinstall manifest metadata)
    | remove extension => exact absurd rfl (hremove extension)
    | replace manifest metadata =>
      cases hsubject
      cases hstep
      cases h : session.host.replace manifest metadata with
      | error error => exact hbefore
      | ok host =>
        rw [h] at hkept
        exact hkept (Leads.replace h).2 rfl
    | registerWasmAdapter | removeWasmAdapter => exact some.inj hstep ▸ hbefore
    | setPermissionDecision =>
      cases hsubject
      cases hstep
      exact hkept (Leads.setPermissionDecision ..) hbefore
    | clearPermissionDecisions =>
      cases hsubject
      cases hstep
      exact hkept (Leads.clearPermissionDecisions _) hbefore
    | activate =>
      cases hsubject
      obtain ⟨state, -, hleads⟩ := Leads.activate session.host _
      rw [step] at hstep
      split at hstep <;> rename_i heq <;> rw [heq] at hleads <;> cases hstep <;>
        exact hkept hleads hbefore
    | resume =>
      cases hsubject
      obtain ⟨state, hleads⟩ := Leads.resume session.host _
      rw [step] at hstep
      split at hstep <;> rename_i heq <;> rw [heq] at hleads <;> cases hstep <;>
        exact hkept hleads hbefore
    | unload extension =>
      cases hsubject
      cases hstep
      cases h : session.host.unload extension with
      | error error => exact hbefore
      | ok host =>
        rw [h] at hkept
        exact hkept (Leads.unload h) hbefore
    | _ => cases hsubject
  · rw [(spares_step hstep).package extension hsubject]

end Session

end KeyReader.Extension
