import KeyReader.Packages.Apart

/-! Runs of the package manager: the restoration of the stored packages at the start, and then the
requests of the user, the settlement of upgrades and the work of the host, in any order. -/

namespace KeyReader.Packages

open Attempt hiding ofExcept
open Extension

variable {G ν : Type}

def ExtensionPackageError.rolledBack? : ExtensionPackageError → Option ExtensionId
  | .upgradeActivationFailed extension _ => some extension
  | .upgradeRollbackFailed extension _ => some extension
  | _ => none

/-- What the application asks of the manager, and what it lets the host do. -/
inductive Command (G : Type)
  | installReviewed (source : PackageSource) (reviewed : PackageInstallPreview)
  | grantPermissionsAndActivate (extension : ExtensionId)
  | denyPermissions (extension : ExtensionId)
  | disable (extension : ExtensionId)
  | enable (extension : ExtensionId)
  | remove (extension : ExtensionId)
  | setPermissionDecision (extension : ExtensionId) (permission : Permission)
      (decision : PermissionDecision)
  | settleActivatingUpgrades
  | host (operation : Operation G)

/-- The manager, the host, and the accepted effects that the host has handed out. -/
structure PackageSession (G : Type) where
  system : PackageSystem G
  effects : List AcceptedEffect

def PackageSystem.leavesPackages (system : PackageSystem G) (operation : Operation G) : Bool :=
  match operation with
  | .install _ _ => false
  | .remove _ => false
  | .replace manifest _ => unmanaged manifest.id
  | .registerWasmAdapter extension _ => unmanaged extension
  | .removeWasmAdapter extension => unmanaged extension
  | .setPermissionDecision extension _ _ => unmanaged extension
  | .clearPermissionDecisions extension => unmanaged extension
  | .activate extension => unmanaged extension
  | .resume extension => unmanaged extension
  | .unload extension => unmanaged extension
  | _ => true
where
  unmanaged (extension : ExtensionId) : Bool :=
    !system.manager.packages.contains extension && (system.host.registry.contains extension)

/-- The error of an operation, if it fails. -/
def errorOf {α : Type} (operation : Manages G α) : Manages G (List ExtensionPackageError) := do
  match ← caught operation with
  | .ok _ => pure []
  | .error error => pure [error]

variable [Platform] [NativeExtension G] (surroundings : Surroundings ν)

/-- A command to the manager, with the errors that it tells. -/
def Command.carryOut : Command G → Manages G (List ExtensionPackageError)
  | .installReviewed source reviewed => errorOf (Packages.installReviewed surroundings source reviewed)
  | .grantPermissionsAndActivate extension =>
    errorOf (Packages.grantPermissionsAndActivate extension)
  | .denyPermissions extension => errorOf (Packages.denyPermissions extension)
  | .disable extension => errorOf (Packages.disable extension)
  | .enable extension => errorOf (Packages.enable extension)
  | .remove extension => errorOf (Packages.remove extension)
  | .setPermissionDecision extension permission decision =>
    errorOf (Packages.setPermissionDecision extension permission decision)
  | .settleActivatingUpgrades => do
    let settlements ← Packages.settleActivatingUpgrades
    pure (settlements.filterMap fun settlement => match settlement.2 with
      | .ok _ => none
      | .error error => some error)
  | .host _ => pure []

namespace PackageSession

def errors (session : PackageSession G) (command : Command G) : List ExtensionPackageError :=
  match ((command.carryOut surroundings).outcome session.system).1 with
  | .ok errors => errors
  | .error _ => []

def step (session : PackageSession G) : Command G → Option (PackageSession G)
  | .host operation =>
    if session.system.leavesPackages operation = true then
      (Session.step ⟨session.system.host, session.effects⟩ operation).map fun next =>
        ⟨{ session.system with host := next.host }, next.effects⟩
    else none
  | command =>
    some { session with system := ((command.carryOut surroundings).outcome session.system).2 }

end PackageSession

/-- One stored package is restored, or else removed again; the images that an active one refers to
may be rejected. -/
def restoreEntry (stored : RegisteredPackageRestore) (imagesAccepted : Bool) : Manages G Unit := do
  match ← caught (restoreRegistered surroundings stored) with
  | .ok report =>
    if report.activation = .active ∧ imagesAccepted = false then
      let _ ← caught (Packages.remove stored.expectedExtension)
      pure ()
    else pure ()
  | .error _ =>
    let _ ← caught (Packages.remove stored.expectedExtension)
    pure ()

def restoreInstallableExtensions (entries : List (RegisteredPackageRestore × Bool)) :
    Manages G Unit :=
  entries.forM fun entry => restoreEntry surroundings entry.1 entry.2

/-- Before the start no package is managed, and nobody has granted anything to an extension that is
not installed. -/
structure PackageSystem.Fresh (system : PackageSystem G) : Prop where
  packages : system.manager.packages = ∅
  pendingUpgrades : system.manager.pendingUpgrades = ∅
  activatingUpgrades : system.manager.activatingUpgrades = ∅
  decisions : ∀ extension permission, system.host.registry.contains extension = false →
    system.host.permissionDecision extension permission ≠ .granted

def PackageSystem.started (system : PackageSystem G)
    (entries : List (RegisteredPackageRestore × Bool)) : PackageSession G :=
  ⟨((restoreInstallableExtensions surroundings entries).outcome system).2, []⟩

end KeyReader.Packages

/-! What the operations of the manager make of the slice of their extension: the steps on the host,
the activation, the rollback and the commitment of an upgrade. -/

namespace KeyReader.Packages

open Attempt hiding ofExcept
open Extension ExtensionHost OrderedMap

variable {G : Type} {extension : ExtensionId} {v : Slice G}

/-- The computation makes of the slice of an extension what is related to its result. -/
abbrev Makes {α : Type} (extension : ExtensionId) (v : Slice G) (operation : Manages G α)
    (ends : Except ExtensionPackageError α → Slice G → Prop) : Prop :=
  Takes (PackageSystem.slice extension) v operation ends

abbrev Leaves {α : Type} (extension : ExtensionId) (v : Slice G) (operation : Manages G α)
    (answer : α) (w : Slice G) : Prop :=
  Yields (PackageSystem.slice extension) v operation answer w

variable {managed : ManagedPackage G}

section steps

theorem outcome_onHost_ok {operation : ExtensionHost G → Except HostError (ExtensionHost G)}
    {system : PackageSystem G} {next : ExtensionHost G} (h : operation system.host = .ok next) :
    (onHost operation).outcome system = (.ok (), { system with host := next }) := by
  unfold onHost
  rw [outcome_ofOutcome, h]

theorem outcome_onHost_error {operation : ExtensionHost G → Except HostError (ExtensionHost G)}
    {system : PackageSystem G} {error : HostError} (h : operation system.host = .error error) :
    (onHost operation).outcome system = (.error (.host error), system) := by
  unfold onHost
  rw [outcome_ofOutcome, h]

theorem leads_decideAll (written : List (Permission × PermissionDecision)) (host : ExtensionHost G) :
    Leads extension host (written.foldl (fun host (permission, decision) =>
        host.setPermissionDecision extension permission decision) host)
      { host.view extension with
        decisions := decideAll (host.permissionDecision extension) written } := by
  induction written generalizing host with
  | nil => exact .refl host
  | cons entry written ih =>
    have hfirst : Leads extension host (host.setPermissionDecision extension entry.1 entry.2) _ :=
      Leads.setPermissionDecision host entry.1 entry.2
    have hrest := ih (host.setPermissionDecision extension entry.1 entry.2)
    have hdecisions : (host.setPermissionDecision extension entry.1 entry.2).permissionDecision
        extension = _ := congrArg View.decisions hfirst.view
    rw [hfirst.view, hdecisions] at hrest
    exact hfirst.trans hrest

theorem leaves_changeHost {change : ExtensionHost G → ExtensionHost G} {view : View}
    (h : ∀ host, host.view extension = v.view → Leads extension host (change host) view) :
    Leaves extension v (changeHost change) () { v with view } := by
  refine .changing fun system hslice => ?_
  subst hslice
  unfold PackageSystem.slice
  rw [(h system.host rfl).view, (h system.host rfl).spares.limits]

theorem leaves_dropPendingUpgrade :
    Leaves extension v (dropPendingUpgrade extension) () { v with pending := none } := by
  refine .changing fun system hslice => ?_
  subst hslice
  unfold PackageSystem.slice
  rw [getElem?_erase, if_pos rfl]

theorem leaves_dropActivatingUpgrade :
    Leaves extension v (dropActivatingUpgrade extension) () { v with activating := none } := by
  refine .changing fun system hslice => ?_
  subst hslice
  unfold PackageSystem.slice
  rw [getElem?_erase, if_pos rfl]

theorem leaves_putPackage (managed : ManagedPackage G) :
    Leaves extension v (putPackage extension managed) () { v with managed := some managed } := by
  refine .changing fun system hslice => ?_
  subst hslice
  unfold PackageSystem.slice
  rw [getElem?_insert, if_pos rfl]

theorem leaves_putPendingUpgrade (pending : PendingUpgrade G) :
    Leaves extension v (putPendingUpgrade extension pending) () { v with pending := some pending } := by
  refine .changing fun system hslice => ?_
  subst hslice
  unfold PackageSystem.slice
  rw [getElem?_insert, if_pos rfl]

theorem leaves_putActivatingUpgrade (activating : ActivatingUpgrade G) :
    Leaves extension v (putActivatingUpgrade extension activating) ()
      { v with activating := some activating } := by
  refine .changing fun system hslice => ?_
  subst hslice
  unfold PackageSystem.slice
  rw [getElem?_insert, if_pos rfl]

theorem leaves_dropPackage :
    Leaves extension v (changeManager fun manager : InstallableExtensionManager G =>
      { manager with packages := manager.packages.erase extension }) () { v with managed := none } := by
  refine .changing fun system hslice => ?_
  subst hslice
  unfold PackageSystem.slice
  rw [getElem?_erase, if_pos rfl]

theorem leaves_removeWasmAdapter : Leaves extension v
    (changeHost fun host : ExtensionHost G => host.removeWasmAdapter extension) () v :=
  leaves_changeHost fun _ hview => hview ▸ .of_eq rfl rfl rfl

theorem leaves_registerManagedAdapter (managed : ManagedPackage G) :
    Leaves extension v (registerManagedAdapter managed) () v := by
  refine leaves_changeHost fun host hview => ?_
  rw [← hview]
  split
  · exact .of_eq rfl rfl rfl
  · exact .refl host

theorem leaves_setPermissionDecisions (written : List (Permission × PermissionDecision)) :
    Leaves extension v (setPermissionDecisions extension written) ()
      (v.deciding (decideAll v.view.decisions written)) := by
  refine leaves_changeHost fun host hview => ?_
  rw [← hview]
  exact leads_decideAll written host

theorem leaves_clearPermissionDecisions : Leaves extension v
    (changeHost fun host : ExtensionHost G => host.clearPermissionDecisions extension) ()
    (v.deciding fun _ => .undecided) :=
  leaves_changeHost fun host hview => hview ▸ Leads.clearPermissionDecisions host

theorem leaves_restorePermissionSnapshot (snapshot : PermissionSnapshot) :
    Leaves extension v (restorePermissionSnapshot extension snapshot) ()
      (v.deciding snapshot.restored) :=
  Yields.bind leaves_clearPermissionDecisions (leaves_setPermissionDecisions _)

theorem makes_expectManaged {message : String} (h : v.managed = some managed) :
    Leaves extension v (expectManaged extension message) managed v := by
  refine Takes.reading_bind fun system hslice => ?_
  subst hslice
  rw [show system.manager.packages[extension]? = some managed from h]
  exact Takes.pure ⟨rfl, rfl⟩

section host

variable [Platform] [NativeExtension G]

theorem leaves_unload (h : v.Installed) :
    Leaves extension v (unload extension) () (v.inState (some .disabled)) := by
  intro system hslice
  subst hslice
  obtain ⟨state, hstate, hremoved⟩ := h
  obtain ⟨next, hnext⟩ := Leads.exists_unload hstate hremoved
  rw [unload, outcome_onHost_ok hnext]
  refine ⟨rfl, ?_⟩
  unfold PackageSystem.slice Slice.inState
  rw [(Leads.unload hnext).view, (Leads.unload hnext).spares.limits]

theorem makes_activate : Answers (PackageSystem.slice extension) v (activate extension) fun w =>
    ∃ state, Leads.Activated v.view.state state ∧ w = v.inState state := by
  refine .ofOutcome fun system hslice => ?_
  subst hslice
  obtain ⟨state, hstate, hleads⟩ := Leads.activate system.host extension
  refine ⟨⟨_, rfl⟩, state, hstate, ?_⟩
  unfold PackageSystem.slice Slice.inState
  rw [hleads.view, hleads.spares.limits]

def Slice.hosted (v : Slice G) (managed : ManagedPackage G) : Slice G :=
  (v.hosting managed).inState (some .validated)

omit [NativeExtension G]

theorem makes_replace (hid : managed.id = extension) :
    Makes extension v (replace managed) fun result w =>
      (∃ error, result = .error error ∧ error.rolledBack? = none ∧ w = v) ∨
      (result = .ok () ∧ managed.manifest.toExtensionManifest.validate v.limits = [] ∧
        w = v.hosted managed) := by
  intro system hslice
  subst hid hslice
  cases hreplace : system.host.replace managed.manifest.toExtensionManifest
      (packageMetadata managed.package) with
  | error error =>
    rw [replace, outcome_onHost_error hreplace]
    exact .inl ⟨_, rfl, rfl, rfl⟩
  | ok next =>
    obtain ⟨hvalid, hleads⟩ := Leads.replace hreplace
    rw [replace, outcome_onHost_ok hreplace]
    refine .inr ⟨rfl, hvalid, ?_⟩
    unfold PackageSystem.slice Slice.hosted Slice.hosting Slice.inState
    rw [show next.view managed.id = _ from hleads.view, hleads.spares.limits]
    rfl

theorem leaves_replace (hid : managed.id = extension)
    (hvalid : managed.manifest.toExtensionManifest.validate v.limits = [])
    (hstate : v.view.state = some .disabled) :
    Leaves extension v (replace managed) () (v.hosted managed) := by
  intro system hslice
  have hmakes := makes_replace hid system hslice
  subst hslice
  have hdisabled : system.host.state managed.manifest.toExtensionManifest.id = some .disabled := by
    rw [← hstate, ← hid]
    rfl
  obtain ⟨next, hnext⟩ := Leads.exists_replace (packageMetadata managed.package) hvalid hdisabled
  rcases hmakes with ⟨error, herror, -, -⟩ | ⟨hok, -, hw⟩
  · rw [replace, outcome_onHost_ok hnext] at herror
    cases herror
  · exact ⟨hok, hw⟩

end host

end steps

section activation

variable [Platform] [NativeExtension G]

theorem makes_activation (h : v.Installed) :
    Answers (PackageSystem.slice extension) v (activation extension) v.Shifts := by
  have hunload : ∀ {w : Slice G} {answer : PackageActivation × Bool}, v.Shifts w →
      Answers (PackageSystem.slice extension) w (unload extension >>= fun _ => pure answer)
        v.Shifts := by
    intro w answer hw
    exact (leaves_unload hw.installed).bind (.pure ⟨⟨_, rfl⟩, hw.trans (.of_inState (by decide))⟩)
  refine Takes.reading_bind fun system _ => ?_
  split
  · exact .pure ⟨⟨_, rfl⟩, .refl h⟩
  split
  · exact hunload (.refl h)
  · refine makes_activate.bind fun outcome w hw => ?_
    obtain ⟨state, hstate, rfl⟩ := hw
    obtain ⟨next, hremoved, rfl⟩ := h.activated hstate
    have hshifts : v.Shifts (v.inState (some next)) := .of_inState hremoved
    split
    · exact .pure ⟨⟨_, rfl⟩, hshifts⟩
    · exact hunload hshifts
    · exact Takes.reading_bind fun _ _ => hunload hshifts

theorem makes_activationReport (hmanaged : v.managed = some managed) (h : v.Installed) :
    Answers (PackageSystem.slice extension) v (activationReport extension) v.Shifts :=
  (makes_expectManaged hmanaged).bind ((makes_activation h).bind fun _ _ hw =>
    .pure ⟨⟨_, rfl⟩, hw⟩)

theorem makes_restoreLifecycle (h : v.Installed) (lifecycle : LifecycleState) :
    Makes extension v (restoreLifecycle extension lifecycle) fun _ w => v.Shifts w := by
  have hunload : ∀ {w : Slice G}, v.Shifts w →
      Makes extension w (unload extension) fun _ w => v.Shifts w := by
    intro w hw
    refine (leaves_unload hw.installed).weaken fun _ ended hended => ?_
    rw [hended.2]
    exact hw.trans (.of_inState (by decide))
  have hactivate : ∀ {next : Except HostError ActivationReport → Manages G Unit},
      (∀ outcome w, v.Shifts w → Makes extension w (next outcome) fun _ w => v.Shifts w) →
      Makes extension v (activate extension >>= next) fun _ w => v.Shifts w := by
    intro next hnext
    refine makes_activate.bind fun outcome w hw => ?_
    obtain ⟨state, hstate, rfl⟩ := hw
    obtain ⟨next, hremoved, rfl⟩ := h.activated hstate
    exact hnext outcome _ (.of_inState hremoved)
  unfold restoreLifecycle
  split
  · refine hactivate fun outcome w hw => ?_
    split
    · exact .pure hw
    · exact .throw hw
  · exact .throw (.refl h)
  · exact hunload (.refl h)
  · exact .pure (.refl h)
  · refine hactivate fun outcome w hw => ?_
    split
    · exact hunload hw
    · refine Takes.reading_bind fun _ _ => ?_
      split
      · exact .pure hw
      · exact .throw hw
  all_goals exact hunload (.refl h)

def Slice.rolledBack (v : Slice G) (old : ManagedPackage G) (snapshot : PermissionSnapshot) :
    Slice G :=
  (({ v with managed := some old }).hosting old).deciding snapshot.restored

variable {old : ManagedPackage G} {snapshot : PermissionSnapshot}

theorem makes_rollbackUpgrade (h : v.Installed) (hid : old.id = extension)
    (hvalid : old.manifest.toExtensionManifest.validate v.limits = [])
    (oldLifecycle : LifecycleState) :
    Makes extension v (rollbackUpgrade extension old oldLifecycle snapshot)
      fun _ w => (v.rolledBack old snapshot).Shifts w := by
  refine (leaves_unload h).bind (leaves_removeWasmAdapter.bind
    ((leaves_replace hid (v := v.inState (some .disabled)) hvalid rfl).bind
      ((leaves_registerManagedAdapter old).bind ((leaves_putPackage old).bind
        ((leaves_restorePermissionSnapshot snapshot).bind ?_)))))
  refine (makes_restoreLifecycle ⟨.validated, rfl, by decide⟩ oldLifecycle).weaken fun _ w hw => ?_
  obtain ⟨state, hremoved, rfl⟩ := hw
  exact ⟨state, hremoved, rfl⟩

theorem makes_failUpgrade (h : v.Installed) (hid : old.id = extension)
    (hvalid : old.manifest.toExtensionManifest.validate v.limits = [])
    (oldLifecycle : LifecycleState) (reason : String) :
    Makes extension v (failUpgrade extension old oldLifecycle snapshot reason) fun result w =>
      ∃ error, result = .error error ∧ error.rolledBack? = some extension ∧
        (v.rolledBack old snapshot).Shifts w := by
  refine (makes_rollbackUpgrade h hid hvalid oldLifecycle).caught_bind fun result w hw => ?_
  split <;> exact .throw ⟨_, rfl, rfl, hw⟩

omit [Platform] [NativeExtension G] in
theorem Slice.Shifts.rolledBack {w u : Slice G} (h : v.Shifts w)
    (h' : (w.rolledBack old snapshot).Shifts u) : (v.rolledBack old snapshot).Shifts u := by
  obtain ⟨_, -, rfl⟩ := h
  obtain ⟨state, hremoved, rfl⟩ := h'
  exact ⟨state, hremoved, rfl⟩

theorem makes_activateReplacement (hmanaged : v.managed = some managed) (h : v.Installed)
    (oldLifecycle : LifecycleState) :
    Makes extension v (activateReplacement extension oldLifecycle) fun _ w => v.Shifts w := by
  unfold activateReplacement
  split
  · exact (makes_activationReport hmanaged h).weaken fun _ _ hw => hw.2
  · exact .throw (.refl h)
  · exact (leaves_unload h).bind ((makes_expectManaged (v := v.inState (some .disabled))
      hmanaged).bind (.pure (.of_inState (by decide))))

/-- How an upgrade ends whose package has been replaced. -/
inductive Finishes (extension : ExtensionId) (old : ManagedPackage G)
    (oldLifecycle : LifecycleState) (snapshot : PermissionSnapshot) (v : Slice G) :
    Except ExtensionPackageError PackageInstallReport → Slice G → Prop
  | failed {error : ExtensionPackageError} {w : Slice G} : error.rolledBack? = some extension →
      (v.rolledBack old snapshot).Shifts w →
      Finishes extension old oldLifecycle snapshot v (.error error) w
  | started {report : PackageInstallReport} {w : Slice G} : oldLifecycle = .active →
      ({ v with activating := some ⟨old, oldLifecycle, snapshot⟩ }).Shifts w →
      Finishes extension old oldLifecycle snapshot v (.ok report) w
  | settled {report : PackageInstallReport} {w : Slice G} : v.Shifts w →
      Finishes extension old oldLifecycle snapshot v (.ok report) w

theorem makes_finishUpgrade (hmanaged : v.managed = some managed) (h : v.Installed)
    (hid : old.id = extension) (hvalid : old.manifest.toExtensionManifest.validate v.limits = [])
    (oldLifecycle : LifecycleState) :
    Makes extension v (finishUpgrade extension old oldLifecycle snapshot)
      (Finishes extension old oldLifecycle snapshot v) := by
  have hfail : ∀ {w : Slice G} {reason : String}, v.Shifts w →
      Makes extension w (failUpgrade extension old oldLifecycle snapshot reason)
        (Finishes extension old oldLifecycle snapshot v) := by
    intro w reason hw
    have hlimits : w.limits = v.limits := by
      obtain ⟨_, -, rfl⟩ := hw
      rfl
    refine (makes_failUpgrade hw.installed hid (hlimits ▸ hvalid) oldLifecycle reason).weaken ?_
    rintro result u ⟨error, rfl, hrollback, hu⟩
    exact .failed hrollback (hw.rolledBack hu)
  refine (makes_activateReplacement hmanaged h oldLifecycle).caught_bind fun result w hw => ?_
  split
  · exact hfail hw
  · refine Takes.reading_bind fun system _ => ?_
    split
    · rename_i hactive
      refine (leaves_putActivatingUpgrade _).bind (.pure (.started hactive.1 ?_))
      obtain ⟨state, hremoved, rfl⟩ := hw
      exact ⟨state, hremoved, rfl⟩
    split
    · exact hfail hw
    · exact .pure (.settled hw)

end activation

section upgrades

variable [Platform]

structure ManagedPackage.Fits (managed : ManagedPackage G) (extension : ExtensionId)
    (limits : ValidationLimits) : Prop where
  id : managed.id = extension
  valid : managed.manifest.toExtensionManifest.validate limits = []

/-- What the manager holds of an extension agrees with what the host holds of it. -/
structure Slice.Sound (extension : ExtensionId) (v : Slice G) : Prop where
  fits : ∀ managed, v.managed = some managed → managed.Fits extension v.limits
  hosted : ∀ managed, v.managed = some managed → v.view.package =
    some (managed.manifest.toExtensionManifest, packageMetadata managed.package)
  installed : v.managed.isSome → v.Installed
  candidate : ∀ pending, v.pending = some pending →
    pending.candidate.id = extension ∧ v.managed.isSome
  old : ∀ activating, v.activating = some activating →
    activating.old.Fits extension v.limits ∧ activating.oldLifecycle = .active ∧ v.managed.isSome

omit [Platform] in
def PendingUpgrade.snapshot (pending : PendingUpgrade G) (old : ManagedPackage G)
    (decisions : Permission → PermissionDecision) : PermissionSnapshot :=
  snapshotOf decisions old.manifest.toExtensionManifest
    pending.candidate.manifest.toExtensionManifest

def Slice.replaced (v : Slice G) (pending : PendingUpgrade G) : Slice G :=
  (({ v with managed := some pending.candidate, pending := none }).hosting
    pending.candidate).deciding (pending.approved v.view.decisions)

/-- How the commitment of a candidate ends. -/
inductive Commits (extension : ExtensionId) (pending : PendingUpgrade G) (v : Slice G) :
    Except ExtensionPackageError PackageInstallReport → Slice G → Prop
  | refused {error : ExtensionPackageError} : error.rolledBack? = none →
      Commits extension pending v (.error error) v
  | undone {old : ManagedPackage G} {error : ExtensionPackageError} {w : Slice G} :
      v.managed = some old → (∀ other, error.rolledBack? = some other → other = extension) →
      (v.deciding (pending.snapshot old v.view.decisions).restored).Shifts w →
      Commits extension pending v (.error error) w
  | started {old : ManagedPackage G} {report : PackageInstallReport} {w : Slice G} :
      v.managed = some old → v.view.state = some .active →
      pending.candidate.Fits extension v.limits →
      ({ v.replaced pending with
        activating := some ⟨old, .active, pending.snapshot old v.view.decisions⟩ }).Shifts w →
      Commits extension pending v (.ok report) w
  | settled {old : ManagedPackage G} {report : PackageInstallReport} {w : Slice G} :
      v.managed = some old → pending.candidate.Fits extension v.limits →
      (v.replaced pending).Shifts w → Commits extension pending v (.ok report) w

variable [NativeExtension G]

theorem makes_undoReplacement (h : v.Installed) {old : ManagedPackage G}
    {snapshot : PermissionSnapshot} (oldLifecycle : LifecycleState) {error : ExtensionPackageError}
    (herror : error.rolledBack? = none) :
    Makes extension v (undoReplacement extension old oldLifecycle snapshot error)
      fun result w => ∃ error, result = .error error ∧
        (∀ other, error.rolledBack? = some other → other = extension) ∧
        (v.deciding snapshot.restored).Shifts w := by
  have hrestored : (v.deciding snapshot.restored).Installed := h
  refine (leaves_restorePermissionSnapshot snapshot).bind (Takes.caught_bind
    (m := fun _ w => (v.deciding snapshot.restored).Shifts w) ?_ fun result w hw => ?_)
  · exact (leaves_registerManagedAdapter old).bind (makes_restoreLifecycle hrestored oldLifecycle)
  · split
    · refine .throw ⟨_, rfl, fun other hother => ?_, hw⟩
      cases hother
      rfl
    · refine .throw ⟨_, rfl, fun other hother => ?_, hw⟩
      cases herror.symm.trans hother

omit [Platform] [NativeExtension G] in
theorem leaves_resetAuthority (reset : Bool) : Leaves extension v
    (changeHost fun host : ExtensionHost G =>
      if reset = true then host.clearPermissionDecisions extension else host) ()
    (v.deciding (if reset = true then fun _ => .undecided else v.view.decisions)) := by
  cases reset with
  | true => exact leaves_clearPermissionDecisions
  | false => exact leaves_changeHost fun host hview => hview ▸ .refl host

/-- From a sound slice without a pending upgrade a candidate is committed as `Commits` says. -/
theorem makes_commitUpgrade {pending : PendingUpgrade G} (hid : pending.candidate.id = extension)
    (hsound : v.Sound extension) (hpending : v.pending = none) :
    Makes extension v (commitUpgrade pending) (Commits extension pending v) := by
  subst hid
  refine Takes.reading_bind fun system hslice => ?_
  subst hslice
  refine Takes.okOr_bind (fun _ => .refused rfl) fun old hold => ?_
  refine Takes.okOr_bind (fun _ => .refused rfl) fun oldLifecycle hlifecycle => ?_
  refine Takes.ensure_bind (fun _ => .refused rfl) fun _ => ?_
  generalize hv : system.slice pending.candidate.id = v at *
  have hmanaged : v.managed = some old := hv ▸ hold
  have hstate : v.view.state = some oldLifecycle := hv ▸ hlifecycle
  have hsnapshot : capturePermissionSnapshot system.host pending.candidate.id
      old.manifest.toExtensionManifest pending.candidate.manifest.toExtensionManifest =
      pending.snapshot old v.view.decisions := hv ▸ rfl
  dsimp only [id]
  rw [hsnapshot]
  have hinstalled : v.Installed := hsound.installed (hmanaged ▸ rfl)
  refine (leaves_unload hinstalled).bind (leaves_removeWasmAdapter.bind
    ((leaves_resetAuthority _).bind ((leaves_setPermissionDecisions _).bind ?_)))
  refine (makes_replace rfl).caught_bind fun result w hw => ?_
  rcases hw with ⟨error, rfl, hplain, rfl⟩ | ⟨rfl, hvalid, rfl⟩
  · refine (makes_undoReplacement ⟨.disabled, rfl, by decide⟩ oldLifecycle hplain).weaken ?_
    rintro result w ⟨error, rfl, hother, state, hremoved, rfl⟩
    exact .undone hmanaged hother ⟨state, hremoved, rfl⟩
  · refine (leaves_registerManagedAdapter _).bind ((leaves_putPackage _).bind
      (leaves_dropPendingUpgrade.bind ?_))
    refine (makes_finishUpgrade (v := (v.replaced pending).inState (some .validated)) rfl
      ⟨.validated, rfl, by decide⟩ (hsound.fits old hmanaged).id (hsound.fits old hmanaged).valid
      oldLifecycle).weaken ?_
    rintro result w (⟨hrolled, state, hremoved, rfl⟩ | ⟨rfl, state, hremoved, rfl⟩ |
      ⟨state, hremoved, rfl⟩)
    · refine .undone hmanaged (fun other hother => ?_) ⟨state, hremoved, ?_⟩
      · exact Option.some.inj (hother.symm.trans hrolled)
      unfold Slice.rolledBack Slice.hosting Slice.deciding Slice.inState
      rw [← hsound.hosted old hmanaged, ← hmanaged, hpending]
      rfl
    · exact .started hmanaged hstate ⟨rfl, hvalid⟩ ⟨state, hremoved, rfl⟩
    · exact .settled hmanaged ⟨rfl, hvalid⟩ ⟨state, hremoved, rfl⟩

end upgrades

end KeyReader.Packages
