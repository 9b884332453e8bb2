import KeyReader.Packages.Upgrades

/-! What each command of the application makes of each slice: `Effect`. -/

namespace KeyReader.Packages

open Attempt hiding ofExcept
open Extension ExtensionHost Package OrderedMap

variable {G ν α β : Type} {extension : ExtensionId} {v w : Slice G}

/-- An error of the result does not tell of a rollback. -/
def Plain (result : Except ExtensionPackageError α) : Prop :=
  ∀ error, result = .error error → error.rolledBack? = none

def tells (extension : ExtensionId) (result : Except ExtensionPackageError α) : Bool :=
  match result with
  | .ok _ => false
  | .error error => error.rolledBack? = some extension

theorem tells_of_plain {result : Except ExtensionPackageError α} (h : Plain result) :
    tells extension result = false := by
  cases result with
  | ok answer => rfl
  | error error =>
    show decide (error.rolledBack? = some extension) = false
    rw [h error rfl]
    rfl

namespace Plain

theorem ok (answer : α) : Plain (.ok answer : Except ExtensionPackageError α) := by
  intro error h
  cases h

theorem error {error : ExtensionPackageError} (h : error.rolledBack? = none) :
    Plain (.error error : Except ExtensionPackageError α) := by
  intro found hfound
  cases hfound
  exact h

theorem bind {result : Except ExtensionPackageError α} {next : α → Except ExtensionPackageError β}
    (h : Plain result) (hnext : ∀ answer, Plain (next answer)) : Plain (result >>= next) := by
  cases result with
  | ok answer => exact hnext answer
  | error found => exact error (h found rfl)

theorem ensure {condition : Prop} [Decidable condition] {failure : ExtensionPackageError}
    (h : failure.rolledBack? = none) : Plain (Checked.ensure condition failure) := by
  unfold Checked.ensure
  split
  · exact ok ()
  · exact error h

theorem okOr {option : Option α} {failure : ExtensionPackageError}
    (h : failure.rolledBack? = none) : Plain (Checked.okOr option failure) := by
  cases option with
  | none => exact error h
  | some answer => exact ok answer

theorem mapError {ε : Type} {result : Except ε α} {failure : ε → ExtensionPackageError}
    (h : ∀ error, (failure error).rolledBack? = none) : Plain (result.mapError failure) := by
  cases result with
  | ok answer => exact ok answer
  | error found => exact error (h found)

theorem mapM {next : α → Except ExtensionPackageError β} (h : ∀ item, Plain (next item))
    (items : List α) : Plain (items.mapM next) := by
  induction items with
  | nil => exact ok []
  | cons item items ih =>
    rw [List.mapM_cons]
    exact (h item).bind fun _ => ih.bind fun _ => ok _

theorem forM {next : α → Except ExtensionPackageError PUnit} (h : ∀ item, Plain (next item))
    (items : List α) : Plain (items.forM next) := by
  induction items with
  | nil => exact ok ()
  | cons item items ih => exact (h item).bind fun _ => ih

end Plain

theorem plain_rejectExternalNative (package : LoadedPackage) :
    Plain (rejectExternalNative package) := by
  unfold rejectExternalNative
  split
  · exact .error rfl
  · exact .ok ()

variable (surroundings : Surroundings ν)

theorem plain_referencedAssetBlobs (package : LoadedPackage) :
    Plain (referencedAssetBlobs surroundings package) :=
  .mapM (fun _ => (Plain.okOr rfl).bind fun _ => .ok _) _

theorem plain_checkPredecessor (system : PackageSystem G) (manifest : PackageManifest) :
    Plain (checkPredecessor system manifest) := by
  unfold checkPredecessor
  split
  · exact (Plain.ensure rfl).bind fun _ => .ensure rfl
  · exact .ensure rfl

theorem plain_compileComponentAdapter (manager : InstallableExtensionManager G)
    (package : LoadedPackage) : Plain (manager.compileComponentAdapter package) := by
  unfold InstallableExtensionManager.compileComponentAdapter
  split
  · exact (Plain.okOr rfl).bind fun _ => (Plain.mapError fun _ => rfl).bind fun _ => .ok _
  · exact .ok none

theorem plain_validateDeclarativeUi (package : LoadedPackage) :
    Plain (validateDeclarativeUi surroundings package) := by
  unfold validateDeclarativeUi
  split
  · exact .ok none
  · exact .mapError fun _ => rfl

theorem plain_loadManaged [Platform] (manager : InstallableExtensionManager G)
    (source : PackageSource) : Plain (manager.loadManaged surroundings source) :=
  (Plain.mapError fun _ => rfl).bind fun package =>
    (plain_rejectExternalNative package).bind fun _ =>
      (plain_validateDeclarativeUi surroundings package).bind fun _ =>
        (plain_referencedAssetBlobs surroundings package).bind fun _ =>
          (Plain.ensure rfl).bind fun _ => (Plain.ensure rfl).bind fun _ =>
            (plain_compileComponentAdapter manager package).bind fun _ => .ok _

section installation

variable [Platform]

omit [Platform] in
theorem makes_checkLicensePolicy {manifest : ExtensionManifest}
    {ends : Except ExtensionPackageError α → Slice G → Prop} {next : Unit → Manages G α}
    (hrefused : ∀ error, error.rolledBack? = none → ends (.error error) v)
    (hnext : Makes extension v (next ()) ends) :
    Makes extension v (checkLicensePolicy manifest >>= next) ends := by
  refine Takes.bind (m := fun result w => w = v ∧ Plain result) ?_ ?_ ?_
  · refine Takes.reading_bind fun system _ state hstate => ⟨hstate, ?_⟩
    exact Plain.ensure rfl
  · rintro answer w ⟨rfl, -⟩
    exact hnext
  · rintro error w ⟨rfl, hplain⟩
    exact hrefused error (hplain error rfl)

omit [Platform] in
/-- What the preview of a package takes and tells. -/
theorem makes_previewManaged (managed : ManagedPackage G) (hid : managed.id = extension) :
    Makes extension v (previewManaged surroundings managed) fun result w => w = v ∧ Plain result ∧
      ∀ current, result = .ok current → current.isUpgrade = v.managed.isSome := by
  have hrefused : ∀ error : ExtensionPackageError, error.rolledBack? = none → v = v ∧
      Plain (.error error : Except ExtensionPackageError PackageInstallPreview) ∧
      ∀ current, (.error error : Except ExtensionPackageError PackageInstallPreview) = .ok current →
        current.isUpgrade = v.managed.isSome := by
    intro error h
    refine ⟨rfl, .error h, fun current hcurrent => ?_⟩
    cases hcurrent
  refine Takes.ofExcept_bind (fun error h => hrefused error (plain_rejectExternalNative _ error h))
    fun _ _ => ?_
  refine makes_checkLicensePolicy hrefused (Takes.reading_bind fun system hslice => ?_)
  refine Takes.ofExcept_bind (fun error h => hrefused error (plain_checkPredecessor _ _ error h))
    fun _ _ => ?_
  refine Takes.ofExcept_bind
    (fun error h => hrefused error (plain_referencedAssetBlobs _ _ error h)) fun assets _ => ?_
  refine .pure ⟨rfl, .ok _, fun current hcurrent => ?_⟩
  cases hcurrent
  subst hslice hid
  exact contains_eq_isSome ..

theorem makes_installLoadedInactive {managed : ManagedPackage G} (hid : managed.id = extension) :
    Makes extension v (installLoadedInactive managed) fun result w =>
      (∃ error, result = .error error ∧ error.rolledBack? = none ∧ w = v) ∨
      (result = .ok () ∧ v.view.package = none ∧ managed.Fits extension v.limits ∧
        w = (({ v with managed := some managed }).hosting managed).inState (some .validated)) := by
  subst hid
  have hrefused : ∀ error : ExtensionPackageError, error.rolledBack? = none →
      ∃ failure, (.error error : Except ExtensionPackageError Unit) = .error failure ∧
        failure.rolledBack? = none ∧ v = v :=
    fun error h => ⟨error, rfl, h, rfl⟩
  refine Takes.ofExcept_bind
    (fun error h => .inl (hrefused error (plain_rejectExternalNative _ error h))) fun _ _ => ?_
  refine makes_checkLicensePolicy (fun error h => .inl (hrefused error h))
    (Takes.reading_bind fun system _ => ?_)
  refine Takes.ensure_bind (fun _ => .inl (hrefused _ rfl)) fun _ => ?_
  refine Takes.bind (m := fun result w =>
    (∃ error, result = .error error ∧ error.rolledBack? = none ∧ w = v) ∨
    (result = .ok () ∧ v.view.package = none ∧ managed.Fits managed.id v.limits ∧
      w = (v.hosting managed).inState (some .validated))) ?_ ?_ ?_
  · intro system hslice
    subst hslice
    cases hinstall : system.host.install managed.manifest.toExtensionManifest
        (packageMetadata managed.package) with
    | error error =>
      rw [outcome_onHost_error hinstall]
      exact .inl ⟨_, rfl, rfl, rfl⟩
    | ok next =>
      obtain ⟨hnew, hvalid, hleads⟩ := Leads.install hinstall
      rw [outcome_onHost_ok hinstall]
      refine .inr ⟨rfl, hnew, ⟨rfl, hvalid⟩, ?_⟩
      unfold PackageSystem.slice Slice.hosting Slice.inState
      rw [show next.view managed.id = _ from hleads.view, hleads.spares.limits]
      rfl
  · rintro answer w (⟨error, herror, -⟩ | ⟨-, hnew, hfits, rfl⟩)
    · cases herror
    · refine (leaves_registerManagedAdapter managed).bind
        ((leaves_putPackage managed).weaken fun result w hw => ?_)
      exact .inr ⟨hw.1, hnew, hfits, hw.2⟩
  · rintro error w (⟨failure, heq, hplain, rfl⟩ | ⟨heq, -⟩)
    · cases heq
      exact .inl (hrefused _ hplain)
    · cases heq

end installation

/-- What a command is to one extension: a loaded package of it, a request about it, or none. -/
inductive Event (G : Type)
  | install (managed : ManagedPackage G)
  | restore (managed : ManagedPackage G) (decisions : List (Permission × PermissionDecision))
  | grantPermissionsAndActivate
  | denyPermissions
  | disable
  | enable
  | remove
  | setPermissionDecision (permission : Permission) (decision : PermissionDecision)
  | settleActivatingUpgrades
  | pass

/-- What the manager grants or denies of a package, whose required permissions are answered. -/
def ManagedPackage.answers (managed : ManagedPackage G) (decision : PermissionDecision) :
    List (Permission × PermissionDecision) :=
  (requiredPermissions managed.manifest.toExtensionManifest).map
    fun request => (request.permission, decision)

variable [Platform]

inductive Effect (extension : ExtensionId) : Event G → Bool → Slice G → Slice G → Prop
  /-- The command is not about the extension, or is refused. -/
  | passed {event : Event G} {v w : Slice G} : v.Fades w → Effect extension event false v w
  /-- The host has worked on an installed extension that is not managed. -/
  | foreign {v w : Slice G} : v.managed = none → w.managed = none → w.pending = v.pending →
      w.activating = v.activating → w.view.package.isSome → w.loading = v.loading →
      Effect extension .pass false v w
  | installed {managed : ManagedPackage G} {v w : Slice G} : v.view.package = none →
      managed.Fits extension v.limits → (({ v with managed := some managed }).hosting managed).Shifts w →
      Effect extension (.install managed) false v w
  | restored {managed : ManagedPackage G} {decisions : List (Permission × PermissionDecision)}
      {v w : Slice G} : v.view.package = none → managed.Fits extension v.limits →
      ((({ v with managed := some managed }).hosting managed).deciding
        (decideAll v.view.decisions decisions)).Shifts w →
      Effect extension (.restore managed decisions) false v w
  /-- A candidate waits for the approval of its permissions. -/
  | held {managed old : ManagedPackage G} {v : Slice G} : v.managed = some old →
      managed.id = extension → (pendingUpgrade v.view.decisions old managed).permissionsToApprove ≠ [] →
      Effect extension (.install managed) false v
        { v with pending := some (pendingUpgrade v.view.decisions old managed) }
  | upgraded {managed old : ManagedPackage G} {v w : Slice G}
      {result : Except ExtensionPackageError PackageInstallReport} : v.managed = some old →
      managed.id = extension → (pendingUpgrade v.view.decisions old managed).permissionsToApprove = [] →
      Commits extension (pendingUpgrade v.view.decisions old managed) { v with pending := none }
        result w →
      Effect extension (.install managed) (tells extension result) v w
  | approved {pending : PendingUpgrade G} {v w : Slice G} {report : PackageInstallReport} :
      v.pending = some pending → Commits extension pending { v with pending := none } (.ok report) w →
      Effect extension .grantPermissionsAndActivate false v w
  /-- The upgrade has failed, and its candidate is kept. -/
  | kept {pending : PendingUpgrade G} {v w : Slice G} {error : ExtensionPackageError} :
      v.pending = some pending → Commits extension pending { v with pending := none } (.error error) w →
      Effect extension .grantPermissionsAndActivate (error.rolledBack? = some extension) v
        { w with pending := some pending }
  | granted {managed : ManagedPackage G} {v w : Slice G} : v.pending = none →
      v.managed = some managed →
      (v.deciding (decideAll v.view.decisions (managed.answers .granted))).Shifts w →
      Effect extension .grantPermissionsAndActivate false v w
  | rejected {pending : PendingUpgrade G} {v : Slice G} : v.pending = some pending →
      Effect extension .denyPermissions false v { v with pending := none }
  | denied {managed : ManagedPackage G} {v : Slice G} : v.pending = none → v.managed = some managed →
      Effect extension .denyPermissions false v
        ((v.deciding (decideAll v.view.decisions (managed.answers .denied))).inState
          (some .disabled))
  | disabled {v : Slice G} : v.managed.isSome → Effect extension .disable false v
      (({ v with pending := none, activating := none }).inState (some .disabled))
  | enabled {v w : Slice G} : v.managed.isSome → v.Shifts w → Effect extension .enable false v w
  | removed {v : Slice G} : v.managed.isSome → Effect extension .remove false v
      { v with managed := none, pending := none, activating := none
               view := ⟨none, fun _ => .undecided, none⟩ }
  | decided {permission : Permission} {decision : PermissionDecision} {v : Slice G} :
      v.managed.isSome → Effect extension (.setPermissionDecision permission decision) false v
        (v.deciding (decideAll v.view.decisions [(permission, decision)]))
  /-- A required permission has been taken from a started extension. -/
  | revoked {permission : Permission} {decision : PermissionDecision} {v : Slice G} :
      v.managed.isSome → decision ≠ .granted →
      Effect extension (.setPermissionDecision permission decision) false v
        ((({ v with activating := none }).deciding
          (decideAll v.view.decisions [(permission, decision)])).inState (some .disabled))
  | settled {v w : Slice G} : v.activating.isSome → ({ v with activating := none }).Fades w →
      Effect extension .settleActivatingUpgrades false v w
  | rolledBack {activating : ActivatingUpgrade G} {v w : Slice G} : v.activating = some activating →
      (({ v with activating := none }).rolledBack activating.old
        activating.permissionSnapshot).Shifts w →
      Effect extension .settleActivatingUpgrades true v w

end KeyReader.Packages
