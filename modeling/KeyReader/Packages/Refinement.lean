import KeyReader.Packages.Effects

/-! Each command of the application has on each slice one of the effects of `Effect`. -/

namespace KeyReader.Packages

open Option

open Attempt hiding ofExcept
open Extension ExtensionHost OrderedMap

variable {G ν α : Type} [Platform] {extension : ExtensionId} {v w : Slice G}

omit [Platform] in
theorem Slice.Fades.shifts (h : v.Fades w) (hinstalled : v.Installed) : v.Shifts w := by
  obtain ⟨state, hfades, rfl⟩ := h
  obtain ⟨before, hbefore, hremoved⟩ := hinstalled
  rcases hfades with rfl | ⟨-, rfl | rfl⟩
  · rw [hbefore]
    exact .of_inState hremoved
  all_goals exact .of_inState (by decide)

omit [Platform] in
theorem Slice.Installed.deciding (h : v.Installed)
    (decisions : Permission → PermissionDecision) : (v.deciding decisions).Installed := h

structure Ends (extension : ExtensionId) (event : Event G) (v : Slice G)
    (result : Except ExtensionPackageError α) (w : Slice G) : Prop where
  effect : Effect extension event (tells extension result) v w
  about : ∀ other, tells other result = true → other = extension

namespace Ends

variable {event : Event G}

theorem ok {answer : α} (h : Effect extension event false v w) :
    Ends extension event v (.ok answer) w := by
  refine ⟨h, fun other hother => ?_⟩
  cases hother

theorem failed {error : ExtensionPackageError} (h : Effect extension event false v w)
    (hplain : error.rolledBack? = none) :
    Ends extension event v (.error error : Except _ α) w := by
  have hplain : Plain (.error error : Except _ α) := .error hplain
  refine ⟨tells_of_plain hplain ▸ h, fun other hother => ?_⟩
  rw [tells_of_plain hplain] at hother
  cases hother

theorem refused {error : ExtensionPackageError} (h : error.rolledBack? = none) :
    Ends extension event v (.error error : Except _ α) v :=
  failed (.passed (.refl v)) h

end Ends

theorem Commits.about {pending : PendingUpgrade G}
    {result : Except ExtensionPackageError PackageInstallReport}
    (h : Commits extension pending v result w) (other : ExtensionId)
    (htells : tells other result = true) : other = extension := by
  cases h with
  | refused hplain =>
    rw [tells_of_plain (.error hplain)] at htells
    cases htells
  | undone _ hother _ => exact hother other (of_decide_eq_true htells)
  | started | settled => cases htells

theorem Slice.Sound.withoutPending (h : v.Sound extension) :
    ({ v with pending := none }).Sound extension where
  fits := h.fits
  hosted := h.hosted
  installed := h.installed
  candidate := by
    intro pending hpending
    cases hpending
  old := h.old

variable [NativeExtension G] (surroundings : Surroundings ν)

def installManaged (managed : ManagedPackage G) (reviewed : PackageInstallPreview) :
    Manages G PackageInstallReport := do
  let current ← previewManaged surroundings managed
  ensure (current = reviewed) (.packageChangedAfterReview current.extension)
  if current.isUpgrade = true then upgradeLoaded managed else installLoaded managed

theorem outcome_installReviewed (source : PackageSource) (reviewed : PackageInstallPreview)
    (system : PackageSystem G) :
    (installReviewed surroundings source reviewed).outcome system =
      match system.manager.loadManaged surroundings source with
      | .ok managed => (installManaged surroundings managed reviewed).outcome system
      | .error error => (.error error, system) := by
  unfold installReviewed
  rw [outcome_bind]
  have hload : (loadManaged surroundings source).outcome system =
      (system.manager.loadManaged surroundings source, system) := rfl
  rw [hload]
  cases system.manager.loadManaged surroundings source <;> rfl

variable {managed : ManagedPackage G}

section

variable (hid : managed.id = extension)

include hid

theorem makes_installLoaded : Makes extension v (installLoaded managed)
      (Ends extension (.install managed) v) := by
  subst hid
  refine (makes_installLoadedInactive rfl).bind ?_ ?_
  · rintro answer w (⟨error, herror, -⟩ | ⟨-, hnew, hfits, rfl⟩)
    · cases herror
    · refine (makes_activationReport rfl ⟨.validated, rfl, by decide⟩).bind fun attempt w hw => ?_
      exact .pure (.ok (.installed hnew hfits hw.after))
  · rintro error w (⟨failure, heq, hplain, rfl⟩ | ⟨heq, -⟩)
    · cases heq
      exact .refused hplain
    · cases heq

theorem makes_upgradeLoaded (hsound : v.Sound extension) : Makes extension v (upgradeLoaded managed)
      (Ends extension (.install managed) v) := by
  subst hid
  refine Takes.ofExcept_bind
    (fun error h => .refused (plain_rejectExternalNative _ error h)) fun _ _ => ?_
  refine makes_checkLicensePolicy (fun error h => .refused h)
    (Takes.reading_bind fun system hslice => ?_)
  refine Takes.okOr_bind (fun _ => .refused rfl) fun old hold => ?_
  refine Takes.ensure_bind (fun _ => .refused rfl) fun _ => ?_
  refine Takes.ensure_bind (fun _ => .refused rfl) fun _ => ?_
  have hmanaged : v.managed = some old := hslice ▸ hold
  have hdecisions : system.host.permissionDecision managed.id = v.view.decisions := hslice ▸ rfl
  refine leaves_dropPendingUpgrade.bind ?_
  dsimp only [id]
  rw [hdecisions]
  split
  · rename_i hheld
    exact (leaves_putPendingUpgrade _).bind (.pure (.ok (.held hmanaged rfl hheld)))
  · rename_i hheld
    have hcandidate : (pendingUpgrade v.view.decisions old managed).candidate.id = managed.id := rfl
    refine (makes_commitUpgrade hcandidate hsound.withoutPending rfl).weaken fun result w hw => ?_
    exact ⟨.upgraded hmanaged rfl (Decidable.not_not.mp hheld) hw, hw.about⟩

theorem makes_installManaged (hsound : v.Sound extension) (reviewed : PackageInstallPreview) :
    Makes extension v (installManaged surroundings managed reviewed)
      (Ends extension (.install managed) v) := by
  refine (makes_previewManaged surroundings managed hid).bind ?_ ?_
  · rintro current w ⟨rfl, -⟩
    refine Takes.ensure_bind (fun _ => .refused rfl) fun _ => ?_
    split
    · exact makes_upgradeLoaded hid hsound
    · exact makes_installLoaded hid
  · rintro error w ⟨rfl, hplain, -⟩
    exact .refused (hplain error rfl)

end

omit [Platform] [NativeExtension G] in
theorem makes_requireManaged {ends : Except ExtensionPackageError α → Slice G → Prop}
    {next : Unit → Manages G α}
    (hrefused : ∀ error, error.rolledBack? = none → ends (.error error) v)
    (hnext : v.managed.isSome → Makes extension v (next ()) ends) :
    Makes extension v (requireManaged extension >>= next) ends := by
  refine Takes.bind (m := fun result w => w = v ∧ Plain result ∧
    (result = .ok () → v.managed.isSome)) ?_ ?_ ?_
  · intro system hslice
    subst hslice
    have houtcome : (requireManaged extension).outcome system =
        (Checked.ensure (system.manager.packages.contains extension = true) (.notManaged extension),
          system) := rfl
    rw [houtcome]
    refine ⟨rfl, Plain.ensure rfl, fun hok => ?_⟩
    rw [Checked.ensure_eq_ok, contains_eq_isSome] at hok
    exact hok
  · rintro answer w ⟨rfl, -, hmanaged⟩
    exact hnext (hmanaged rfl)
  · rintro error w ⟨rfl, hplain, -⟩
    exact hrefused error (hplain error rfl)

section

variable (hsound : v.Sound extension)

include hsound

theorem makes_grantPermissionsAndActivate :
    Makes extension v (grantPermissionsAndActivate extension)
      (Ends extension .grantPermissionsAndActivate v) := by
  refine makes_requireManaged (fun error h => .refused h) fun hmanaged => ?_
  obtain ⟨managed, hmanaged⟩ := isSome_iff_exists.mp hmanaged
  refine Takes.reading_bind fun system hslice => ?_
  split
  · rename_i pending hpending
    have hpending : v.pending = some pending := hslice ▸ hpending
    have hcandidate : pending.candidate.id = extension := (hsound.candidate pending hpending).1
    refine leaves_dropPendingUpgrade.bind
      ((makes_commitUpgrade hcandidate hsound.withoutPending rfl).caught_bind fun result w hw => ?_)
    split
    · exact .pure (.ok (.approved hpending hw))
    · exact (leaves_putPendingUpgrade pending).bind (.throw ⟨.kept hpending hw, hw.about⟩)
  · rename_i hpending
    have hpending : v.pending = none := hslice ▸ hpending
    refine (makes_expectManaged hmanaged).bind ((leaves_setPermissionDecisions _).bind ?_)
    have hinstalled := hsound.installed (hmanaged ▸ rfl)
    exact Answers.bind (makes_activationReport hmanaged (hinstalled.deciding _))
      fun attempt w hw => .pure (.ok (.granted hpending hmanaged hw))

theorem makes_denyPermissions :
    Makes extension v (denyPermissions extension) (Ends extension .denyPermissions v) := by
  refine makes_requireManaged (fun error h => .refused h) fun hmanaged => ?_
  obtain ⟨managed, hmanaged⟩ := isSome_iff_exists.mp hmanaged
  refine Takes.reading_bind fun system hslice => leaves_dropPendingUpgrade.bind ?_
  have hcontains : system.manager.pendingUpgrades.contains extension = v.pending.isSome :=
    hslice ▸ contains_eq_isSome ..
  rw [hcontains]
  split
  · rename_i hsome
    obtain ⟨pending, hpending⟩ := isSome_iff_exists.mp hsome
    exact .pure (.ok (.rejected hpending))
  · rename_i hnone
    have hpending : v.pending = none := not_isSome_iff_eq_none.mp hnone
    have hwithout : { v with pending := none } = v := by rw [← hpending]
    have hinstalled := hsound.installed (hmanaged ▸ rfl)
    rw [hwithout]
    refine (makes_expectManaged hmanaged).bind ((leaves_setPermissionDecisions _).bind
      ((leaves_unload (hinstalled.deciding _)).weaken fun result w hw => ?_))
    obtain ⟨rfl, rfl⟩ := hw
    exact .ok (.denied hpending hmanaged)

theorem makes_disable : Makes extension v (disable extension) (Ends extension .disable v) := by
  refine makes_requireManaged (fun error h => .refused h) fun hmanaged => ?_
  have hinstalled := hsound.installed hmanaged
  refine leaves_dropPendingUpgrade.bind (leaves_dropActivatingUpgrade.bind
    ((leaves_unload (v := { v with pending := none, activating := none }) hinstalled).weaken
      fun result w hw => ?_))
  obtain ⟨rfl, rfl⟩ := hw
  exact .ok (.disabled hmanaged)

theorem makes_enable : Makes extension v (enable extension) (Ends extension .enable v) := by
  refine makes_requireManaged (fun error h => .refused h) fun hmanaged => ?_
  have hinstalled := hsound.installed hmanaged
  obtain ⟨managed, hfound⟩ := isSome_iff_exists.mp hmanaged
  refine (makes_expectManaged hfound).bind (Takes.reading_bind fun system _ => ?_)
  dsimp only
  split
  · exact .pure (.ok (.enabled hmanaged (.refl hinstalled)))
  · exact (makes_activationReport hfound hinstalled).bind
      fun attempt w hw => .pure (.ok (.enabled hmanaged hw))

theorem makes_setPermissionDecision (permission : Permission) (decision : PermissionDecision) :
    Makes extension v (setPermissionDecision extension permission decision)
      (Ends extension (.setPermissionDecision permission decision) v) := by
  refine Takes.reading_bind fun system hslice => ?_
  refine Takes.okOr_bind (fun _ => .refused rfl) fun managed hmanaged => ?_
  have hmanaged : v.managed.isSome := by
    rw [← hslice, PackageSystem.slice_managed, hmanaged]
    rfl
  have hinstalled := hsound.installed hmanaged
  refine Takes.okOr_bind (fun _ => .refused rfl) fun request _ => ?_
  have hwritten : Leaves extension v (changeHost fun host =>
      host.setPermissionDecision extension permission decision) ()
      (v.deciding (decideAll v.view.decisions [(permission, decision)])) :=
    leaves_setPermissionDecisions [(permission, decision)]
  refine hwritten.bind (Takes.reading_bind fun _ _ => ?_)
  split
  · rename_i hrevoked
    have hinstalled : ({ v.deciding (decideAll v.view.decisions [(permission, decision)]) with
        activating := none }).Installed := hinstalled
    refine leaves_dropActivatingUpgrade.bind ((leaves_unload hinstalled).weaken fun result w hw => ?_)
    obtain ⟨rfl, rfl⟩ := hw
    exact .ok (.revoked hmanaged hrevoked.2.1)
  · exact .pure (.ok (.decided hmanaged))

end

theorem leaves_remove (h : v.Installed) : Leaves extension v
    (onHost fun host : ExtensionHost G => host.remove extension) ()
    { v with view := ⟨none, fun _ => .undecided, none⟩ } := by
  intro system hslice
  subst hslice
  obtain ⟨state, hstate, hremoved⟩ := h
  obtain ⟨next, hnext⟩ := Leads.exists_remove hstate hremoved
  rw [outcome_onHost_ok hnext]
  refine ⟨rfl, ?_⟩
  unfold PackageSystem.slice
  rw [(Leads.remove hnext).view, (Leads.remove hnext).spares.limits]

theorem makes_remove (hsound : v.Sound extension) :
    Makes extension v (remove extension) (Ends extension .remove v) := by
  refine makes_requireManaged (fun error h => .refused h) fun hmanaged => ?_
  have hinstalled := hsound.installed hmanaged
  refine leaves_dropPendingUpgrade.bind (leaves_dropActivatingUpgrade.bind
    ((leaves_remove (v := { v with pending := none, activating := none }) hinstalled).bind
      (leaves_removeWasmAdapter.bind (leaves_dropPackage.weaken fun result w hw => ?_))))
  obtain ⟨rfl, rfl⟩ := hw
  exact .ok (.removed hmanaged)

theorem makes_settleUpgrade (hsound : v.Sound extension) :
    Makes extension v (settleUpgrade extension)
      (Ends extension .settleActivatingUpgrades v) := by
  refine Takes.reading_bind fun system hslice => ?_
  refine Takes.okOr_bind (fun _ => .refused rfl) fun activating hactivating => ?_
  have hactivating : v.activating = some activating := hslice ▸ hactivating
  obtain ⟨hfits, -, hmanaged⟩ := hsound.old activating hactivating
  have hinstalled := hsound.installed hmanaged
  obtain ⟨managed, hfound⟩ := isSome_iff_exists.mp hmanaged
  refine leaves_dropActivatingUpgrade.bind (Takes.reading_bind fun host _ => ?_)
  split
  · refine (makes_expectManaged (v := { v with activating := none }) hfound).bind (.pure (.ok ?_))
    exact .settled (hactivating ▸ rfl) (.refl _)
  · refine (makes_failUpgrade (v := { v with activating := none }) hinstalled hfits.id hfits.valid
      activating.oldLifecycle _).weaken ?_
    rintro result w ⟨error, rfl, htold, hw⟩
    have htells : tells extension (.error error : Except _ PackageInstallReport) = true := by
      simp [tells, htold]
    refine ⟨htells ▸ .rolledBack hactivating hw, fun other hother => ?_⟩
    exact some.inj ((of_decide_eq_true hother).symm.trans htold)

section beside

variable {system middle : PackageSystem G}

/-- The computation leaves the other extensions alone, from one state. -/
abbrev Stays (extension : ExtensionId) (system middle : PackageSystem G) (operation : Manages G α) :
    Prop :=
  Takes id middle operation fun _ next => Beside extension system next

omit [Platform] [NativeExtension G] in
theorem Apart.stays {operation : Manages G α} (h : Apart extension operation)
    (hbefore : Beside extension system middle) : Stays extension system middle operation :=
  fun state hstate => Beside.trans _ _ _ hbefore (hstate ▸ h state)

theorem stays_commitUpgrade {pending : PendingUpgrade G}
    (hold : ∀ old, middle.manager.packages[pending.candidate.id]? = some old →
      old.id = pending.candidate.id)
    (hbefore : Beside pending.candidate.id system middle) :
    Stays pending.candidate.id system middle (commitUpgrade pending) := by
  refine Takes.reading_bind fun _ hread => Takes.okOr_bind (fun _ => hbefore) fun old hfound => ?_
  refine Takes.okOr_bind (fun _ => hbefore) fun oldLifecycle _ =>
    Takes.ensure_bind (fun _ => hbefore) fun _ => ?_
  have hid : old.id = pending.candidate.id := hold old (hread ▸ hfound)
  refine Apart.stays ?_ hbefore
  refine Apart.unload.bind fun _ => Apart.removeWasmAdapter.bind fun _ => Apart.bind ?_ fun _ =>
    (Apart.setPermissionDecisions _).bind fun _ => (Apart.replace rfl).caught.bind fun result => ?_
  · refine Apart.changeHost fun host => ?_
    split
    · exact (Leads.clearPermissionDecisions host).spares
    · exact .refl host
  · split
    · refine (Apart.restorePermissionSnapshot _).bind fun _ => Apart.bind (Apart.caught
        ((Apart.registerManagedAdapter old).bind fun _ => Apart.restoreLifecycle _)) fun outcome => ?_
      split <;> exact Apart.throw _
    · exact (Apart.registerManagedAdapter _).bind fun _ => (Apart.putPackage _).bind fun _ =>
        Apart.dropPendingUpgrade.bind fun _ => Apart.finishUpgrade hid _ _

omit [Platform] [NativeExtension G] in
/-- A candidate is committed after the pending upgrade has been dropped. -/
theorem stays_dropPendingUpgrade {next : Unit → Manages G α} {middle : PackageSystem G}
    (hbefore : Beside extension system middle)
    (hnext : ∀ dropped : PackageSystem G, Beside extension system dropped →
      dropped.manager.packages = middle.manager.packages → Stays extension system dropped (next ())) :
    Stays extension system middle (dropPendingUpgrade extension >>= next) := by
  intro state hstate
  obtain rfl : state = middle := hstate
  exact hnext _ (hbefore.trans _ _ _ (Apart.dropPendingUpgrade state)) rfl _ rfl

omit [Platform] [NativeExtension G] in
theorem keeps_checkLicensePolicy (manifest : ExtensionManifest) :
    Keeps id (checkLicensePolicy manifest : Manages G Unit) :=
  Keeps.bind (fun _ => rfl) fun _ => Keeps.ofExcept _

omit [Platform] [NativeExtension G] in
theorem keeps_previewManaged (managed : ManagedPackage G) :
    Keeps id (previewManaged surroundings managed) :=
  (Keeps.ofExcept _).bind fun _ => (keeps_checkLicensePolicy _).bind fun _ =>
    Keeps.bind (fun _ => rfl) fun _ => (Keeps.ofExcept _).bind fun _ =>
      (Keeps.ofExcept _).bind fun _ => Keeps.pure _

omit [Platform] [NativeExtension G] in
theorem keeps_requireManaged : Keeps id (requireManaged extension : Manages G Unit) :=
  Keeps.bind (fun _ => rfl) fun _ => Keeps.ofExcept _

theorem stays_upgradeLoaded (hid : managed.id = extension)
    (hsound : (system.slice extension).Sound extension) :
    Stays extension system system (upgradeLoaded managed) := by
  subst hid
  have hrefused : Beside managed.id system system := .refl system
  refine Takes.ofExcept_bind (fun _ _ => hrefused) fun _ _ =>
    Takes.keeps_bind (keeps_checkLicensePolicy _) (fun _ => hrefused) fun _ =>
      Takes.reading_bind fun _ _ => Takes.okOr_bind (fun _ => hrefused) fun old _ =>
        Takes.ensure_bind (fun _ => hrefused) fun _ => Takes.ensure_bind (fun _ => hrefused) fun _ =>
          stays_dropPendingUpgrade hrefused fun dropped hbeside hpackages => ?_
  dsimp only
  split
  · exact Apart.stays ((Apart.putPendingUpgrade _).bind fun _ => Apart.pure _) hbeside
  · refine stays_commitUpgrade (fun old hold => (hsound.fits old ?_).id) hbeside
    rwa [PackageSystem.slice_managed, ← hpackages]

omit [NativeExtension G] in
theorem Apart.installLoadedInactive (hid : managed.id = extension) :
    Apart extension (installLoadedInactive managed) := by
  subst hid
  exact (Apart.ofExcept _).bind fun _ => Apart.bind (Apart.of_keeps (keeps_checkLicensePolicy _))
    fun _ => Apart.reading_bind fun _ => (Apart.ofExcept _).bind fun _ =>
      (Apart.onHost fun _ _ h => (Leads.install h).2.2.spares).bind fun _ =>
        (Apart.registerManagedAdapter managed).bind fun _ => Apart.putPackage managed

theorem stays_installManaged (hid : managed.id = extension)
    (hsound : (system.slice extension).Sound extension) (reviewed : PackageInstallPreview) :
    Stays extension system system (installManaged surroundings managed reviewed) := by
  have hrefused : Beside extension system system := .refl system
  refine Takes.keeps_bind (keeps_previewManaged surroundings managed) (fun _ => hrefused)
    fun current => Takes.ensure_bind (fun _ => hrefused) fun _ => ?_
  split
  · exact stays_upgradeLoaded hid hsound
  · subst hid
    exact Apart.stays ((Apart.installLoadedInactive rfl).bind fun _ =>
      Apart.activationReport.bind fun _ => Apart.pure _) hrefused

theorem stays_grantPermissionsAndActivate (hsound : (system.slice extension).Sound extension) :
    Stays extension system system (grantPermissionsAndActivate extension) := by
  have hrefused : Beside extension system system := .refl system
  refine Takes.keeps_bind keeps_requireManaged (fun _ => hrefused) fun _ =>
    Takes.reading_bind fun state hread => ?_
  split
  · rename_i pending hpending
    have hid : pending.candidate.id = extension := (hsound.candidate pending (hread ▸ hpending)).1
    refine stays_dropPendingUpgrade hrefused fun dropped hbeside hpackages => ?_
    subst hid
    have hcommit : Stays pending.candidate.id system dropped (commitUpgrade pending) := by
      refine stays_commitUpgrade (fun old hold => (hsound.fits old ?_).id) hbeside
      rwa [PackageSystem.slice_managed, ← hpackages]
    refine hcommit.caught_bind fun result next hnext => ?_
    split
    · exact Takes.pure hnext
    · exact Apart.stays ((Apart.putPendingUpgrade pending).bind fun _ => Apart.throw _) hnext
  · exact Apart.stays ((Apart.expectManaged _).bind fun _ =>
      (Apart.setPermissionDecisions _).bind fun _ =>
        Apart.activationReport.bind fun _ => Apart.pure _) hrefused

theorem Apart.denyPermissions : Apart extension (denyPermissions extension : Manages G Unit) := by
  refine Apart.requireManaged.bind fun _ => Apart.reading_bind fun _ =>
    Apart.dropPendingUpgrade.bind fun _ => ?_
  split
  · exact Apart.pure _
  · exact (Apart.expectManaged _).bind fun _ =>
      (Apart.setPermissionDecisions _).bind fun _ => Apart.unload

theorem Apart.disable : Apart extension (disable extension : Manages G Unit) :=
  Apart.requireManaged.bind fun _ => Apart.dropPendingUpgrade.bind fun _ =>
    Apart.dropActivatingUpgrade.bind fun _ => Apart.unload

theorem Apart.enable : Apart extension (enable extension : Manages G _) := by
  refine Apart.requireManaged.bind fun _ => (Apart.expectManaged _).bind fun _ =>
    Apart.reading_bind fun _ => ?_
  dsimp only
  split
  · exact Apart.pure _
  · exact Apart.activationReport.bind fun _ => Apart.pure _

theorem Apart.remove : Apart extension (remove extension : Manages G Unit) :=
  Apart.requireManaged.bind fun _ => Apart.dropPendingUpgrade.bind fun _ =>
    Apart.dropActivatingUpgrade.bind fun _ =>
      (Apart.onHost fun _ _ h => (Leads.remove h).spares).bind fun _ =>
        Apart.removeWasmAdapter.bind fun _ => Apart.dropPackage

theorem Apart.setPermissionDecision (permission : Permission) (decision : PermissionDecision) :
    Apart extension (setPermissionDecision extension permission decision : Manages G Unit) := by
  refine Apart.reading_bind fun _ => (Apart.ofExcept _).bind fun _ => (Apart.ofExcept _).bind fun _ =>
    Apart.bind (Apart.changeHost fun host => (Leads.setPermissionDecision host ..).spares) fun _ =>
      Apart.reading_bind fun _ => ?_
  split
  · exact Apart.dropActivatingUpgrade.bind fun _ => Apart.unload
  · exact Apart.pure _

theorem stays_settleUpgrade (hsound : (system.slice extension).Sound extension) :
    Stays extension system system (settleUpgrade extension) := by
  have hrefused : Beside extension system system := .refl system
  refine Takes.reading_bind fun state hread => Takes.okOr_bind (fun _ => hrefused)
    fun activating hactivating => ?_
  have hid : activating.old.id = extension := (hsound.old activating (hread ▸ hactivating)).1.id
  refine Apart.stays (Apart.dropActivatingUpgrade.bind fun _ => Apart.reading_bind fun _ => ?_)
    hrefused
  split
  · exact (Apart.expectManaged _).bind fun _ => Apart.pure _
  · exact Apart.failUpgrade hid _ _ _

end beside

end KeyReader.Packages
