import KeyReader.Packages.Refinement

/-! Every step of a session, and every entry that is restored at the start, has on each slice one of
the effects of `Effect`; sound slices stay sound. -/

namespace KeyReader.Packages

open List Option Bool

open Attempt hiding ofExcept
open Extension Std OrderedMap

variable {G ν : Type} [Platform] {extension : ExtensionId} {v w u : Slice G}

namespace Slice.Sound

theorem of_package {managed : ManagedPackage G} (hshifts : v.Shifts w)
    (hmanaged : v.managed = some managed) (hfits : managed.Fits extension v.limits)
    (hpackage : v.view.package =
      some (managed.manifest.toExtensionManifest, packageMetadata managed.package))
    (hpending : ∀ pending, v.pending = some pending → pending.candidate.id = extension)
    (hactivating : ∀ activating, v.activating = some activating →
      activating.old.Fits extension v.limits ∧ activating.oldLifecycle = .active) :
    w.Sound extension := by
  obtain ⟨state, hremoved, rfl⟩ := hshifts
  have hsome : (v.inState (some state)).managed.isSome := by
    rw [Slice.inState_managed, hmanaged]
    rfl
  refine ⟨fun found hfound => ?_, fun found hfound => ?_, fun _ => ⟨state, rfl, hremoved⟩,
    fun pending h => ⟨hpending pending h, hsome⟩, fun activating h => ?_⟩
  · cases hmanaged.symm.trans hfound
    exact hfits
  · cases hmanaged.symm.trans hfound
    exact hpackage
  · exact ⟨(hactivating activating h).1, (hactivating activating h).2, hsome⟩

theorem of_shifts (h : v.Sound extension) (hlimits : w.limits = v.limits)
    (hmanaged : w.managed = v.managed) (hpackage : w.view.package = v.view.package)
    (hinstalled : w.managed.isSome → w.Installed)
    (hpending : ∀ pending, w.pending = some pending → v.pending = some pending)
    (hactivating : ∀ activating, w.activating = some activating → v.activating = some activating) :
    w.Sound extension := by
  refine ⟨fun managed hfound => ?_, fun managed hfound => ?_, hinstalled, fun pending hfound => ?_,
    fun activating hfound => ?_⟩
  · rw [hlimits]
    exact h.fits managed (hmanaged ▸ hfound)
  · rw [hpackage]
    exact h.hosted managed (hmanaged ▸ hfound)
  · rw [hmanaged]
    exact h.candidate pending (hpending pending hfound)
  · rw [hlimits, hmanaged]
    exact h.old activating (hactivating activating hfound)

theorem fades (h : v.Sound extension) (hfades : v.Fades w) : w.Sound extension := by
  refine h.of_shifts ?_ ?_ ?_ (fun hmanaged => ?_) (fun pending => ?_) fun activating => ?_
  all_goals obtain ⟨state, hstate, rfl⟩ := hfades
  · rfl
  · rfl
  · rfl
  · exact (Slice.Fades.shifts ⟨state, hstate, rfl⟩ (h.installed hmanaged)).installed
  · exact id
  · exact id

theorem withoutActivating (h : v.Sound extension) :
    ({ v with activating := none }).Sound extension := by
  refine h.of_shifts rfl rfl rfl h.installed (fun _ => id) fun _ hactivating => ?_
  cases hactivating

end Slice.Sound

theorem Commits.sound {pending : PendingUpgrade G}
    {result : Except ExtensionPackageError PackageInstallReport}
    (h : Commits extension pending v result w) (hsound : v.Sound extension) :
    w.Sound extension := by
  cases h with
  | refused => exact hsound
  | undone _ _ hshifts =>
    have hinstalled := hshifts.installed
    obtain ⟨state, hremoved, rfl⟩ := hshifts
    exact hsound.of_shifts rfl rfl rfl (fun _ => hinstalled) (fun _ => id) fun _ => id
  | @started old report w hmanaged _ hfits hshifts =>
    refine .of_package hshifts rfl hfits rfl (fun _ hfound => ?_) fun activating hfound => ?_
    · cases hfound
    · cases hfound
      exact ⟨hsound.fits old hmanaged, rfl⟩
  | settled hmanaged hfits hshifts =>
    refine .of_package hshifts rfl hfits rfl (fun _ hfound => ?_) fun activating hfound => ?_
    · cases hfound
    · exact ⟨(hsound.old activating hfound).1, (hsound.old activating hfound).2.1⟩

theorem Commits.managed {pending : PendingUpgrade G} {error : ExtensionPackageError}
    (h : Commits extension pending v (.error error) w) : w.managed = v.managed := by
  cases h with
  | refused => rfl
  | undone _ _ hshifts =>
    obtain ⟨state, -, rfl⟩ := hshifts
    rfl

/-- Sound slices stay sound. -/
theorem Effect.sound {event : Event G} {told : Bool} (h : Effect extension event told v w)
    (hsound : v.Sound extension) : w.Sound extension := by
  cases h with
  | passed hfades => exact hsound.fades hfades
  | foreign hunmanaged hmanaged hpending hactivating =>
    refine ⟨fun found hfound => ?_, fun found hfound => ?_, fun hsome => ?_, fun pending h => ?_,
      fun activating h => ?_⟩
    · cases hmanaged.symm.trans hfound
    · cases hmanaged.symm.trans hfound
    · cases hmanaged ▸ hsome
    · cases hunmanaged ▸ (hsound.candidate pending (hpending ▸ h)).2
    · cases hunmanaged ▸ (hsound.old activating (hactivating ▸ h)).2.2
  | installed _ hfits hshifts | restored _ hfits hshifts =>
    refine .of_package hshifts rfl hfits rfl (fun pending h => (hsound.candidate pending h).1)
      fun activating h => ?_
    exact ⟨(hsound.old activating h).1, (hsound.old activating h).2.1⟩
  | held hmanaged hid _ =>
    refine ⟨hsound.fits, hsound.hosted, hsound.installed, fun pending h => ?_, hsound.old⟩
    cases h
    exact ⟨hid, hmanaged ▸ rfl⟩
  | upgraded _ _ _ hcommits | approved _ hcommits => exact hcommits.sound hsound.withoutPending
  | @kept pending _ w _ hpending hcommits =>
    have hrest := hcommits.sound hsound.withoutPending
    refine ⟨hrest.fits, hrest.hosted, hrest.installed, fun found h => ?_, hrest.old⟩
    cases h
    refine ⟨(hsound.candidate pending hpending).1, ?_⟩
    rw [hcommits.managed]
    exact (hsound.candidate pending hpending).2
  | granted _ _ hshifts =>
    have hinstalled := hshifts.installed
    obtain ⟨state, -, rfl⟩ := hshifts
    exact hsound.of_shifts rfl rfl rfl (fun _ => hinstalled) (fun _ => id) fun _ => id
  | rejected => exact hsound.withoutPending
  | denied =>
    exact hsound.of_shifts rfl rfl rfl (fun _ => .inState (by decide)) (fun _ => id) fun _ => id
  | disabled =>
    refine hsound.of_shifts rfl rfl rfl (fun _ => .inState (by decide)) (fun _ h => ?_) fun _ h => ?_
    · cases h
    · cases h
  | enabled _ hshifts =>
    have hinstalled := hshifts.installed
    obtain ⟨state, -, rfl⟩ := hshifts
    exact hsound.of_shifts rfl rfl rfl (fun _ => hinstalled) (fun _ => id) fun _ => id
  | removed =>
    refine ⟨fun _ h => ?_, fun _ h => ?_, fun h => ?_, fun _ h => ?_, fun _ h => ?_⟩ <;> cases h
  | decided =>
    exact hsound.of_shifts rfl rfl rfl hsound.installed (fun _ => id) fun _ => id
  | revoked =>
    refine hsound.of_shifts rfl rfl rfl (fun _ => .inState (by decide)) (fun _ => id) fun _ h => ?_
    cases h
  | settled _ hfades =>
    exact hsound.withoutActivating.fades hfades
  | rolledBack hactivating hshifts =>
    obtain ⟨hfits, -, -⟩ := hsound.old _ hactivating
    refine .of_package hshifts rfl hfits rfl (fun pending h => (hsound.candidate pending h).1)
      fun activating h => ?_
    cases h

namespace Effect

theorem after_fades {told : Bool} (hfades : v.Fades w)
    (h : Effect extension .settleActivatingUpgrades told w u) :
    Effect extension .settleActivatingUpgrades told v u := by
  obtain ⟨state, hstate, rfl⟩ := hfades
  cases h with
  | passed h => exact .passed (Slice.Fades.trans ⟨state, hstate, rfl⟩ h)
  | settled hactivating h =>
    exact .settled hactivating (Slice.Fades.trans ⟨state, hstate, rfl⟩ h)
  | rolledBack hactivating h =>
    obtain ⟨next, hremoved, rfl⟩ := h
    exact .rolledBack hactivating ⟨next, hremoved, rfl⟩

theorem fades {told : Bool} (h : Effect extension .settleActivatingUpgrades told v w)
    (hfades : w.Fades u) : Effect extension .settleActivatingUpgrades told v u := by
  cases h with
  | passed h => exact .passed (h.trans hfades)
  | settled hactivating h => exact .settled hactivating (h.trans hfades)
  | rolledBack hactivating h =>
    exact .rolledBack hactivating (h.trans (hfades.shifts h.installed))

end Effect

/-- All slices of a system are sound. -/
def PackageSystem.Sound (system : PackageSystem G) : Prop :=
  ∀ extension, (system.slice extension).Sound extension

section steps

variable [NativeExtension G] {system : PackageSystem G}

omit [NativeExtension G] in
/-- An operation on one extension: its effect there, and on the others. -/
theorem effect_of_makes {α : Type} {event : Event G} {operation : Manages G α}
    (hmakes : Makes extension (system.slice extension) operation
      (Ends extension event (system.slice extension)))
    (hstays : Stays extension system system operation) (other : ExtensionId) :
    Effect other (if other = extension then event else .pass)
      (tells other (operation.outcome system).1) (system.slice other)
      ((operation.outcome system).2.slice other) := by
  have hown := hmakes.apply
  by_cases hother : other = extension
  · subst hother
    rw [if_pos rfl]
    exact hown.effect
  · have htells : tells other (operation.outcome system).1 = false :=
      eq_false_iff.mpr fun h => hother (hown.about other h)
    rw [if_neg hother, htells]
    exact .passed (hstays system rfl other hother)

/-- The settlement of some upgrades, each once. -/
theorem effect_settleUpgrades (hsound : system.Sound) (ready : List ExtensionId)
    (hready : ready.Nodup) :
    ∃ settlements next, (ready.mapM fun extension => do
        let result ← caught (settleUpgrade extension)
        pure (extension, result)).outcome system = (.ok settlements, next) ∧
      ∀ extension, Effect extension .settleActivatingUpgrades
          (settlements.any fun settlement => tells extension settlement.2)
          (system.slice extension) (next.slice extension) ∧
        (extension ∉ ready → (system.slice extension).Fades (next.slice extension) ∧
          (settlements.any fun settlement => tells extension settlement.2) = false) := by
  induction ready generalizing system with
  | nil => exact ⟨[], system, rfl, fun extension => ⟨.passed (.refl _), fun _ => ⟨.refl _, rfl⟩⟩⟩
  | cons head ready ih =>
    obtain ⟨hhead, hready⟩ := nodup_cons.mp hready
    have hends := (makes_settleUpgrade (hsound head)).apply
    have hbeside := stays_settleUpgrade (hsound head) system rfl
    have heffect := effect_of_makes (makes_settleUpgrade (hsound head))
      (stays_settleUpgrade (hsound head))
    generalize hsettled : (settleUpgrade head).outcome system = settled at *
    obtain ⟨result, middle⟩ := settled
    have hmiddle : middle.Sound := fun other => (heffect other).sound (hsound other)
    obtain ⟨settlements, next, houtcome, hrest⟩ := ih hmiddle hready
    refine ⟨(head, result) :: settlements, next, ?_, fun other => ?_⟩
    · rw [mapM_cons, outcome_bind, outcome_bind, outcome_caught, hsettled]
      dsimp only
      rw [outcome_pure]
      dsimp only
      rw [outcome_bind, houtcome]
      rfl
    · rw [any_cons]
      by_cases hother : other = head
      · subst hother
        obtain ⟨hfades, htold⟩ := (hrest other).2 hhead
        rw [htold, Bool.or_false]
        exact ⟨hends.effect.fades hfades, fun habsent => absurd mem_cons_self habsent⟩
      · have htells : tells other result = false :=
          eq_false_iff.mpr fun h => hother (hends.about other h)
        have hfades := hbeside other hother
        rw [htells, Bool.false_or]
        refine ⟨.after_fades hfades (hrest other).1, fun habsent => ?_⟩
        obtain ⟨hlater, htold⟩ := (hrest other).2 fun h => habsent (mem_cons_of_mem _ h)
        exact ⟨hfades.trans hlater, htold⟩

section

variable (surroundings : Surroundings ν)

def accepts (system : PackageSystem G) (managed : ManagedPackage G)
    (reviewed : PackageInstallPreview) : Bool :=
  match ((previewManaged surroundings managed).outcome system).1 with
  | .ok current => current = reviewed
  | .error _ => false

def Command.eventFor (command : Command G) (system : PackageSystem G)
    (extension : ExtensionId) : Event G :=
  match command with
  | .installReviewed source reviewed =>
    match system.manager.loadManaged surroundings source with
    | .ok managed =>
      if accepts surroundings system managed reviewed = true then
        if extension = managed.id then .install managed else .pass
      else .pass
    | .error _ => .pass
  | .grantPermissionsAndActivate subject =>
    if extension = subject then .grantPermissionsAndActivate else .pass
  | .denyPermissions subject => if extension = subject then .denyPermissions else .pass
  | .disable subject => if extension = subject then .disable else .pass
  | .enable subject => if extension = subject then .enable else .pass
  | .remove subject => if extension = subject then .remove else .pass
  | .setPermissionDecision subject permission decision =>
    if extension = subject then .setPermissionDecision permission decision else .pass
  | .settleActivatingUpgrades => .settleActivatingUpgrades
  | .host _ => .pass

def PackageSession.tellsRollback (session : PackageSession G) (command : Command G)
    (extension : ExtensionId) : Bool :=
  (session.errors surroundings command).any (·.rolledBack? = some extension)

end

variable (surroundings : Surroundings ν)

omit [Platform] [NativeExtension G] in
theorem outcome_errorOf {α : Type} (operation : Manages G α) (system : PackageSystem G) :
    (errorOf operation).outcome system = (.ok (match (operation.outcome system).1 with
        | .ok _ => []
        | .error error => [error]), (operation.outcome system).2) := by
  unfold errorOf
  rw [outcome_bind, outcome_caught]
  cases (operation.outcome system).1 <;> rfl

omit [Platform] [NativeExtension G] in
theorem any_errorOf {α : Type} (result : Except ExtensionPackageError α) (extension : ExtensionId) :
    ((match result with
      | .ok _ => []
      | .error error => [error]).any fun error => error.rolledBack? = some extension) =
      tells extension result := by
  cases result with
  | ok answer => rfl
  | error error => exact or_false _

omit [Platform] [NativeExtension G] in
theorem any_filterMap_errors
    (settlements : List (ExtensionId × Except ExtensionPackageError PackageInstallReport))
    (extension : ExtensionId) :
    ((settlements.filterMap fun settlement => match settlement.2 with
      | .ok _ => none
      | .error error => some error).any fun error => error.rolledBack? = some extension) =
      settlements.any fun settlement => tells extension settlement.2 := by
  induction settlements with
  | nil => rfl
  | cons settlement settlements ih =>
    obtain ⟨settled, result⟩ := settlement
    cases result with
    | ok report => exact ih
    | error error => exact congrArg (tells extension (.error error : Except _ Unit) || ·) ih

theorem refuses_installManaged {managed : ManagedPackage G} {reviewed : PackageInstallPreview}
    (h : accepts surroundings system managed reviewed = false) :
    ∃ error, error.rolledBack? = none ∧
      (installManaged surroundings managed reviewed).outcome system = (.error error, system) := by
  have hpreview : _ ∧ _ ∧ _ := (makes_previewManaged surroundings managed rfl) system rfl
  have hkeeps : ((previewManaged surroundings managed).outcome system).2 = system :=
    keeps_previewManaged surroundings managed system
  unfold accepts at h
  unfold installManaged
  rw [outcome_bind]
  generalize (previewManaged surroundings managed).outcome system = outcome at *
  obtain ⟨result, next⟩ := outcome
  obtain rfl : next = system := hkeeps
  cases result with
  | error error => exact ⟨error, hpreview.2.1 error rfl, rfl⟩
  | ok current =>
    have hother : current ≠ reviewed := of_decide_eq_false h
    refine ⟨.packageChangedAfterReview current.extension, rfl, ?_⟩
    dsimp only
    rw [outcome_bind, ensure, outcome_ofExcept, if_neg hother]

theorem effect_installReviewed (hsound : system.Sound) (source : PackageSource)
    (reviewed : PackageInstallPreview) (extension : ExtensionId) :
    Effect extension
      ((Command.installReviewed source reviewed).eventFor surroundings system extension)
      (tells extension ((installReviewed surroundings source reviewed).outcome system).1)
      (system.slice extension)
      (((installReviewed surroundings source reviewed).outcome system).2.slice extension) := by
  rw [outcome_installReviewed, Command.eventFor]
  cases hload : system.manager.loadManaged surroundings source with
  | error error =>
    have hplain : Plain (.error error : Except _ PackageInstallReport) :=
      .error (plain_loadManaged surroundings system.manager source error hload)
    exact tells_of_plain hplain ▸ .passed (.refl _)
  | ok managed =>
    dsimp only
    cases haccepts : accepts surroundings system managed reviewed with
    | true =>
      rw [if_pos rfl]
      exact effect_of_makes (makes_installManaged surroundings rfl (hsound managed.id) reviewed)
        (stays_installManaged surroundings rfl (hsound managed.id) reviewed) extension
    | false =>
      obtain ⟨error, hplain, houtcome⟩ := refuses_installManaged surroundings haccepts
      rw [houtcome, if_neg Bool.false_ne_true]
      exact tells_of_plain (.error hplain) ▸ .passed (.refl _)

omit [Platform] in
theorem nodup_readyUpgrades (system : PackageSystem G) : system.readyUpgrades.Nodup :=
  ExtTreeMap.nodup_keys.filter _

theorem effect_settleActivatingUpgrades (hsound : system.Sound) :
    ∃ settlements next, settleActivatingUpgrades.outcome system = (.ok settlements, next) ∧
      ∀ extension, Effect extension .settleActivatingUpgrades
        (settlements.any fun settlement => tells extension settlement.2)
        (system.slice extension) (next.slice extension) := by
  obtain ⟨settlements, next, houtcome, heffect⟩ :=
    effect_settleUpgrades hsound system.readyUpgrades (nodup_readyUpgrades system)
  exact ⟨settlements, next, houtcome, fun extension => (heffect extension).1⟩

omit [Platform] [NativeExtension G] in
/-- The host works on the package of an installed extension that is not managed only. -/
theorem subject_of_leavesPackages {operation : Operation G}
    (hleaves : system.leavesPackages operation = true) {extension : ExtensionId}
    (hsubject : operation.subject? = some extension) :
    system.manager.packages[extension]? = none ∧ (system.host.package extension).isSome := by
  have hunmanaged : ∀ {subject : ExtensionId},
      PackageSystem.leavesPackages.unmanaged system subject = true →
      system.manager.packages[subject]? = none ∧ (system.host.package subject).isSome := by
    intro subject h
    unfold PackageSystem.leavesPackages.unmanaged at h
    rw [and_eq_true, not_eq_true', contains_eq_isSome, contains_eq_isSome,
      isSome_eq_false_iff, isNone_iff_eq_none] at h
    refine ⟨h.1, ?_⟩
    rw [ExtensionHost.package, isSome_map]
    exact h.2
  cases operation with
  | install | remove => cases hleaves
  | replace | registerWasmAdapter | removeWasmAdapter | setPermissionDecision
  | clearPermissionDecisions | activate | resume | unload =>
    cases hsubject
    exact hunmanaged hleaves
  | _ => cases hsubject

theorem effect_host {session next : Session G} {operation : Operation G}
    {manager : InstallableExtensionManager G}
    (hleaves : PackageSystem.leavesPackages ⟨manager, session.host⟩ operation = true)
    (hstep : session.step operation = some next) (extension : ExtensionId) :
    Effect extension .pass false (PackageSystem.slice extension ⟨manager, session.host⟩)
      (PackageSystem.slice extension ⟨manager, next.host⟩) := by
  have hspares := Session.spares_step hstep
  by_cases hsubject : operation.subject? = some extension
  · obtain ⟨hunmanaged, hinstalled⟩ := subject_of_leavesPackages hleaves hsubject
    refine .foreign hunmanaged hunmanaged rfl rfl ?_ rfl
    show (next.host.package extension).isSome
    rwa [Session.isSome_package_step (fun manifest metadata heq => ?_) (fun other heq => ?_)
      (fun other hother => (subject_of_leavesPackages hleaves hother).2) hstep]
    · rw [heq] at hleaves
      cases hleaves
    · rw [heq] at hleaves
      cases hleaves
  · obtain ⟨state, hfades, hview⟩ := hspares.view hsubject
    refine .passed ⟨state, hfades, ?_⟩
    unfold PackageSystem.slice Slice.inState
    rw [hview, hspares.limits]

/-- Every step of a session has on each slice the effect of its command. -/
theorem effect_step {session next : PackageSession G} {command : Command G}
    (hsound : session.system.Sound) (hstep : session.step surroundings command = some next)
    (extension : ExtensionId) :
    Effect extension (command.eventFor surroundings session.system extension)
      (session.tellsRollback surroundings command extension) (session.system.slice extension)
      (next.system.slice extension) := by
  have hone : ∀ {α : Type} {operation : Manages G α} {event : Event G},
      command.carryOut surroundings = errorOf operation →
      Effect extension event (tells extension (operation.outcome session.system).1)
        (session.system.slice extension)
        ((operation.outcome session.system).2.slice extension) →
      Effect extension event (session.tellsRollback surroundings command extension)
        (session.system.slice extension)
        (((command.carryOut surroundings).outcome session.system).2.slice extension) := by
    intro α operation event hcarry heffect
    unfold PackageSession.tellsRollback PackageSession.errors
    rw [hcarry, outcome_errorOf]
    rw [any_errorOf]
    exact heffect
  cases command with
  | host operation =>
    rw [PackageSession.step] at hstep
    split at hstep
    · obtain ⟨host, hhost, rfl⟩ := map_eq_some_iff.mp hstep
      exact effect_host ‹_› hhost extension
    · cases hstep
  | settleActivatingUpgrades =>
    cases hstep
    obtain ⟨settlements, settled, houtcome, heffect⟩ := effect_settleActivatingUpgrades hsound
    have hcarry : ((Command.settleActivatingUpgrades : Command G).carryOut surroundings).outcome
        session.system = (.ok (settlements.filterMap fun settlement => match settlement.2 with
          | .ok _ => none
          | .error error => some error), settled) := by
      rw [Command.carryOut, outcome_bind, houtcome]
      rfl
    unfold PackageSession.tellsRollback PackageSession.errors
    rw [hcarry]
    rw [any_filterMap_errors]
    exact heffect extension
  | installReviewed source reviewed =>
    cases hstep
    exact hone rfl (effect_installReviewed surroundings hsound source reviewed extension)
  | grantPermissionsAndActivate subject =>
    cases hstep
    exact hone rfl (effect_of_makes (makes_grantPermissionsAndActivate (hsound subject))
      (stays_grantPermissionsAndActivate (hsound subject)) extension)
  | denyPermissions subject =>
    cases hstep
    exact hone rfl (effect_of_makes (makes_denyPermissions (hsound subject))
      (Apart.denyPermissions.stays (.refl _)) extension)
  | disable subject =>
    cases hstep
    exact hone rfl (effect_of_makes (makes_disable (hsound subject))
      (Apart.disable.stays (.refl _)) extension)
  | enable subject =>
    cases hstep
    exact hone rfl (effect_of_makes (makes_enable (hsound subject))
      (Apart.enable.stays (.refl _)) extension)
  | remove subject =>
    cases hstep
    exact hone rfl (effect_of_makes (makes_remove (hsound subject))
      (Apart.remove.stays (.refl _)) extension)
  | setPermissionDecision subject permission decision =>
    cases hstep
    exact hone rfl (effect_of_makes
      (makes_setPermissionDecision (hsound subject) permission decision)
      ((Apart.setPermissionDecision permission decision).stays (.refl _)) extension)

end steps

end KeyReader.Packages
