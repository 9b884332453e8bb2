import KeyReader.Packages.Stepwise

/-! The state after the start: sound, without an upgrade, and with grants to installed extensions
only. -/

namespace KeyReader.Packages

open Option

open Attempt hiding ofExcept
open Extension ExtensionHost OrderedMap

variable {G ν : Type} [Platform] [NativeExtension G] {extension : ExtensionId} {v w : Slice G}
  {system : PackageSystem G}
  (surroundings : Surroundings ν)

def restoreManaged (stored : RegisteredPackageRestore) (managed : ManagedPackage G) :
    Manages G PackageInstallReport := do
  let extension := stored.expectedExtension
  ensure (managed.manifest.id = extension) (.storedIdentityMismatch extension managed.manifest.id)
  ensure (managed.package.contentSha256.toHex = stored.expectedContentSha256)
    (.storedContentHashMismatch extension)
  Attempt.ofExcept (stored.permissionDecisions.forM fun (permission, _) =>
    Checked.ensure (managed.manifest.permissions.any (·.permission = permission) = true)
      (.storedPermissionMismatch extension permission))
  installLoadedInactive managed
  setPermissionDecisions extension stored.permissionDecisions
  restoreStoredSettings extension stored.settings
  if stored.enabled = true then
    let attempt ← activationReport extension
    pure attempt.report
  else
    unload extension
    let managed ← expectManaged extension "restored package is managed"
    pure (packageReport managed (.inactive "extension remains disabled"))

variable (stored : RegisteredPackageRestore)

theorem outcome_restoreRegistered (system : PackageSystem G) :
    (restoreRegistered surroundings stored).outcome system =
      match system.manager.loadManaged surroundings stored.source with
      | .ok managed => (restoreManaged stored managed).outcome system
      | .error error => (.error error, system) := by
  unfold restoreRegistered
  rw [outcome_bind]
  have hload : (loadManaged surroundings stored.source).outcome system =
      (system.manager.loadManaged surroundings stored.source, system) := rfl
  rw [hload]
  cases system.manager.loadManaged surroundings stored.source <;> rfl

omit [Platform] [NativeExtension G] in
theorem makes_restoreStoredSettings (settings : Option DataValue) :
    Makes extension v (restoreStoredSettings extension settings)
      fun result w => w = v ∧ Plain result := by
  cases settings with
  | none => exact .pure ⟨rfl, .ok ()⟩
  | some settings =>
    intro system hslice
    subst hslice
    unfold restoreStoredSettings
    cases hrestored : system.host.restoreExtensionSettings extension settings with
    | error error =>
      rw [outcome_onHost_error hrestored]
      exact ⟨rfl, .error rfl⟩
    | ok next =>
      have hleads := Leads.restoreExtensionSettings hrestored
      rw [outcome_onHost_ok hrestored]
      refine ⟨?_, .ok ()⟩
      unfold PackageSystem.slice
      rw [hleads.view, hleads.spares.limits]

theorem makes_restoreManaged (managed : ManagedPackage G) :
    Makes stored.expectedExtension v (restoreManaged stored managed)
      (Ends stored.expectedExtension (.restore managed stored.permissionDecisions) v) := by
  refine Takes.ensure_bind (fun _ => .refused rfl) fun hid => ?_
  refine Takes.ensure_bind (fun _ => .refused rfl) fun _ => ?_
  refine Takes.ofExcept_bind (fun error herror => .refused ?_) fun _ _ => ?_
  · exact Plain.forM (fun _ => .ensure rfl) stored.permissionDecisions error herror
  refine (makes_installLoadedInactive hid).bind ?_ ?_
  · rintro answer w (⟨error, herror, -⟩ | ⟨-, hnew, hfits, rfl⟩)
    · cases herror
    · refine (leaves_setPermissionDecisions _).bind ((makes_restoreStoredSettings _).bind ?_ ?_)
      · rintro answer w ⟨rfl, -⟩
        split
        · refine (makes_activationReport rfl ⟨.validated, rfl, by decide⟩).bind
            fun attempt w hw => .pure (.ok (.restored hnew hfits ?_))
          obtain ⟨state, hremoved, rfl⟩ := hw
          exact ⟨state, hremoved, rfl⟩
        · refine (leaves_unload ⟨.validated, rfl, by decide⟩).bind
            ((makes_expectManaged rfl).bind (.pure (.ok (.restored hnew hfits ?_))))
          exact ⟨.disabled, by decide, rfl⟩
      · rintro error w ⟨rfl, hplain⟩
        exact .failed (.restored hnew hfits ⟨.validated, by decide, rfl⟩) (hplain error rfl)
  · rintro error w (⟨failure, heq, hplain, rfl⟩ | ⟨heq, -⟩)
    · cases heq
      exact .refused hplain
    · cases heq

theorem Apart.restoreManaged (managed : ManagedPackage G) :
    Stays stored.expectedExtension system system (restoreManaged stored managed) := by
  have hrefused : Beside stored.expectedExtension system system := .refl system
  refine Takes.ensure_bind (fun _ => hrefused) fun hid => Apart.stays ?_ hrefused
  refine (Apart.ofExcept _).bind fun _ => (Apart.ofExcept _).bind fun _ =>
    (Apart.installLoadedInactive hid).bind fun _ => (Apart.setPermissionDecisions _).bind fun _ =>
      Apart.bind ?_ fun _ => ?_
  · unfold restoreStoredSettings
    split
    · exact Apart.onHost fun _ _ h => (Leads.restoreExtensionSettings h).spares
    · exact Apart.pure _
  · split
    · exact Apart.activationReport.bind fun _ => Apart.pure _
    · exact Apart.unload.bind fun _ => (Apart.expectManaged _).bind fun _ => Apart.pure _

theorem effect_restoreRegistered (other : ExtensionId) :
    ∃ event : Event G, ((∃ managed, event = .restore managed stored.permissionDecisions) ∨
        event = .pass) ∧
      Effect other event (tells other ((restoreRegistered surroundings stored).outcome system).1)
        (system.slice other)
        (((restoreRegistered surroundings stored).outcome system).2.slice other) := by
  rw [outcome_restoreRegistered]
  cases hload : system.manager.loadManaged surroundings stored.source with
  | error error =>
    have hplain : Plain (.error error : Except _ PackageInstallReport) :=
      .error (plain_loadManaged surroundings system.manager stored.source error hload)
    exact ⟨.pass, .inr rfl, tells_of_plain hplain ▸ .passed (.refl _)⟩
  | ok managed =>
    refine ⟨_, ?_, effect_of_makes (makes_restoreManaged stored managed)
      (Apart.restoreManaged stored managed) other⟩
    split
    · exact .inl ⟨managed, rfl⟩
    · exact .inr rfl

/-- Nothing is granted to an extension that is not installed. -/
def Slice.Unclaimed (v : Slice G) : Prop :=
  v.view.package = none → ∀ permission, v.view.decisions permission ≠ .granted

omit [NativeExtension G] in
theorem Effect.unclaimed {event : Event G} {told : Bool} (h : Effect extension event told v w)
    (hsound : v.Sound extension) (hunclaimed : v.Unclaimed) : w.Unclaimed := by
  have hmanaged : v.managed.isSome → v.view.package.isSome := by
    intro hsome
    obtain ⟨managed, hmanaged⟩ := isSome_iff_exists.mp hsome
    rw [hsound.hosted managed hmanaged]
    rfl
  have hkept : ∀ {u : Slice G}, v.managed.isSome → u.view.package = v.view.package →
      u.Unclaimed := by
    intro u hsome hpackage hnone
    rw [hpackage] at hnone
    cases hnone ▸ hmanaged hsome
  have hput : ∀ {managed : ManagedPackage G} {u t : Slice G}, (u.hosting managed).Shifts t →
      t.Unclaimed := by
    rintro managed u t ⟨state, -, rfl⟩ hnone
    cases hnone
  have hcommits : ∀ {pending : PendingUpgrade G}
      {result : Except ExtensionPackageError PackageInstallReport} {u : Slice G},
      v.managed.isSome → Commits extension pending { v with pending := none } result u →
      u.Unclaimed := by
    intro pending result u hsome h
    cases h with
    | refused => exact hunclaimed
    | undone _ _ hshifts =>
      obtain ⟨state, -, rfl⟩ := hshifts
      exact hkept hsome rfl
    | started _ _ _ hshifts | settled _ _ hshifts =>
      obtain ⟨state, -, rfl⟩ := hshifts
      intro hnone
      cases hnone
  cases h with
  | passed hfades =>
    obtain ⟨state, -, rfl⟩ := hfades
    exact hunclaimed
  | foreign _ _ _ _ hinstalled =>
    intro hnone
    cases hnone ▸ hinstalled
  | installed _ _ hshifts => exact hput hshifts
  | restored _ _ hshifts =>
    obtain ⟨state, -, rfl⟩ := hshifts
    intro hnone
    cases hnone
  | held => exact hunclaimed
  | upgraded hmanaged _ _ h => exact hcommits (hmanaged ▸ rfl) h
  | approved hpending h => exact hcommits (hsound.candidate _ hpending).2 h
  | kept hpending h =>
    have hrest := hcommits (hsound.candidate _ hpending).2 h
    exact hrest
  | granted _ hmanaged hshifts =>
    obtain ⟨state, -, rfl⟩ := hshifts
    exact hkept (hmanaged ▸ rfl) rfl
  | rejected => exact hunclaimed
  | denied _ hmanaged => exact hkept (hmanaged ▸ rfl) rfl
  | disabled => exact hunclaimed
  | enabled _ hshifts =>
    obtain ⟨state, -, rfl⟩ := hshifts
    exact hunclaimed
  | removed =>
    intro _ permission hgranted
    cases hgranted
  | decided hsome | revoked hsome => exact hkept hsome rfl
  | settled _ hfades =>
    obtain ⟨state, -, rfl⟩ := hfades
    exact hunclaimed
  | rolledBack _ hshifts =>
    obtain ⟨state, -, rfl⟩ := hshifts
    intro hnone
    cases hnone

/-- The state between the start and the first command. -/
structure Slice.Started (extension : ExtensionId) (v : Slice G) : Prop where
  sound : v.Sound extension
  unclaimed : v.Unclaimed
  pending : v.pending = none
  activating : v.activating = none

omit [NativeExtension G] in
theorem Effect.started {event : Event G} {told : Bool} (h : Effect extension event told v w)
    (hevent : (∃ managed decisions, event = .restore managed decisions) ∨ event = .remove ∨
      event = .pass) (hstarted : v.Started extension) : w.Started extension := by
  have hupgrades : w.pending = v.pending ∧ w.activating = v.activating ∨
      w.pending = none ∧ w.activating = none := by
    rcases hevent with ⟨managed, decisions, rfl⟩ | rfl | rfl
    · cases h with
      | passed h | restored _ _ h => exact .inl (by obtain ⟨state, -, rfl⟩ := h; exact ⟨rfl, rfl⟩)
    · cases h with
      | passed h => exact .inl (by obtain ⟨state, -, rfl⟩ := h; exact ⟨rfl, rfl⟩)
      | removed => exact .inr ⟨rfl, rfl⟩
    · cases h with
      | passed h => exact .inl (by obtain ⟨state, -, rfl⟩ := h; exact ⟨rfl, rfl⟩)
      | foreign _ _ hpending hactivating => exact .inl ⟨hpending, hactivating⟩
  have hboth : w.pending = none ∧ w.activating = none := by
    rcases hupgrades with ⟨hpending, hactivating⟩ | hnone
    · exact ⟨hpending.trans hstarted.pending, hactivating.trans hstarted.activating⟩
    · exact hnone
  exact ⟨h.sound hstarted.sound, h.unclaimed hstarted.sound hstarted.unclaimed, hboth.1, hboth.2⟩

/-- Every slice is as it is between the start and the first command. -/
def PackageSystem.AllStarted (system : PackageSystem G) : Prop :=
  ∀ extension, (system.slice extension).Started extension

/-- The start goes on. -/
def StartsOn (system next : PackageSystem G) : Prop := system.AllStarted → next.AllStarted

omit [NativeExtension G] in
theorem StartsOn.refl (system : PackageSystem G) : StartsOn system system := id

omit [NativeExtension G] in
theorem StartsOn.trans (first middle last : PackageSystem G) (h : StartsOn first middle)
    (h' : StartsOn middle last) : StartsOn first last := fun hstarted => h' (h hstarted)

theorem startsOn_restoreRegistered :
    Moves StartsOn (restoreRegistered surroundings stored : Manages G _) := by
  intro system hstarted extension
  obtain ⟨event, hevent, heffect⟩ : ∃ event : Event G, _ ∧ Effect extension event _
      (system.slice extension) _ := effect_restoreRegistered surroundings stored extension
  refine heffect.started ?_ (hstarted extension)
  rcases hevent with ⟨managed, rfl⟩ | rfl
  · exact .inl ⟨managed, _, rfl⟩
  · exact .inr (.inr rfl)

theorem startsOn_remove (subject : ExtensionId) : Moves StartsOn (remove subject : Manages G _) := by
  intro system hstarted extension
  have heffect := effect_of_makes (makes_remove (hstarted subject).sound)
    (Apart.remove.stays (.refl system)) extension
  refine heffect.started ?_ (hstarted extension)
  split
  · exact .inr (.inl rfl)
  · exact .inr (.inr rfl)

theorem startsOn_restoreEntry (imagesAccepted : Bool) :
    Moves StartsOn (restoreEntry surroundings stored imagesAccepted : Manages G _) := by
  have hremove : Moves StartsOn (do
      let _ ← caught (remove stored.expectedExtension : Manages G Unit)
      pure ()) :=
    Moves.bind StartsOn.trans (startsOn_remove _).caught fun _ => Moves.pure StartsOn.refl ()
  refine Moves.bind StartsOn.trans (startsOn_restoreRegistered surroundings stored).caught
    fun result => ?_
  split
  · split
    · exact hremove
    · exact Moves.pure StartsOn.refl ()
  · exact hremove

omit [Platform] [NativeExtension G] in
theorem PackageSystem.Fresh.started [Platform] (hfresh : system.Fresh) : system.AllStarted := by
  intro extension
  have hpackages : (system.slice extension).managed = none := by
    rw [PackageSystem.slice_managed, hfresh.packages]
    rfl
  have hpending : (system.slice extension).pending = none := by
    rw [PackageSystem.slice_pending, hfresh.pendingUpgrades]
    rfl
  have hactivating : (system.slice extension).activating = none := by
    rw [PackageSystem.slice_activating, hfresh.activatingUpgrades]
    rfl
  refine ⟨⟨fun _ h => ?_, fun _ h => ?_, fun h => ?_, fun _ h => ?_, fun _ h => ?_⟩,
    fun hnone permission => hfresh.decisions extension permission ?_, hpending, hactivating⟩
  · cases hpackages.symm.trans h
  · cases hpackages.symm.trans h
  · cases hpackages ▸ h
  · cases hpending.symm.trans h
  · cases hactivating.symm.trans h
  · rw [contains_eq_isSome, isSome_eq_false_iff, isNone_iff_eq_none]
    exact map_eq_none_iff.mp hnone

theorem started_allStarted (hfresh : system.Fresh)
    (entries : List (RegisteredPackageRestore × Bool)) :
    (system.started surroundings entries).system.AllStarted := by
  suffices h : Moves StartsOn (restoreInstallableExtensions surroundings entries : Manages G _) from
    h system hfresh.started
  unfold restoreInstallableExtensions
  induction entries with
  | nil => exact Moves.pure StartsOn.refl ()
  | cons entry entries ih =>
    exact Moves.bind StartsOn.trans (startsOn_restoreEntry surroundings entry.1 entry.2) fun _ => ih

end KeyReader.Packages
