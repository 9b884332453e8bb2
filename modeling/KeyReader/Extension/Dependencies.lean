import KeyReader.Extension.Bystanders

/-! What an active extension requires.  The dependencies are checked when an extension starts, and the
end of one is not announced to those that require it. -/

namespace KeyReader.Extension

open Checked List Option

namespace ExtensionHost

variable {G : Type} [Platform]

structure Meets (host : ExtensionHost G) (dependency : ExtensionDependency) : Prop where
  active : host.state dependency.id = some .active
  version : ∃ package, host.package dependency.id = some package ∧
    Platform.versionMatches dependency.version package.1.version

variable {host next : ExtensionHost G} {dependency : ExtensionDependency}

theorem Meets.congr (h : host.Meets dependency) (hactive : next.state dependency.id = some .active)
    (hpackage : next.package dependency.id = host.package dependency.id) :
    next.Meets dependency where
  active := hactive
  version := by
    rw [hpackage]
    exact h.version

variable {manifest : ExtensionManifest}

theorem meets_of_checkDependency (hrequired : ¬dependency.optional)
    (h : host.checkDependency manifest dependency = .ok ()) : host.Meets dependency := by
  unfold checkDependency at h
  split at h
  · exact absurd (ensure_eq_ok.mp h) hrequired
  · rename_i record hrecord
    obtain ⟨hversion, h⟩ := ensure_bind_eq_ok.mp h
    have hactive := (ensure_eq_ok.mp h).resolve_left hrequired
    refine ⟨state_eq_some.mpr ⟨record, hrecord, hactive⟩, (record.manifest, record.metadata), ?_,
      hversion⟩
    unfold ExtensionHost.package
    rw [hrecord]
    rfl

theorem checked_of_forM {dependencies : List ExtensionDependency}
    (h : dependencies.forM (host.checkDependency manifest) = .ok ()) :
    ∀ dependency ∈ dependencies, host.checkDependency manifest dependency = .ok () := by
  induction dependencies with
  | nil => exact nofun
  | cons dependency dependencies ih =>
    obtain ⟨_, hfirst, hrest⟩ := bind_eq_ok.mp h
    exact forall_mem_cons.mpr ⟨hfirst, ih hrest⟩

theorem meets_of_checkStart {record : PackageRecord} {capabilities : CapabilitySnapshot}
    (h : host.checkStart record = .ok capabilities) :
    ∀ dependency ∈ record.manifest.dependencies, ¬dependency.optional → host.Meets dependency := by
  intro dependency hmem hrequired
  unfold checkStart at h
  obtain ⟨-, h⟩ := ensure_bind_eq_ok.mp h
  obtain ⟨_, hdependencies, -⟩ := bind_eq_ok.mp h
  unfold checkDependencies at hdependencies
  obtain ⟨_, -, hchecked⟩ := bind_eq_ok.mp hdependencies
  exact meets_of_checkDependency hrequired (checked_of_forM hchecked dependency hmem)

theorem Meets.of_leads {extension : ExtensionId} {view : View}
    (hleads : Leads extension host next view) (hidle : view.state ≠ some .active)
    (h : next.Meets dependency) : host.Meets dependency := by
  have hother : dependency.id ≠ extension := by
    rintro rfl
    have hstate : next.state dependency.id = view.state := congrArg View.state hleads.view
    exact hidle (hstate ▸ h.active)
  exact h.congr ((hleads.spares.state _ hother).active h.active)
    (hleads.spares.package _ hother).symm

/-- An extension that is active after a step has kept its package.  It was active before, or what it
requires was met. -/
def Checks (host next : ExtensionHost G) (extension : ExtensionId) : Prop :=
  next.state extension = some .active → next.package extension = host.package extension ∧
    (host.state extension = some .active ∨ ∀ package, host.package extension = some package →
      ∀ dependency ∈ package.1.dependencies, ¬dependency.optional → host.Meets dependency)

namespace Checks

variable {extension : ExtensionId}

theorem refl (host : ExtensionHost G) (extension : ExtensionId) : Checks host host extension :=
  fun hactive => ⟨rfl, .inl hactive⟩

theorem of_spares {own : ExtensionId → Prop} (h : Spares own host next)
    (hspared : ¬own extension) : Checks host next extension :=
  fun hactive => ⟨h.package extension hspared, .inl ((h.state extension hspared).active hactive)⟩

theorem of_idle {view : View} (h : Leads extension host next view)
    (hidle : view.state ≠ some .active) : Checks host next extension := by
  intro hactive
  have hstate : next.state extension = view.state := congrArg View.state h.view
  exact absurd (hstate ▸ hactive) hidle

theorem of_registry (h : next.registry = host.registry) : Checks host next extension := by
  intro hactive
  unfold ExtensionHost.state at hactive ⊢
  unfold ExtensionHost.package
  rw [h] at hactive ⊢
  exact ⟨rfl, .inl hactive⟩

theorem replace {metadata : PackageMetadata} (h : host.replace manifest metadata = .ok next) :
    Checks host next manifest.id :=
  of_idle (Leads.replace h).2 (by decide : some LifecycleState.validated ≠ some .active)

variable [NativeExtension G]

theorem activateValidated {record : PackageRecord}
    (hactive : (host.activateValidated extension record).2.state extension = some .active) :
    host.state extension = some .active ∨
      ∀ dependency ∈ record.manifest.dependencies, ¬dependency.optional → host.Meets dependency := by
  unfold ExtensionHost.activateValidated at hactive
  split at hactive
  · exact .inl hactive
  · exact .inr (meets_of_checkStart ‹_›)

theorem activate (host : ExtensionHost G) (extension : ExtensionId) :
    Checks host (host.activate extension).2 extension := by
  intro hactive
  obtain ⟨state, -, hleads⟩ := Leads.activate host extension
  refine ⟨congrArg View.package hleads.view, ?_⟩
  unfold ExtensionHost.activate at hactive
  split at hactive
  · exact .inl hactive
  rename_i record hrecord
  have hpackage : ∀ package, host.package extension = some package →
      package.1 = record.manifest := by
    intro package hpackage
    unfold ExtensionHost.package at hpackage
    rw [hrecord] at hpackage
    exact some.inj hpackage ▸ rfl
  split at hactive
  · split at hactive
    · exact .inl hactive
    · -- the checks are made after the change to `Validated`
      rename_i validated hvalidated
      have hidle : some LifecycleState.validated ≠ some .active := by decide
      rcases activateValidated hactive with hstate | hmeets
      · rw [state_of_transition hvalidated] at hstate
        exact absurd hstate hidle
      · refine .inr fun package hstored dependency hmem hrequired => ?_
        rw [hpackage package hstored] at hmem
        exact (hmeets dependency hmem hrequired).of_leads (.transition hvalidated) hidle
  · split at hactive
    · exact .inl hactive
    · refine (activateValidated hactive).imp_right fun hmeets package hstored dependency hmem => ?_
      rw [hpackage package hstored] at hmem
      exact hmeets dependency hmem

theorem resume (host : ExtensionHost G) (extension : ExtensionId) :
    Checks host (host.resume extension).2 extension := by
  intro hactive
  obtain ⟨state, hleads⟩ := Leads.resume host extension
  refine ⟨congrArg View.package hleads.view, ?_⟩
  unfold ExtensionHost.resume at hactive
  split at hactive
  · exact .inl hactive
  rename_i record hrecord
  split at hactive
  · exact .inl hactive
  split at hactive
  · exact .inl hactive
  · refine .inr fun package hstored dependency hmem => ?_
    unfold ExtensionHost.package at hstored
    rw [hrecord] at hstored
    cases hstored
    exact meets_of_checkStart ‹_› dependency hmem

end Checks

end ExtensionHost

namespace Session

open ExtensionHost

variable {G : Type} [Platform] [NativeExtension G] {session next : Session G}
  {operation : Operation G}

/-- The operation takes no extension out of `Active` that one which is active after it requires. -/
def Retains (session : Session G) (operation : Operation G) : Prop :=
  ∀ next, session.step operation = some next → ∀ extension package,
    next.host.state extension = some .active → next.host.package extension = some package →
      ∀ dependency ∈ package.1.dependencies, ¬dependency.optional →
        session.host.state dependency.id = some .active →
          next.host.state dependency.id = some .active

end Session

namespace Session

attribute [local instance] exactVersions noInstances

end Session

end KeyReader.Extension
