import KeyReader.Extension.Bystanders
import KeyReader.Packages.Manager
import KeyReader.Parts

/-! What the manager and the host hold of one extension, and what the steps of the manager on this
extension make of it and leave of the others. -/

namespace KeyReader.Packages

open Attempt hiding ofExcept
open Extension ExtensionHost Package Std OrderedMap

variable {G : Type}

/-- What the manager and the host hold of one extension. -/
structure Slice (G : Type) where
  loading : PackageLoader × SignatureVerifier
  limits : ValidationLimits
  managed : Option (ManagedPackage G)
  pending : Option (PendingUpgrade G)
  activating : Option (ActivatingUpgrade G)
  view : View

namespace PackageSystem

def slice (extension : ExtensionId) (system : PackageSystem G) : Slice G where
  loading := (system.manager.loader, system.manager.verifier)
  limits := system.host.config.validationLimits
  managed := system.manager.packages[extension]?
  pending := system.manager.pendingUpgrades[extension]?
  activating := system.manager.activatingUpgrades[extension]?
  view := system.host.view extension

variable (extension : ExtensionId) (system : PackageSystem G)

@[simp] theorem slice_managed :
    (system.slice extension).managed = system.manager.packages[extension]? := rfl

@[simp] theorem slice_pending :
    (system.slice extension).pending = system.manager.pendingUpgrades[extension]? := rfl

@[simp] theorem slice_activating :
    (system.slice extension).activating = system.manager.activatingUpgrades[extension]? := rfl

@[simp] theorem slice_view : (system.slice extension).view = system.host.view extension := rfl

end PackageSystem

/-- The decisions after some of them are written. -/
def decideAll (decisions : Permission → PermissionDecision)
    (written : List (Permission × PermissionDecision)) : Permission → PermissionDecision :=
  written.foldl (fun decisions entry other =>
    if entry.1 = other then entry.2 else decisions other) decisions

def PermissionSnapshot.restored (snapshot : PermissionSnapshot) : Permission → PermissionDecision :=
  decideAll (fun _ => .undecided) snapshot.decisions

/-- The decisions under which the candidate of an upgrade is started. -/
def PendingUpgrade.approved (pending : PendingUpgrade G)
    (decisions : Permission → PermissionDecision) : Permission → PermissionDecision :=
  decideAll (if pending.resetAuthority = true then fun _ => .undecided else decisions)
    (pending.permissionsToApprove.map fun request => (request.permission, .granted))

namespace Slice

section

variable (v : Slice G)

def inState (state : Option LifecycleState) : Slice G :=
  { v with view := { v.view with state } }

def deciding (decisions : Permission → PermissionDecision) : Slice G :=
  { v with view := { v.view with decisions } }

def hosting (managed : ManagedPackage G) : Slice G :=
  { v with view := { v.view with
      package := some (managed.manifest.toExtensionManifest, packageMetadata managed.package) } }

/-- The extension is installed in the host. -/
def Installed : Prop := ∃ state, v.view.state = some state ∧ state ≠ .removed

end

/-- At most the state of an installed extension has changed. -/
def Shifts (v w : Slice G) : Prop := ∃ state, state ≠ .removed ∧ w = v.inState (some state)

/-- The state stays, or a started extension is suspended or fails. -/
def Fades (v w : Slice G) : Prop :=
  ∃ state, ExtensionHost.Fades v.view.state state ∧ w = v.inState state

section Lemmas

variable {v w u : Slice G} {state : Option LifecycleState}

@[simp] theorem inState_loading : (v.inState state).loading = v.loading := rfl
@[simp] theorem inState_limits : (v.inState state).limits = v.limits := rfl
@[simp] theorem inState_managed : (v.inState state).managed = v.managed := rfl
@[simp] theorem inState_pending : (v.inState state).pending = v.pending := rfl
@[simp] theorem inState_activating : (v.inState state).activating = v.activating := rfl
@[simp] theorem inState_package : (v.inState state).view.package = v.view.package := rfl
@[simp] theorem inState_decisions : (v.inState state).view.decisions = v.view.decisions := rfl
@[simp] theorem inState_state : (v.inState state).view.state = state := rfl

theorem Installed.inState {state : LifecycleState} (h : state ≠ .removed) :
    (v.inState (some state)).Installed := ⟨state, rfl, h⟩

theorem Installed.activated (h : v.Installed) (hstate : Leads.Activated v.view.state state) :
    ∃ next, next ≠ .removed ∧ state = some next := by
  obtain ⟨before, hbefore, hremoved⟩ := h
  rcases hstate with rfl | rfl | rfl | rfl | rfl
  · exact ⟨before, hremoved, hbefore⟩
  all_goals exact ⟨_, by decide, rfl⟩

theorem Shifts.refl (h : v.Installed) : v.Shifts v := by
  obtain ⟨state, hstate, hremoved⟩ := h
  refine ⟨state, hremoved, ?_⟩
  unfold Slice.inState
  rw [← hstate]

theorem Shifts.trans (h : v.Shifts w) (h' : w.Shifts u) : v.Shifts u := by
  obtain ⟨_, -, rfl⟩ := h
  obtain ⟨state, hremoved, rfl⟩ := h'
  exact ⟨state, hremoved, rfl⟩

theorem Shifts.installed (h : v.Shifts w) : w.Installed := by
  obtain ⟨state, hremoved, rfl⟩ := h
  exact ⟨state, rfl, hremoved⟩

theorem Shifts.of_inState {state : LifecycleState} (h : state ≠ .removed) :
    v.Shifts (v.inState (some state)) := ⟨state, h, rfl⟩

theorem Shifts.after {state : Option LifecycleState} (h : (v.inState state).Shifts w) :
    v.Shifts w := by
  obtain ⟨next, hremoved, rfl⟩ := h
  exact ⟨next, hremoved, rfl⟩

theorem Fades.refl (v : Slice G) : v.Fades v := ⟨v.view.state, .refl _, rfl⟩

theorem Fades.trans (h : v.Fades w) (h' : w.Fades u) : v.Fades u := by
  obtain ⟨_, hfirst, rfl⟩ := h
  obtain ⟨state, hlast, rfl⟩ := h'
  exact ⟨state, hfirst.trans hlast, rfl⟩

end Lemmas

end Slice

/-- A step on one extension leaves of the others all but their states, of which started ones can be
suspended or fail. -/
def Beside (extension : ExtensionId) (system next : PackageSystem G) : Prop :=
  ∀ other, other ≠ extension → (system.slice other).Fades (next.slice other)

namespace Beside

variable {extension : ExtensionId}

theorem refl (system : PackageSystem G) : Beside extension system system :=
  fun _ _ => .refl _

theorem trans (first middle last : PackageSystem G) (h : Beside extension first middle)
    (h' : Beside extension middle last) : Beside extension first last :=
  fun other hne => (h other hne).trans (h' other hne)

theorem of_spares {system : PackageSystem G} {host : ExtensionHost G}
    (h : Spares (· = extension) system.host host) :
    Beside extension system { system with host } := by
  intro other hne
  obtain ⟨state, hfades, hview⟩ := h.view hne
  refine ⟨state, hfades, ?_⟩
  unfold PackageSystem.slice Slice.inState
  rw [hview, h.limits]

theorem of_manager {system : PackageSystem G} {manager : InstallableExtensionManager G}
    (hloader : manager.loader = system.manager.loader)
    (hverifier : manager.verifier = system.manager.verifier)
    (hpackages : ∀ other, other ≠ extension →
      manager.packages[other]? = system.manager.packages[other]?)
    (hpending : ∀ other, other ≠ extension →
      manager.pendingUpgrades[other]? = system.manager.pendingUpgrades[other]?)
    (hactivating : ∀ other, other ≠ extension →
      manager.activatingUpgrades[other]? = system.manager.activatingUpgrades[other]?) :
    Beside extension system { system with manager } := by
  intro other hne
  refine ⟨_, .refl _, ?_⟩
  unfold PackageSystem.slice Slice.inState
  rw [hloader, hverifier, hpackages other hne, hpending other hne, hactivating other hne]

end Beside

end KeyReader.Packages

/-! The operations of the manager on one extension, and what they leave of the others. -/

namespace KeyReader.Packages

open Attempt hiding ofExcept
open Extension ExtensionHost Package Std OrderedMap

variable {G α β : Type} {extension : ExtensionId}

/-- The computation keeps apart from the other extensions. -/
def Apart (extension : ExtensionId) (operation : Manages G α) : Prop :=
  Moves (Beside extension) operation

namespace Apart

theorem pure (answer : α) : Apart extension (pure answer : Manages G α) :=
  Moves.pure Beside.refl answer

theorem throw (error : ExtensionPackageError) : Apart extension (throw error : Manages G α) :=
  Moves.throw Beside.refl error

theorem ofExcept (result : Except ExtensionPackageError α) :
    Apart extension (Attempt.ofExcept result : Manages G α) := Moves.ofExcept Beside.refl result

theorem caught {operation : Manages G α} (h : Apart extension operation) :
    Apart extension operation.caught := Moves.caught h

theorem bind {operation : Manages G α} {next : α → Manages G β} (h : Apart extension operation)
    (hnext : ∀ answer, Apart extension (next answer)) : Apart extension (operation >>= next) :=
  Moves.bind Beside.trans h hnext

theorem of_keeps {operation : Manages G α} (h : Keeps id operation) : Apart extension operation := by
  intro system
  rw [show (operation.outcome system).2 = system from h system]
  exact .refl system

theorem reading_bind {part : PackageSystem G → α} {next : α → Manages G β}
    (h : ∀ answer, Apart extension (next answer)) :
    Apart extension (Attempt.reading part >>= next) :=
  bind (Moves.reading Beside.refl part) h

theorem changeHost {change : ExtensionHost G → ExtensionHost G}
    (h : ∀ host, Spares (· = extension) host (change host)) :
    Apart extension (changeHost change) :=
  Moves.changing fun system => .of_spares (h system.host)

theorem onHost {operation : ExtensionHost G → Except HostError (ExtensionHost G)}
    (h : ∀ host next, operation host = .ok next → Spares (· = extension) host next) :
    Apart extension (onHost operation) := by
  refine Moves.ofOutcome fun system => ?_
  split
  · exact .of_spares (h _ _ ‹_›)
  · exact .refl system

theorem dropPendingUpgrade : Apart extension (dropPendingUpgrade extension : Manages G Unit) :=
  Moves.changing fun _ => .of_manager rfl rfl (fun _ _ => rfl)
    (fun _ hne => (getElem?_erase ..).trans (if_neg hne.symm)) (fun _ _ => rfl)

theorem dropActivatingUpgrade :
    Apart extension (dropActivatingUpgrade extension : Manages G Unit) :=
  Moves.changing fun _ => .of_manager rfl rfl (fun _ _ => rfl) (fun _ _ => rfl)
    fun _ hne => (getElem?_erase ..).trans (if_neg hne.symm)

theorem putPackage (managed : ManagedPackage G) : Apart extension (putPackage extension managed) :=
  Moves.changing fun _ => .of_manager rfl rfl
    (fun _ hne => (getElem?_insert ..).trans (if_neg hne.symm)) (fun _ _ => rfl) (fun _ _ => rfl)

theorem putPendingUpgrade (pending : PendingUpgrade G) :
    Apart extension (putPendingUpgrade extension pending) :=
  Moves.changing fun _ => .of_manager rfl rfl (fun _ _ => rfl)
    (fun _ hne => (getElem?_insert ..).trans (if_neg hne.symm)) (fun _ _ => rfl)

theorem putActivatingUpgrade (activating : ActivatingUpgrade G) :
    Apart extension (putActivatingUpgrade extension activating) :=
  Moves.changing fun _ => .of_manager rfl rfl (fun _ _ => rfl) (fun _ _ => rfl)
    fun _ hne => (getElem?_insert ..).trans (if_neg hne.symm)

theorem dropPackage : Apart extension (changeManager fun manager : InstallableExtensionManager G =>
    { manager with packages := manager.packages.erase extension }) :=
  Moves.changing fun _ => .of_manager rfl rfl
    (fun _ hne => (getElem?_erase ..).trans (if_neg hne.symm)) (fun _ _ => rfl) (fun _ _ => rfl)

theorem removeWasmAdapter : Apart extension
    (Packages.changeHost fun host : ExtensionHost G => host.removeWasmAdapter extension) :=
  changeHost fun _ => .of_eq rfl rfl rfl

theorem registerManagedAdapter (managed : ManagedPackage G) :
    Apart extension (registerManagedAdapter managed) := by
  refine changeHost fun host => ?_
  split
  · exact .of_eq rfl rfl rfl
  · exact .refl host

theorem setPermissionDecisions (decisions : List (Permission × PermissionDecision)) :
    Apart extension (setPermissionDecisions extension decisions : Manages G Unit) :=
  changeHost fun host => List.foldlRecOn (motive := Spares (· = extension) host) _ _ (.refl host)
    fun _ h _ _ => h.trans (Leads.setPermissionDecision ..).spares

theorem clearPermissionDecisions : Apart extension
    (Packages.changeHost fun host : ExtensionHost G => host.clearPermissionDecisions extension) :=
  changeHost fun host => (Leads.clearPermissionDecisions host).spares

theorem restorePermissionSnapshot (snapshot : PermissionSnapshot) :
    Apart extension (restorePermissionSnapshot extension snapshot : Manages G Unit) :=
  clearPermissionDecisions.bind fun _ => setPermissionDecisions _

theorem expectManaged (message : String) :
    Apart extension (expectManaged extension message : Manages G (ManagedPackage G)) :=
  reading_bind fun _ => ofExcept _

theorem requireManaged : Apart extension (requireManaged extension : Manages G Unit) :=
  reading_bind fun _ => ofExcept _

section

variable [Platform] [NativeExtension G]

theorem unload : Apart extension (unload extension : Manages G Unit) :=
  onHost fun _ _ h => (Leads.unload h).spares

theorem activate : Apart extension (activate extension : Manages G _) :=
  Moves.ofOutcome fun system =>
    have ⟨_, _, hleads⟩ := Leads.activate system.host extension
    .of_spares hleads.spares

omit [NativeExtension G] in
theorem replace {managed : ManagedPackage G} (hid : managed.id = extension) :
    Apart extension (replace managed) :=
  onHost fun _ _ h => hid ▸ (Leads.replace h).2.spares

theorem activation : Apart extension (activation extension : Manages G _) := by
  refine reading_bind fun system => ?_
  split
  · exact pure _
  split
  · exact unload.bind fun _ => pure _
  · refine activate.bind fun outcome => ?_
    split
    · exact pure _
    · exact unload.bind fun _ => pure _
    · exact reading_bind fun _ => unload.bind fun _ => pure _

theorem activationReport : Apart extension (activationReport extension : Manages G _) :=
  (expectManaged _).bind fun _ => activation.bind fun _ => pure _

theorem restoreLifecycle (lifecycle : LifecycleState) :
    Apart extension (restoreLifecycle extension lifecycle : Manages G Unit) := by
  unfold Packages.restoreLifecycle
  split
  · refine activate.bind fun outcome => ?_
    split
    · exact pure _
    · exact throw _
  · exact throw _
  · exact unload
  · exact pure _
  · refine activate.bind fun outcome => ?_
    split
    · exact unload
    · refine reading_bind fun _ => ?_
      split
      · exact pure _
      · exact throw _
  all_goals exact unload

variable {old : ManagedPackage G} (hold : old.id = extension)

include hold

section

variable (oldLifecycle : LifecycleState) (snapshot : PermissionSnapshot)

theorem rollbackUpgrade : Apart extension (rollbackUpgrade extension old oldLifecycle snapshot) :=
  unload.bind fun _ => removeWasmAdapter.bind fun _ => (replace hold).bind fun _ =>
    (registerManagedAdapter old).bind fun _ => (putPackage old).bind fun _ =>
      (restorePermissionSnapshot snapshot).bind fun _ => restoreLifecycle oldLifecycle

theorem failUpgrade
    (reason : String) : Apart extension (failUpgrade extension old oldLifecycle snapshot reason) := by
  refine (rollbackUpgrade hold oldLifecycle snapshot).caught.bind fun result => ?_
  split <;> exact throw _

theorem finishUpgrade : Apart extension (finishUpgrade extension old oldLifecycle snapshot) := by
  have hactivated : Apart extension
      (activateReplacement extension oldLifecycle : Manages G ActivationAttempt) := by
    unfold activateReplacement
    split
    · exact activationReport
    · exact throw _
    · exact unload.bind fun _ => (expectManaged _).bind fun _ => pure _
  refine hactivated.caught.bind fun result => ?_
  split
  · exact failUpgrade hold _ _ _
  · refine reading_bind fun host => ?_
    split
    · exact (putActivatingUpgrade _).bind fun _ => pure _
    split
    · exact failUpgrade hold _ _ _
    · exact pure _

end

end

end Apart

end KeyReader.Packages
