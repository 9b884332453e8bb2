import KeyReader.Histories
import KeyReader.Packages.Startup

/-! Overlapping upgrades: the package that the manager goes back to is the last one that was settled,
as long as no upgrade is committed while an earlier one of the extension is still activating. -/

namespace KeyReader.Packages

open Option

open Attempt hiding ofExcept
open Extension ExtensionHost Package Std OrderedMap Transition

section overlapping

variable {G ν : Type} [Platform] {extension : ExtensionId} {v w : Slice G}

/-- The event replaces the package of the extension by a candidate. -/
def Event.commits (event : Event G) (v : Slice G) : Bool :=
  match event with
  | .install managed => v.managed.any fun old =>
      (pendingUpgrade v.view.decisions old managed).permissionsToApprove.isEmpty
  | .grantPermissionsAndActivate => v.pending.isSome
  | _ => false

/-- The last package that was managed without an activation under way. -/
def Slice.settledAfter (v : Slice G) (settled : Option (ManagedPackage G)) :
    Option (ManagedPackage G) :=
  if v.activating.isNone then v.managed else settled

/-- What is kept of the old package is the one that was settled. -/
structure Slice.Keeps (v : Slice G) (settled : Option (ManagedPackage G)) : Prop where
  idle : v.activating = none → settled = v.managed
  activating : ∀ activating, v.activating = some activating → settled = some activating.old

namespace Slice.Keeps

variable {settled : Option (ManagedPackage G)}

omit [Platform] in
theorem settledAfter (h : v.Keeps settled) (hactivating : w.activating = v.activating) :
    w.Keeps (w.settledAfter settled) := by
  refine ⟨fun hidle => ?_, fun activating hfound => ?_⟩
  · rw [Slice.settledAfter, hidle]
    rfl
  · rw [Slice.settledAfter, hfound]
    exact h.activating activating (hactivating ▸ hfound)

omit [Platform] in
theorem of_idle (h : w.activating = none) : w.Keeps (w.settledAfter settled) := by
  refine ⟨fun _ => ?_, fun activating hfound => ?_⟩
  · rw [Slice.settledAfter, h]
    rfl
  · cases h.symm.trans hfound

end Slice.Keeps

theorem Commits.keeps {pending : PendingUpgrade G} {settled : Option (ManagedPackage G)}
    {result : Except ExtensionPackageError PackageInstallReport}
    (h : Commits extension pending v result w) (hkeeps : v.Keeps settled)
    (hidle : v.activating = none) :
    w.Keeps (w.settledAfter settled) ∧ (tells extension result = true → w.managed = settled) := by
  cases h with
  | refused hplain =>
    exact ⟨hkeeps.settledAfter rfl, fun _ => (hkeeps.idle hidle).symm⟩
  | undone hmanaged _ hshifts =>
    obtain ⟨state, -, rfl⟩ := hshifts
    exact ⟨.of_idle hidle, fun _ => (hkeeps.idle hidle).symm⟩
  | started hmanaged _ _ hshifts =>
    obtain ⟨state, -, rfl⟩ := hshifts
    refine ⟨⟨fun hnone => ?_, fun activating hfound => ?_⟩, fun htells => ?_⟩
    · cases hnone
    · cases hfound
      exact (hkeeps.idle hidle).trans hmanaged
    · cases htells
  | settled hmanaged _ hshifts =>
    obtain ⟨state, -, rfl⟩ := hshifts
    refine ⟨.of_idle hidle, fun htells => ?_⟩
    cases htells

/-- Each effect keeps what was settled, and a rollback goes back to it. -/
theorem Effect.keeps {event : Event G} {told : Bool} {settled : Option (ManagedPackage G)}
    (h : Effect extension event told v w) (hkeeps : v.Keeps settled)
    (horderly : event.commits v = true → v.activating = none) :
    w.Keeps (w.settledAfter settled) ∧ (told = true → w.managed = settled) := by
  have hquiet : ∀ {u : Slice G}, u.activating = v.activating ∨ u.activating = none →
      u.Keeps (u.settledAfter settled) ∧ (false = true → u.managed = settled) := by
    intro u hactivating
    refine ⟨?_, fun htold => ?_⟩
    · rcases hactivating with hsame | hnone
      · exact hkeeps.settledAfter hsame
      · exact .of_idle hnone
    · cases htold
  cases h with
  | passed h =>
    obtain ⟨state, -, rfl⟩ := h
    exact hquiet (.inl rfl)
  | foreign _ _ _ hactivating => exact hquiet (.inl hactivating)
  | installed _ _ h | restored _ _ h =>
    obtain ⟨state, -, rfl⟩ := h
    exact hquiet (.inl rfl)
  | held => exact hquiet (.inl rfl)
  | upgraded hmanaged _ happroved h =>
    have hidle : v.activating = none := by
      refine horderly ?_
      rw [Event.commits, hmanaged, any_some, happroved]
      rfl
    exact h.keeps (v := { v with pending := none }) ⟨hkeeps.idle, hkeeps.activating⟩ hidle
  | approved hpending h =>
    have hidle : v.activating = none := horderly (by rw [Event.commits, hpending]; rfl)
    exact h.keeps (v := { v with pending := none }) ⟨hkeeps.idle, hkeeps.activating⟩ hidle
  | kept hpending h =>
    have hidle : v.activating = none := horderly (by rw [Event.commits, hpending]; rfl)
    obtain ⟨hrest, htold⟩ :=
      h.keeps (v := { v with pending := none }) ⟨hkeeps.idle, hkeeps.activating⟩ hidle
    exact ⟨⟨hrest.idle, hrest.activating⟩, htold⟩
  | granted _ _ h =>
    obtain ⟨state, -, rfl⟩ := h
    exact hquiet (.inl rfl)
  | rejected | denied => exact hquiet (.inl rfl)
  | disabled => exact hquiet (.inr rfl)
  | enabled _ h =>
    obtain ⟨state, -, rfl⟩ := h
    exact hquiet (.inl rfl)
  | removed => exact hquiet (.inr rfl)
  | decided => exact hquiet (.inl rfl)
  | revoked => exact hquiet (.inr rfl)
  | settled _ h =>
    obtain ⟨state, -, rfl⟩ := h
    exact hquiet (.inr rfl)
  | rolledBack hactivating h =>
    obtain ⟨state, -, rfl⟩ := h
    exact ⟨.of_idle rfl, fun _ => (hkeeps.activating _ hactivating).symm⟩

section runs

variable [NativeExtension G] (surroundings : Surroundings ν)

/-- A command commits no upgrade of an extension whose last one is still activating. -/
def OneAtATime (session : PackageSession G) (command : Command G) : Prop :=
  ∀ extension, (command.eventFor surroundings session.system extension).commits
      (session.system.slice extension) = true →
    (session.system.slice extension).activating = none

/-- The package of each extension that was settled last, as a step changes it. -/
def noteSettled (_ : PackageSession G) (_ : Command G) (next : PackageSession G)
    (settled : ExtensionId → Option (ManagedPackage G)) :
    ExtensionId → Option (ManagedPackage G) :=
  fun extension => (next.system.slice extension).settledAfter (settled extension)

def lastSettled (session : PackageSession G) (commands : List (Command G)) :
    ExtensionId → Option (ManagedPackage G) :=
  noted (PackageSession.step surroundings) noteSettled session commands
    fun extension => (session.system.slice extension).managed

/-- The invariant of runs without overlapping upgrades. -/
def KeepsSettled (settled : ExtensionId → Option (ManagedPackage G)) (session : PackageSession G) :
    Prop :=
  session.system.Sound ∧ ∀ extension, (session.system.slice extension).Keeps (settled extension)

theorem keepsSettled_step {session next : PackageSession G} {command : Command G}
    {settled : ExtensionId → Option (ManagedPackage G)} (h : KeepsSettled settled session)
    (horderly : OneAtATime surroundings session command)
    (hstep : session.step surroundings command = some next) :
    KeepsSettled (noteSettled session command next settled) next := by
  refine ⟨fun extension => ?_, fun extension => ?_⟩
  · exact (effect_step surroundings h.1 hstep extension).sound (h.1 extension)
  · exact ((effect_step surroundings h.1 hstep extension).keeps (h.2 extension)
      (horderly extension)).1

theorem keepsSettled_run {system : PackageSystem G} (hfresh : system.Fresh)
    (entries : List (RegisteredPackageRestore × Bool)) {commands : List (Command G)}
    {session : PackageSession G}
    (along : Along (PackageSession.step surroundings) (OneAtATime surroundings)
      (system.started surroundings entries) commands)
    (hrun : run (PackageSession.step surroundings) (system.started surroundings entries) commands =
      some session) :
    KeepsSettled (lastSettled surroundings (system.started surroundings entries) commands)
      session := by
  have hstarted := started_allStarted surroundings hfresh entries
  have hkeeps : KeepsSettled (fun extension =>
      ((system.started surroundings entries).system.slice extension).managed)
      (system.started surroundings entries) := by
    refine ⟨fun extension => (hstarted extension).sound, fun extension => ⟨fun _ => rfl, ?_⟩⟩
    intro activating hfound
    cases (hstarted extension).activating.symm.trans hfound
  refine run_noted (J := KeepsSettled) ?_ hkeeps along hrun
  intro before command after settled h horderly hstep
  exact keepsSettled_step surroundings h horderly hstep

/-- Without overlapping upgrades, a rolled back upgrade leaves the package that was settled last. -/
theorem rollback_returns_settled {system : PackageSystem G} (hfresh : system.Fresh)
    (entries : List (RegisteredPackageRestore × Bool)) {commands : List (Command G)}
    {command : Command G} {session next : PackageSession G}
    (along : Along (PackageSession.step surroundings) (OneAtATime surroundings)
      (system.started surroundings entries) commands)
    (hrun : run (PackageSession.step surroundings) (system.started surroundings entries) commands =
      some session)
    (horderly : OneAtATime surroundings session command)
    (hstep : session.step surroundings command = some next) {extension : ExtensionId}
    (htold : session.tellsRollback surroundings command extension = true) :
    next.system.manager.packages[extension]? =
      lastSettled surroundings (system.started surroundings entries) commands extension := by
  have hkeeps := keepsSettled_run surroundings hfresh entries along hrun
  exact ((effect_step surroundings hkeeps.1 hstep extension).keeps (hkeeps.2 extension)
    (horderly extension)).2 htold

end runs

end overlapping

namespace Releases

/-- A worker of a component, and the activation that it has not answered yet. -/
structure Worker where
  fails : Bool
  starting : Option (GenerationId × CauseContext)

instance workers : NativeExtension Worker where
  subscriptions _ := []
  activate worker context :=
    (.ok .default, { worker with starting := some (context.generation, context.cause) })
  handleEvent worker _ := (.ok .default, worker)
  updateDelivery _ := .deferred
  drainDeferredUpdates worker _ :=
    match worker.starting with
    | some (generation, cause) =>
      ([⟨generation, .activation cause,
        if worker.fails then .error ⟨.internal, "trap", false⟩ else .ok .default⟩],
        { worker with starting := none })
    | none => ([], worker)
  pendingDeferredWork worker := if worker.starting.isSome then 1 else 0
  invalidateDocumentScope worker := worker
  suspend worker _ := worker
  resume worker _ := (.ok .default, worker)

/-- The component of a release: the first one works, the second one traps when it is activated, and
of the third one no worker is started. -/
def component (release : UInt8) : Bytes := [0, 97, 115, 109, 13, 0, 1, 0, release]

def runtime : WasmRuntime Worker where
  maximumComponentBytes := maxCompiledComponentBytes
  spawn bytes _ _ :=
    if bytes = component 1 then .ok ⟨false, none⟩
    else if bytes = component 2 then .ok ⟨true, none⟩
    else .error ⟨.internal, "instantiation failed", false⟩

def manifestText : String :=
  "schema_version = 1\n" ++ "id = \"org.example.package\"\n" ++
    "name = \"Package\"\n" ++
    "version = \"1.0.0\"\n" ++
    "description = \"A panel\"\n" ++
    "license = \"MIT\"\n" ++
    "publisher = \x7b id = \"org.example\", name = \"Example\" \x7d\n" ++
    "compatibility = \x7b extension_api = \"^0.1\" \x7d\n" ++
    "entrypoint = \x7b kind = \"wasm_component\", component = \"main.wasm\", " ++
      "world = \"key:extension-runtime/extension@0.1.0\" \x7d\n"

def manifest : PackageManifest where
  toExtensionManifest := { declarativeManifest "org.example.package" ⟨[], [], []⟩ with
    entrypoint := .wasmComponent "main.wasm" "key:extension-runtime/extension@0.1.0" none }
  name := "Package"
  description := "A panel"
  publisher := ⟨"org.example", "Example"⟩

/-- The hash function at the contents that have a digest in a table. -/
def tabulated (digests : List (Bytes × Sha256Digest)) (bytes : Bytes) : Sha256Digest :=
  ((digests.find? fun entry => entry.1 = bytes).map Prod.snd).getD ⟨List.replicate 32 1, rfl⟩

def textSurroundings (texts : List (String × PackageManifest))
    (digests : List (Bytes × Sha256Digest)) : Surroundings Unit where
  libraries :=
    { openZip := fun _ => .error "invalid Zip archive"
      sha256 := tabulated digests
      manifestFromToml := fun text =>
        ((texts.find? fun entry => entry.1 = text).map fun entry => .ok entry.2).getD
          (.error "unknown text")
      signatureFromToml := fun _ => .error "unknown text"
      isToml := fun text => texts.any (·.1 = text)
      jsonFromSlice := fun _ => .error "unknown text"
      fromUtf8Lossy := fun bytes => (fromUtf8 bytes).getD "?" }
  asU64 _ := none
  namedAssets _ := []

/-- What is hashed of a release. -/
def content (release : UInt8) : Bytes :=
  contentHeader ++ [("main.wasm", component release), ("manifest.toml", pathBytes manifestText)].flatMap
    contentEntry

def digests : List (Bytes × Sha256Digest) :=
  [(content 1,
    ⟨[196, 216, 241, 253, 34, 146, 93, 159, 117, 136, 151, 250, 208, 139, 128, 51, 158, 44, 226, 6,
      29, 34, 90, 186, 242, 155, 201, 32, 223, 147, 109, 71], rfl⟩),
  (content 2,
    ⟨[170, 78, 156, 70, 165, 59, 169, 234, 120, 49, 195, 200, 90, 103, 206, 26, 181, 183, 93, 159,
      31, 42, 136, 101, 116, 83, 62, 212, 237, 251, 246, 99], rfl⟩),
  (content 3,
    ⟨[199, 65, 146, 102, 15, 95, 188, 253, 238, 109, 136, 212, 98, 124, 240, 28, 249, 146, 146,
      228, 139, 119, 70, 124, 26, 103, 99, 33, 18, 86, 104, 112], rfl⟩),
  (pathBytes manifestText,
    ⟨[67, 215, 121, 200, 14, 231, 194, 191, 153, 79, 240, 127, 128, 17, 83, 77, 95, 229, 82, 153,
      174, 136, 73, 5, 39, 65, 193, 186, 78, 166, 120, 133], rfl⟩),
  (component 1,
    ⟨[201, 201, 72, 124, 156, 47, 236, 157, 30, 47, 1, 149, 0, 97, 118, 99, 191, 36, 143, 254, 34,
      255, 197, 138, 100, 45, 233, 180, 212, 98, 118, 114], rfl⟩),
  (component 2,
    ⟨[16, 108, 224, 106, 86, 217, 13, 128, 164, 44, 137, 26, 208, 105, 122, 195, 222, 171, 126, 88,
      231, 147, 202, 118, 83, 248, 224, 124, 134, 67, 150, 92], rfl⟩),
  (component 3,
    ⟨[218, 80, 198, 231, 254, 212, 201, 15, 186, 94, 23, 74, 140, 244, 24, 178, 42, 254, 120, 11,
      69, 151, 130, 14, 227, 14, 165, 195, 26, 237, 26, 79], rfl⟩)]

def here : Surroundings Unit := textSurroundings [(manifestText, manifest)] digests

/-- The preview of a release. -/
def reviewed (manifest : PackageManifest) (contentSha256 : Sha256Digest) (isUpgrade : Bool) :
    PackageInstallPreview where
  extension := manifest.id
  name := manifest.name
  description := manifest.description
  version := manifest.version
  license := manifest.license
  source := .developmentDirectory
  publisherVerified := false
  requiredPermissions := requiredPermissions manifest.toExtensionManifest
  isUpgrade
  uiKind := none
  contentSha256
  referencedAssets := []

/-- The manager of the application and its host before the start. -/
def fresh : PackageSystem Worker where
  manager := ⟨⟨.default, ⟨false, true⟩⟩, fun _ _ => .error (.policyDenied "no trust policy"),
    runtime, ∅, ∅, ∅⟩
  host := .new .default

attribute [local instance] exactVersions

theorem fresh_fresh : fresh.Fresh := by
  refine ⟨rfl, rfl, rfl, fun extension permission _ hgranted => ?_⟩
  cases hgranted

/-- The development directory of a release. -/
def release (number : UInt8) : PackageSource where
  path := "package"
  node := .directory
    [(pathBytes "main.wasm", .file 9 ⟨component number, none, (by decide : 9 ≤ Machine.u64Max)⟩),
      (pathBytes "manifest.toml", .file (pathBytes manifestText).length
        ⟨pathBytes manifestText, none, by decide +kernel⟩)]

/-- A command with all its data. -/
structure Known where
  command : Command Worker

def install (number : UInt8) (isUpgrade : Bool) : Known :=
  ⟨.installReviewed (release number) (reviewed manifest (tabulated digests (content number)) isUpgrade)⟩

def tick : Known := ⟨.host .processTick⟩

def start : PackageSession Worker := fresh.started here []

def componentOf (managed : Option (ManagedPackage Worker)) : Option Bytes :=
  (managed.bind (·.package.component)).map (·.bytes)

theorem oneAtATime_of_isEmpty {session : PackageSession Worker} (command : Command Worker)
    (h : session.system.manager.activatingUpgrades.isEmpty = true) :
    OneAtATime here session command := by
  intro extension _
  rw [PackageSystem.slice_activating, ExtTreeMap.isEmpty_iff.mp h]
  rfl

/-- What is seen of the releases.  The text of the manifest is known, and not decoded. -/
theorem observed :
    (start.step here (install 1 false).command).all
      (·.system.manager.activatingUpgrades.isEmpty) = true ∧
    (run (PackageSession.step here) start ([install 1 false, tick].map Known.command)).any
      (fun session => session.system.manager.activatingUpgrades.isEmpty &&
        session.tellsRollback here (install 3 true).command "org.example.package") = true ∧
    (run (PackageSession.step here) start
      ([install 1 false, tick, install 2 true].map Known.command)).any
      (fun session => session.tellsRollback here (install 3 true).command "org.example.package" &&
        (session.step here (install 3 true).command).any fun next =>
          componentOf next.system.manager.packages["org.example.package"]? =
            some (component 2)) = true ∧
    componentOf (lastSettled here start ([install 1 false, tick, install 2 true].map Known.command)
      "org.example.package") = some (component 1) := by
  simp only [lastSettled, noted, List.map, run, PackageSession.step, PackageSession.tellsRollback,
    PackageSession.errors, install, tick, Command.carryOut, installReviewed, loadManaged,
    InstallableExtensionManager.loadManaged, InstallableExtensionManager.load,
    PackageLoader.loadDevelopmentDirectory, PackageLoader.buildLoaded, PackageLoader.buildUnsigned,
    PackageLoader.readManifest, fromUtf8_eq_decodeKnown [manifestText]]
  decide +kernel

/-- The third release does not start, and the first one is back. -/
theorem rollback_returns_first : ∃ session next,
    run (PackageSession.step here) start ([install 1 false, tick].map Known.command) =
      some session ∧
    session.step here (install 3 true).command = some next ∧
    next.system.manager.packages["org.example.package"]? =
      lastSettled here start ([install 1 false, tick].map Known.command) "org.example.package" := by
  have halong : Along (PackageSession.step here)
      (fun session _ => session.system.manager.activatingUpgrades.isEmpty = true) start
      ([install 1 false, tick].map Known.command) := by
    refine ⟨by decide, fun next hnext => ⟨?_, fun _ _ => trivial⟩⟩
    have hfirst := observed.1
    rw [hnext] at hfirst
    exact hfirst
  obtain ⟨session, hrun, htold⟩ := (any_eq_true ..).mp observed.2.1
  rw [Bool.and_eq_true] at htold
  refine ⟨session, _, hrun, rfl, ?_⟩
  exact rollback_returns_settled here fresh_fresh []
    (halong.imp fun _ command h => oneAtATime_of_isEmpty command h) hrun
    (oneAtATime_of_isEmpty _ htold.1) rfl htold.2

/-- The third release is committed while the second one is activating, and does not start: the
second one is back, which then fails as well. -/
theorem rollback_returns_provisional : ∃ session next, run (PackageSession.step here) start
      ([install 1 false, tick, install 2 true].map Known.command) = some session ∧
    session.step here (install 3 true).command = some next ∧
    session.tellsRollback here (install 3 true).command "org.example.package" = true ∧
    next.system.manager.packages["org.example.package"]? ≠ lastSettled here start
      ([install 1 false, tick, install 2 true].map Known.command) "org.example.package" := by
  obtain ⟨-, -, hobserved, hsettled⟩ := observed
  obtain ⟨session, hrun, h⟩ := (any_eq_true ..).mp hobserved
  rw [Bool.and_eq_true, any_eq_true] at h
  obtain ⟨htold, next, hstep, hnext⟩ := h
  refine ⟨session, next, hrun, hstep, htold, fun heq => ?_⟩
  rw [heq, hsettled] at hnext
  exact absurd hnext (by decide)

end Releases

end KeyReader.Packages
