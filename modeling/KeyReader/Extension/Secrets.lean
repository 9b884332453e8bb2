import KeyReader.Extension.Upkeep

/-! Runs keep the sensitive settings out of the states of extensions, if no key of a setting continues
another one. -/

namespace KeyReader.Extension

open Checked Machine Std OrderedMap List Option

namespace ExtensionHost

/-- No sensitive setting of the package is in the state. -/
def Sealed (_ : ExtensionId) (manifests : ExtensionManifest → Prop) (view : SettingsView) : Prop :=
  ∀ manifest, manifests manifest → ∀ settings, view.running = some settings →
    ∀ setting ∈ manifest.settings, setting.sensitive →
      getDataPath (fieldsOf settings) setting.path = none

theorem guard_sealed :
    Guard (fun _ manifest => ExtensionManifest.SeparateSettings manifest) Sealed where
  named hseparate := hseparate.named
  step := by
    intro extension manifests view next hstep hfit hunique h
    cases hstep with
    | @patch before after saved hwritten =>
      intro manifest hmanifest settings hsettings setting hmem hsensitive
      obtain rfl := some.inj hsettings
      have houtside := (hfit manifest hmanifest).1.outside hmem hsensitive
      have hwrites := hwritten fun manifest hmanifest => (hfit manifest hmanifest).2
      clear hwritten
      -- each write is at the path of an open setting
      induction hwrites with
      | refl => exact h manifest hmanifest _ rfl setting hmem hsensitive
      | tail _ hwrite ih =>
        obtain ⟨other, hother, written, hwritten, value, -, rfl⟩ := hwrite
        obtain rfl := hunique _ _ hmanifest hother
        exact (getDataPath_setPath_of_apart _ value (houtside written hwritten)).trans (ih rfl)
    | restore running saved hother hnormalized =>
      intro manifest hmanifest settings hsettings setting hmem hsensitive
      obtain ⟨-, -, rfl⟩ := map_eq_some_iff.mp hsettings
      obtain rfl := hunique _ _ hmanifest hother
      exact ExtensionManifest.getDataPath_normalizePersistedSettings
        ((hfit manifest hmanifest).1.outside hmem hsensitive) hnormalized
    | renew | forget => exact h
    | stop | close =>
      intro manifest _ settings hsettings
      cases hsettings
  place h hplaced manifest hmanifest settings hsettings := by
    rcases hplaced with hnone | hle
    · cases hnone.symm.trans hsettings
    · exact h manifest (hle manifest hmanifest) settings hsettings
  start := by
    intro extension manifests manifest view settings _ hseparate hunique hstarts _ other hother
      started hstarted setting hmem hsensitive
    obtain rfl := hunique other hother
    cases hstarted
    have houtside := hseparate.outside hmem hsensitive
    cases hstarts with
    | saved running hnormalized =>
      exact ExtensionManifest.getDataPath_normalizePersistedSettings houtside hnormalized
    | defaults running =>
      exact (getDataPath_settingsOf _ setting.path_ne_nil).symm.trans
        (ExtensionManifest.getDataPath_initialExtensionState houtside setting.path_ne_nil)

end ExtensionHost

namespace Session

open ExtensionHost

variable {G : Type} [Platform] [NativeExtension G]

/-- Along every run that installs only packages with separate settings: no state of an extension
holds a sensitive setting; an update changes no field of host snapshots, which only a snapshot of the
host does, and it changes a setting only through a behavior that is accepted for it, to the payload;
and an update that answers no event leaves all fields that the host owns. -/
theorem updates_leave_hostOwned (config : HostConfig) (operations : List (Operation G))
    (hseparate : ∀ operation ∈ operations, ∀ manifest ∈ operation.installed,
      manifest.SeparateSettings)
    (session : Session G) (hrun : Transition.run step (.new config) operations = some session) :
    (∀ (extension : ExtensionId) (runtime : ActiveRuntime G) (record : PackageRecord),
      session.host.runtimes[extension]? = some runtime →
        session.host.registry[extension]? = some record →
          ∀ setting ∈ record.manifest.settings, setting.sensitive →
            getDataPath runtime.state ("settings" :: setting.path) = none) ∧
    ∀ host : ExtensionHost G, (∀ extension, host.package extension = session.host.package extension) →
      (∀ extension generation envelope update accepted other,
        let next := (host.applyUpdate extension generation envelope
          (host.commandBehaviorsForEvent extension envelope) update accepted).1
        (∀ kind, Assoc.get (snapshotNamespace kind) (next.extensionState other) ≠
            Assoc.get (snapshotNamespace kind) (host.extensionState other) →
          extension = other ∧ ∃ value, snapshotStateUpdate envelope = some (kind, value)) ∧
        ∀ record, session.host.registry[other]? = some record →
          ∀ setting ∈ record.manifest.settings,
            getDataPath (next.extensionState other) ("settings" :: setting.path) ≠
                getDataPath (host.extensionState other) ("settings" :: setting.path) →
              extension = other ∧ ∃ payload, Sets record.manifest envelope setting payload ∧
                getDataPath (next.extensionState other) ("settings" :: setting.path) =
                  some payload) ∧
      ∀ extension generation cause update accepted other, ∀ key ∈ hostStateNamespaces,
        Assoc.get key ((host.arbitrateUpdate extension generation cause update
          accepted).1.extensionState other) = Assoc.get key (host.extensionState other) := by
  have hguarded := guarded_run guard_sealed
    (guarded_new config fun _ _ _ _ _ h => by cases h) (lifecycle_new config) hseparate hrun
  refine ⟨fun extension runtime record hruntime hrecord setting hmem hsensitive => ?_,
    fun host hsame => ⟨?_, ?_⟩⟩
  · rw [getDataPath_settingsOf _ setting.path_ne_nil]
    refine hguarded.keeps extension record.manifest ⟨_, describes_of_record hrecord⟩ _ ?_
      setting hmem hsensitive
    rw [settingsView_of_runtime hruntime]
  · intro extension generation envelope update accepted other next
    have hvetted : host.Vetted := fun extension manifest metadata h =>
      hguarded.vetted extension manifest metadata (hsame extension ▸ h)
    refine ⟨fun kind => get_applyUpdate hvetted extension generation envelope update accepted other
      kind, fun record hrecord setting hsetting => ?_⟩
    have hother := describes_of_record hrecord
    obtain ⟨hseparate, haimed⟩ := hguarded.fit other _ ⟨_, hother⟩
    exact setting_applyUpdate ((hsame other).trans hother) hseparate haimed hsetting generation envelope
      update accepted
  · intro extension generation cause update accepted other key hkey
    exact host.get_arbitrateUpdate extension generation cause update accepted other hkey

end Session

namespace Session

@[reducible] def checkedSettings : Platform where
  versionMatches requirement version := requirement = "=" ++ version
  earlierErrors _ := []
  laterErrors manifest := manifest.validateSettings .default

attribute [local instance] checkedSettings noInstances

def themeManifest (settings : List SettingDefinition) : ExtensionManifest :=
  { declarativeManifest "com.example.theme" ⟨[], [], []⟩ with
    settings
    contributions :=
      { commands := [⟨⟨"com.example.theme", "choose"⟩⟩]
        commandBehaviors :=
          [⟨⟨"com.example.theme", "choose"⟩, .setState ⟨["settings", "theme"]⟩⟩]
        menus := [], views := [] } }

def theme : SettingDefinition := ⟨"theme", .string none, .string "paper", false⟩

/-- The theme is chosen while the extension is active. -/
def chooseTheme (settings : List SettingDefinition) : List (Operation Empty) :=
  [.install (themeManifest settings) ⟨.bundled⟩, .activate "com.example.theme",
    .invokeCommand ⟨"com.example.theme", "choose"⟩ (.string "graphite")]

theorem updates_leave_hostOwned_theme : ∃ session : Session Empty,
    Transition.run step (.new .default)
      (chooseTheme [theme, ⟨"token", .string none, .string "secret", true⟩] ++ [.processTick]) =
        some session ∧
    ∀ (extension : ExtensionId) (runtime : ActiveRuntime Empty) (record : PackageRecord),
      session.host.runtimes[extension]? = some runtime →
        session.host.registry[extension]? = some record →
          ∀ setting ∈ record.manifest.settings, setting.sensitive →
            getDataPath runtime.state ("settings" :: setting.path) = none := by
  have hrun : (Transition.run step (.new .default : Session Empty)
      (chooseTheme [theme, ⟨"token", .string none, .string "secret", true⟩] ++
        [.processTick])).isSome := by decide +kernel
  obtain ⟨session, hrun⟩ := isSome_iff_exists.mp hrun
  refine ⟨session, hrun, (updates_leave_hostOwned .default _ ?_ session hrun).1⟩
  have hseparate : (themeManifest
      [theme, ⟨"token", .string none, .string "secret", true⟩]).SeparateSettings :=
    ⟨by decide +kernel, by decide +kernel⟩
  intro operation hmem manifest hinstalled
  simp only [chooseTheme, cons_append, nil_append, mem_cons, not_mem_nil,
    or_false] at hmem
  rcases hmem with rfl | rfl | rfl | rfl
  · exact some.inj hinstalled ▸ hseparate
  all_goals cases hinstalled

/-- Settings whose keys continue others: one of the two is sensitive. -/
def overlapping : List SettingDefinition :=
  [theme, ⟨"theme.dark", .boolean, .boolean true, false⟩,
    ⟨"proxy", .choice [.record [("token", .string "none")]], .record [("token", .string "none")],
      false⟩,
    ⟨"proxy.token", .string none, .string "none", true⟩]

def holds (session : Session Empty) (path : List String) : Bool :=
  (getDataPath (session.host.extensionState "com.example.theme") path).isSome

/-- A behavior that is bound to one setting takes away the value of another one, to which no behavior
is bound, and there is a value at the path of a sensitive setting. -/
theorem setting_changed_by_overlapping : ∃ before after : Session Empty,
    Transition.run step (.new .default) (chooseTheme overlapping) = some before ∧
    step before .processTick = some after ∧
    before.holds ["settings", "theme", "dark"] ∧ ¬after.holds ["settings", "theme", "dark"] ∧
    (∀ behavior ∈ (themeManifest overlapping).contributions.commandBehaviors,
      behavior.action ≠ .setState ⟨["settings", "theme", "dark"]⟩) ∧
    after.holds ["settings", "proxy", "token"] ∧
    ∃ setting ∈ (themeManifest overlapping).settings,
      setting.sensitive ∧ setting.path = ["proxy", "token"] := by
  have hbefore : (Transition.run step (.new .default) (chooseTheme overlapping)).any
      (fun session => session.holds ["settings", "theme", "dark"] &&
        (session.step .processTick).any fun session =>
          !session.holds ["settings", "theme", "dark"] &&
            session.holds ["settings", "proxy", "token"]) = true := by decide +kernel
  obtain ⟨before, hrun, hbefore⟩ := (any_eq_true _ _).mp hbefore
  obtain ⟨hdark, hafter⟩ := Bool.and_eq_true_iff.mp hbefore
  obtain ⟨after, hstep, hafter⟩ := (any_eq_true _ _).mp hafter
  obtain ⟨hgone, htoken⟩ := Bool.and_eq_true_iff.mp hafter
  refine ⟨before, after, hrun, hstep, hdark, ?_, by decide +kernel, htoken, by decide +kernel⟩
  rw [Bool.not_eq_true'] at hgone
  rw [hgone]
  exact Bool.false_ne_true

end Session

end KeyReader.Extension
