import KeyReader.Extension.Secrets

/-! The persisted settings can be restored as they are, if no key of a setting that the extension sees
continues another one and they are within the bounds of the host. -/

namespace KeyReader.Extension

open Checked Option List

theorem F64.eq_self {x : F64} (h : x.isFinite) : x.eq x := by
  have hnan : x.isNan = false := by
    unfold F64.isFinite at h
    simp_all [F64.isNan]
  simp [F64.eq, hnan]

mutual

theorem DataValue.eq_self {limits : ValidationLimits} :
    ∀ {value : DataValue} {depth nodes : Nat}, (value.visit limits depth nodes).isSome → value.eq value
  | .null, _, _, _ => rfl
  | .boolean value, _, _, _ => by simp [DataValue.eq]
  | .integer value, _, _, _ => by simp [DataValue.eq]
  | .string value, _, _, _ => by simp [DataValue.eq]
  | .number value, _, _, h => by
    rw [DataValue.eq]
    refine F64.eq_self ?_
    by_contra hfinite
    unfold DataValue.visit at h
    simp [hfinite] at h
  | .list values, _, _, h => by
    rw [DataValue.eq]
    unfold DataValue.visit at h
    dsimp only at h
    split at h
    · cases h
    · split at h
      · exact DataValue.eqList_self h
      · cases h
  | .record fields, _, _, h => by
    rw [DataValue.eq]
    unfold DataValue.visit at h
    dsimp only at h
    split at h
    · cases h
    · split at h
      · exact DataValue.eqFields_self h
      · cases h

theorem DataValue.eqList_self {limits : ValidationLimits} :
    ∀ {values : List DataValue} {depth nodes : Nat},
      (DataValue.visitList limits values depth nodes).isSome → DataValue.eqList values values
  | [], _, _, _ => rfl
  | value :: values, _, _, h => by
    rw [DataValue.visitList] at h
    obtain ⟨_, h⟩ := isSome_iff_exists.mp h
    obtain ⟨_, hvalue, hvalues⟩ := bind_eq_some_iff.mp h
    rw [DataValue.eqList, DataValue.eq_self (isSome_of_eq_some hvalue),
      DataValue.eqList_self (isSome_of_eq_some hvalues)]
    rfl

theorem DataValue.eqFields_self {limits : ValidationLimits} :
    ∀ {fields : List (String × DataValue)} {depth nodes : Nat},
      (DataValue.visitFields limits fields depth nodes).isSome → DataValue.eqFields fields fields
  | [], _, _, _ => rfl
  | (key, value) :: fields, _, _, h => by
    rw [DataValue.visitFields] at h
    split at h
    · obtain ⟨_, h⟩ := isSome_iff_exists.mp h
      obtain ⟨_, hvalue, hfields⟩ := bind_eq_some_iff.mp h
      rw [DataValue.eqFields, DataValue.eq_self (isSome_of_eq_some hvalue),
        DataValue.eqFields_self (isSome_of_eq_some hfields)]
      simp
    · cases h

end

section complete

variable {settings : List SettingDefinition} {setting : SettingDefinition} {record : Fields}

/-- Each of the settings has a value that fits, and there are no other fields. -/
def Complete (settings : List SettingDefinition) (record : Fields) : Prop :=
  ∃ values : SettingDefinition → DataValue,
    (∀ setting ∈ settings, setting.valueType.accepts (values setting)) ∧
      record = fill [] settings fun setting => some (values setting)

section

variable (hseparate : Separate settings)

include hseparate

theorem Separate.eq_of_path (hmem : setting ∈ settings) {other : SettingDefinition}
    (hother : other ∈ settings) (hpath : other.path = setting.path) :
    other = setting := by
  have hsymm : Std.Symm fun setting other : SettingDefinition => Apart setting.path other.path :=
    ⟨fun _ _ => Apart.symm⟩
  by_contra hne
  exact (hseparate.forall hother hmem hne).1 (hpath ▸ prefix_rfl)

theorem fill_update {values : SettingDefinition → Option DataValue} (hmem : setting ∈ settings)
    (record : Fields) (value : DataValue) :
    fill record settings (fun other =>
        if other.path = setting.path then some value else values other) =
      setPath (fill record settings values) setting.path value := by
  induction settings generalizing record with
  | nil => exact absurd hmem not_mem_nil
  | cons first settings ih =>
    obtain ⟨hfirst, hrest⟩ := pairwise_cons.mp hseparate
    rw [fill_cons, fill_cons]
    by_cases hpath : first.path = setting.path
    · have hothers : ∀ other ∈ settings, other.path ≠ setting.path := fun other hother heq =>
        (hfirst other hother).1 (hpath.trans heq.symm ▸ prefix_rfl)
      rw [if_pos hpath, elim_some, hpath,
        fill_congr _ fun other hother => if_neg (hothers other hother)]
      have hapart : ∀ other ∈ settings, Apart other.path setting.path := fun other hother =>
        hpath ▸ (hfirst other hother).symm
      cases values first with
      | none => exact fill_setPath _ _ hapart
      | some old =>
        rw [elim_some, ← fill_setPath _ _ hapart, setPath_setPath_self]
    · have hmem : setting ∈ settings := (mem_cons.mp hmem).resolve_left
        fun heq => hpath (congrArg _ heq.symm)
      rw [if_neg hpath]
      exact ih hrest hmem _

section

variable (h : Complete settings record)

include h

theorem Complete.write (hmem : setting ∈ settings) {value : DataValue}
    (haccepts : setting.valueType.accepts value) :
    Complete settings (setPath record setting.path value) := by
  obtain ⟨values, hvalues, rfl⟩ := h
  refine ⟨fun other => if other.path = setting.path then value else values other, ?_, ?_⟩
  · intro other hother
    dsimp only
    split
    · rw [hseparate.eq_of_path hmem hother ‹_›]
      exact haccepts
    · exact hvalues other hother
  · rw [← fill_update hseparate hmem]
    refine fill_congr _ fun other _ => ?_
    dsimp only
    split <;> rfl

theorem Complete.get
    (hmem : setting ∈ settings) : ∃ value, getDataPath record setting.path = some value ∧
      setting.valueType.accepts value := by
  obtain ⟨values, hvalues, rfl⟩ := h
  exact ⟨values setting, getDataPath_fill hseparate hmem _ rfl, hvalues setting hmem⟩

theorem Complete.fill_eq (old : SettingDefinition → Option DataValue) :
    fill (fill [] settings old) settings (fun setting => getDataPath record setting.path) =
      record := by
  obtain ⟨values, -, rfl⟩ := h
  rw [fill_fill hseparate]
  refine fill_congr _ fun setting hmem => ?_
  rw [getDataPath_fill hseparate hmem _ rfl, some_or]

end

end

end complete

namespace ExtensionManifest

variable {manifest : ExtensionManifest} {limits : ValidationLimits}

/-- The settings that the extension sees have keys that do not continue one another, and defaults that
fit. -/
structure Settled (manifest : ExtensionManifest) : Prop where
  separate : Separate manifest.openSettings
  fits : ∀ setting ∈ manifest.openSettings, setting.valueType.accepts setting.default

theorem Settled.complete_defaults (h : manifest.Settled) :
    Complete manifest.openSettings manifest.defaults :=
  ⟨fun setting => setting.default, h.fits, rfl⟩

theorem Settled.complete_normalized (h : manifest.Settled) {settings normalized : DataValue}
    (hnormalized : normalizePersistedSettings manifest settings limits = .ok normalized) :
    ∃ record, normalized = .record record ∧ Complete manifest.openSettings record := by
  obtain ⟨incoming, -, -, haccepts, -, rfl⟩ := normalizePersistedSettings_eq_ok.mp hnormalized
  refine ⟨_, rfl, fun setting => (getDataPath incoming setting.path).getD setting.default, ?_, ?_⟩
  · intro setting hmem
    dsimp only
    cases hvalue : getDataPath incoming setting.path with
    | none => exact h.fits setting hmem
    | some value => exact haccepts setting hmem value hvalue
  · rw [defaults, fill_fill h.separate]
    refine fill_congr _ fun setting _ => ?_
    dsimp only
    cases getDataPath incoming setting.path <;> rfl

theorem Settled.normalize_complete (h : manifest.Settled) {record : Fields}
    (hcomplete : Complete manifest.openSettings record) :
    normalizePersistedSettings manifest (.record record) limits = .ok (.record record) ↔
      valueIsBounded (.record record) limits := by
  constructor
  · intro hnormalized
    obtain ⟨_, -, hbounded, -⟩ := normalizePersistedSettings_eq_ok.mp hnormalized
    exact hbounded
  · intro hbounded
    refine normalizePersistedSettings_eq_ok.mpr ⟨record, rfl, hbounded, ?_, ?_, ?_⟩
    · intro setting hmem value hvalue
      obtain ⟨held, hheld, haccepts⟩ := hcomplete.get h.separate hmem
      cases hheld.symm.trans hvalue
      exact haccepts
    · have hsame := hcomplete.fill_eq h.separate fun _ => none
      have hempty : fill [] manifest.openSettings (fun _ => none) = [] :=
        foldlRecOn (motive := (· = [])) manifest.openSettings _ rfl fun _ h _ _ => h
      rw [hempty] at hsame
      rw [hsame]
      have hself := DataValue.eq_self hbounded
      rwa [DataValue.eq] at hself
    · exact congrArg DataValue.record (hcomplete.fill_eq h.separate _).symm

theorem of_validateSettings (h : manifest.validateSettings limits = []) :
    ∀ setting ∈ manifest.settings,
      setting.key ≠ "" ∧ setting.valueType.accepts setting.default := by
  intro setting hmem
  obtain ⟨index, hindex⟩ := mem_iff_getElem?.mp hmem
  have hsetting := flatMap_eq_nil_iff.mp h (setting, index) (mem_zipIdx_iff_getElem?.mpr hindex)
  obtain ⟨hkeys, hdefault⟩ := append_eq_nil_iff.mp hsetting
  obtain ⟨hkey, -⟩ := append_eq_nil_iff.mp hkeys
  constructor
  · rintro hempty
    rw [if_neg (by simp [keyIsCanonical, hempty])] at hkey
    cases hkey
  · by_contra haccepts
    rw [if_neg haccepts] at hdefault
    cases hdefault

end ExtensionManifest

namespace ExtensionHost

/-- The settings of the extension are complete, in its state and where they are persisted, and the
state has the persisted ones. -/
structure Kept (settings : List SettingDefinition) (view : SettingsView) : Prop where
  running : ∀ value, view.running = some value →
    ∃ record, value.getD (.record []) = .record record ∧ Complete settings record
  saved : ∀ value, view.saved = some value → ∃ record, value = .record record ∧
    Complete settings record
  same : ∀ value saved, view.running = some value → view.saved = some saved → value = some saved

theorem fieldsOf_of_getD {value : Option DataValue} {record : Fields}
    (h : value.getD (.record []) = .record record) : fieldsOf value = record := by
  cases value with
  | none => exact DataValue.record.inj h
  | some value =>
    obtain rfl : value = .record record := h
    rfl

/-- The package is settled, and it declares the settings that all packages of the extension declare. -/
def SettledAs (declared : ExtensionId → List SettingDefinition) (extension : ExtensionId)
    (manifest : ExtensionManifest) : Prop :=
  manifest.settings = declared extension ∧ manifest.Settled ∧
    ∀ setting ∈ manifest.settings, setting.key ≠ ""

variable {declared : ExtensionId → List SettingDefinition}

theorem guard_kept : Guard (SettledAs declared)
    fun extension _ view => Kept ((declared extension).filter (!·.sensitive)) view where
  named hfit := hfit.2.2
  step := by
    intro extension manifests view next hstep hfit _ h
    have hopen : ∀ manifest, manifests manifest →
        manifest.openSettings = (declared extension).filter (!·.sensitive) :=
      fun manifest hmanifest => congrArg (List.filter _) (hfit manifest hmanifest).1.1
    have hnormalized : ∀ {manifest limits settings normalized}, manifests manifest →
        normalizePersistedSettings manifest settings limits = .ok normalized →
          ∃ record, normalized = .record record ∧
            Complete ((declared extension).filter (!·.sensitive)) record := by
      intro manifest limits settings normalized hmanifest h
      rw [← hopen manifest hmanifest]
      exact (hfit manifest hmanifest).1.2.1.complete_normalized h
    cases hstep with
    | @patch before after saved hwritten =>
      have hwrites := hwritten fun manifest hmanifest => (hfit manifest hmanifest).2
      clear hwritten
      have hrun : (∃ record, after.getD (.record []) = .record record ∧
          Complete ((declared extension).filter (!·.sensitive)) record) ∧
            (after = before ∨ after.isSome) := by
        induction hwrites with
        | refl => exact ⟨h.running _ rfl, .inl rfl⟩
        | tail _ hwrite ih =>
          obtain ⟨⟨record, hrecord, hcomplete⟩, -⟩ := ih
          obtain ⟨manifest, hmanifest, setting, hmem, value, haccepts, rfl⟩ := hwrite
          have hseparate := (hfit manifest hmanifest).1.2.1.separate
          rw [hopen manifest hmanifest] at hmem hseparate
          refine ⟨⟨_, rfl, ?_⟩, .inr rfl⟩
          rw [fieldsOf_of_getD hrecord]
          exact hcomplete.write hseparate hmem haccepts
      refine ⟨fun value hvalue => some.inj hvalue ▸ hrun.1, ?_, ?_⟩
      · intro value hvalue
        cases after with
        | none => exact h.saved value hvalue
        | some settings =>
          cases hvalue
          exact hrun.1
      · intro value kept hvalue hkept
        cases hvalue
        cases after with
        | none =>
          obtain rfl : none = before := hrun.2.resolve_right Bool.false_ne_true
          exact h.same none kept rfl hkept
        | some settings => exact hkept
    | restore running saved hmanifest h' =>
      obtain ⟨record, rfl, hcomplete⟩ := hnormalized hmanifest h'
      have hvalue : ∀ value, running.map (fun _ => some (DataValue.record record)) = some value →
          value = some (.record record) := fun value hvalue =>
        (map_eq_some_iff.mp hvalue).choose_spec.2.symm
      refine ⟨fun value h => ?_, fun value h => ?_, fun value kept h hkept => ?_⟩
      · rw [hvalue value h]
        exact ⟨record, rfl, hcomplete⟩
      · exact ⟨record, (some.inj h).symm, hcomplete⟩
      · rw [hvalue value h, ← hkept]
    | @renew manifest limits settings normalized running hmanifest h' =>
      -- complete settings are normalized to themselves
      obtain ⟨record, rfl, hcomplete⟩ := h.saved settings rfl
      have hsettled := (hfit manifest hmanifest).1.2.1
      rw [← hopen manifest hmanifest] at hcomplete
      obtain ⟨_, -, hbounded, -⟩ := ExtensionManifest.normalizePersistedSettings_eq_ok.mp h'
      obtain rfl := Except.ok.inj
        (h'.symm.trans ((hsettled.normalize_complete hcomplete).mpr hbounded))
      exact h
    | forget => exact ⟨h.running, nofun, nofun⟩
    | stop => exact ⟨nofun, h.saved, nofun⟩
    | close settings saved =>
      obtain ⟨record, hrecord, hcomplete⟩ := h.running _ rfl
      refine ⟨nofun, fun value hvalue => ?_, nofun⟩
      exact ⟨record, (some.inj hvalue) ▸ hrecord, hcomplete⟩
  place h _ := h
  start := by
    intro extension manifests manifest view settings hmanifest hfit _ hstarts h
    have hopen : manifest.openSettings = (declared extension).filter (!·.sensitive) :=
      congrArg (List.filter _) hfit.1
    cases hstarts with
    | saved running h' =>
      obtain ⟨record, rfl, hcomplete⟩ := h.saved _ rfl
      refine ⟨fun value hvalue => ?_, h.saved, fun value kept hvalue hkept => ?_⟩
      · cases hvalue
        exact ⟨record, rfl, hcomplete⟩
      · exact (some.inj hvalue).symm.trans hkept
    | defaults running =>
      refine ⟨fun value hvalue => ?_, h.saved, nofun⟩
      cases hvalue
      refine ⟨manifest.defaults, ?_, hopen ▸ hfit.2.1.complete_defaults⟩
      rw [ExtensionManifest.initialExtensionState_eq, tidy_fillState (show Tidy [] from rfl),
        settingsOf_fillState]
      rfl

end ExtensionHost

namespace Session

open ExtensionHost

section runs

variable {G : Type} [Platform] [NativeExtension G]

/-- The packages that are installed have valid settings, of which those that the extension sees have
keys that do not continue one another, and each package of an extension declares the same ones.  Then,
along every run: the persisted settings of an extension are its current ones, they have a fitting
value for each setting, and within the bounds of the host they are restored as they are. -/
theorem settings_survive (declared : ExtensionId → List SettingDefinition) (config : HostConfig)
    (operations : List (Operation G))
    (hinstalled : ∀ operation ∈ operations, ∀ manifest ∈ operation.installed,
      manifest.settings = declared manifest.id ∧ Separate manifest.openSettings ∧
        ∃ limits, manifest.validateSettings limits = [])
    (session : Session G) (hrun : Transition.run step (.new config) operations = some session) :
    (∀ (extension : ExtensionId) (record : PackageRecord) (settings : DataValue),
      session.host.registry[extension]? = some record →
      session.host.persistedSettings.lookup extension = some settings →
        session.host.extensionSettings extension = some settings ∧
        (∀ setting ∈ record.manifest.openSettings, ∃ value,
          getDataPath (fieldsOf (some settings)) setting.path = some value ∧
            setting.valueType.accepts value) ∧
        (∀ limits, normalizePersistedSettings record.manifest settings limits = .ok settings ↔
          valueIsBounded settings limits) ∧
        (valueIsBounded settings session.host.config.validationLimits → ∃ next,
          session.host.restoreExtensionSettings extension settings = .ok next ∧
            next.extensionSettings extension = some settings)) ∧
    ∀ operation ∈ operations, ∀ manifest ∈ operation.installed, ∀ limits settings normalized,
      normalizePersistedSettings manifest settings limits = .ok normalized →
        (normalizePersistedSettings manifest normalized limits = .ok normalized ↔
          valueIsBounded normalized limits) := by
  have hfit : ∀ operation ∈ operations, ∀ manifest ∈ operation.installed,
      SettledAs declared manifest.id manifest := by
    intro operation hmem manifest hmanifest
    obtain ⟨hdeclared, hseparate, limits, hvalid⟩ := hinstalled operation hmem manifest hmanifest
    have hsettings := ExtensionManifest.of_validateSettings hvalid
    exact ⟨hdeclared, ⟨hseparate, fun setting hsetting =>
      (hsettings setting (ExtensionManifest.mem_openSettings.mp hsetting).1).2⟩,
      fun setting hsetting => (hsettings setting hsetting).1⟩
  have hguarded := guarded_run guard_kept (guarded_new config fun _ _ =>
    ⟨nofun, nofun, nofun⟩)
    (lifecycle_new config) hfit hrun
  refine ⟨fun extension record settings hrecord hsaved => ?_,
    fun operation hmem manifest hmanifest limits settings normalized hnormalized => ?_⟩
  · have hpackage := describes_of_record hrecord
    obtain ⟨hdeclared, hsettled, -⟩ := (hguarded.fit extension _ ⟨_, hpackage⟩).1
    have hkept := hguarded.keeps extension
    rw [← show record.manifest.openSettings = _ from congrArg (List.filter _) hdeclared] at hkept
    obtain ⟨fields, rfl, hcomplete⟩ := hkept.saved settings hsaved
    have hcurrent : ∀ host : ExtensionHost G, host.persistedSettings.lookup extension =
        some (.record fields) → (∀ value, (host.settingsView extension).running = some value →
          value = some (.record fields)) → host.extensionSettings extension = some (.record fields) := by
      intro host hsaved hrunning
      unfold ExtensionHost.extensionSettings
      cases hruntime : host.runtimes[extension]? with
      | none => exact hsaved
      | some runtime =>
        rw [settingsView_of_runtime hruntime] at hrunning
        rw [bind_some, hrunning _ rfl]
        rfl
    refine ⟨hcurrent _ hsaved fun value hvalue => hkept.same value _ hvalue hsaved,
      fun setting hsetting => hcomplete.get hsettled.separate hsetting,
      fun limits => hsettled.normalize_complete hcomplete, fun hbounded => ?_⟩
    have hnormalized := (hsettled.normalize_complete hcomplete).mpr hbounded
    unfold ExtensionHost.restoreExtensionSettings
    rw [okOr_eq_ok.mpr hrecord, ok_bind, hnormalized, Except.mapError, ok_bind]
    dsimp only
    split
    · rename_i hruntime
      refine ⟨_, rfl, hcurrent _ (AList.lookup_insert ..) fun value hvalue => ?_⟩
      obtain ⟨runtime, hfound, -⟩ := map_eq_some_iff.mp hvalue
      cases hruntime.symm.trans hfound
    · rename_i runtime hruntime
      refine ⟨_, rfl, hcurrent _ (AList.lookup_insert ..) fun value hvalue => ?_⟩
      rw [settingsView_setRuntime, if_pos rfl, Assoc.get_insert, if_pos rfl] at hvalue
      exact (some.inj hvalue).symm
  · have hsettled := (hfit operation hmem manifest hmanifest).2.1
    obtain ⟨fields, rfl, hcomplete⟩ := hsettled.complete_normalized hnormalized
    exact hsettled.normalize_complete hcomplete

end runs

attribute [local instance] checkedSettings noInstances

/-- A theme and a token that the extension does not see. -/
def themeAndToken : List SettingDefinition :=
  [theme, ⟨"token", .string none, .string "secret", true⟩]

theorem settings_survive_theme : ∃ session : Session Empty,
    Transition.run step (.new .default) (chooseTheme themeAndToken ++ [.processTick]) =
      some session ∧
    ∀ (extension : ExtensionId) (record : PackageRecord) (settings : DataValue),
      session.host.registry[extension]? = some record →
      session.host.persistedSettings.lookup extension = some settings →
        session.host.extensionSettings extension = some settings := by
  have hrun : (Transition.run step (.new .default : Session Empty)
      (chooseTheme themeAndToken ++ [.processTick])).isSome := by decide +kernel
  obtain ⟨session, hrun⟩ := isSome_iff_exists.mp hrun
  have hvalid : (themeManifest themeAndToken).validateSettings .default = [] := by decide +kernel
  refine ⟨session, hrun, fun extension record settings hrecord hsaved =>
    ((settings_survive (fun _ => themeAndToken) .default _ ?_ session hrun).1 extension record settings
      hrecord hsaved).1⟩
  intro operation hmem manifest hinstalled
  simp only [chooseTheme, cons_append, nil_append, mem_cons, not_mem_nil, or_false] at hmem
  rcases hmem with rfl | rfl | rfl | rfl
  · exact some.inj hinstalled ▸ ⟨rfl, by decide +kernel, _, hvalid⟩
  all_goals cases hinstalled

/-- A theme, and a setting whose key continues its key. -/
def themeAndShade : List SettingDefinition :=
  [theme, ⟨"theme.dark", .boolean, .boolean true, false⟩]

/-- The record of the defaults, in which the theme is not one. -/
def shade : DataValue := .record [("theme", .record [("dark", .boolean true)])]

/-- The host accepts that no setting is set, and persists what it does not accept. -/
theorem settings_rejected_after_restore : ∃ session : Session Empty,
    (themeManifest themeAndShade).validate .default = [] ∧
    Transition.run step (.new .default) [.install (themeManifest themeAndShade) ⟨.bundled⟩,
      .restoreExtensionSettings "com.example.theme" (.record [])] = some session ∧
    session.host.persistedSettings.lookup "com.example.theme" = some shade ∧
    normalizePersistedSettings (themeManifest themeAndShade) (.record []) .default = .ok shade ∧
    normalizePersistedSettings (themeManifest themeAndShade) shade .default =
      .error "persisted value for setting 'theme' has the wrong type or range" :=
  ⟨_, by decide +kernel, rfl, rfl, rfl, rfl⟩

end Session

end KeyReader.Extension
