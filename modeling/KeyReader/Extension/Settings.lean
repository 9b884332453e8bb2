import KeyReader.Checked
import KeyReader.Extension.Manifest
import Mathlib.Data.List.Pairwise
import Mathlib.Data.String.Basic
import Mathlib.Logic.Relation

/-! The settings below the field `settings` of a state: which paths a write at the path of a setting
changes, and which settings the initial and the restored state hold. -/

namespace KeyReader.Extension

open Checked List

/-- Neither path continues the other. -/
def Apart (path other : List String) : Prop := ¬path <+: other ∧ ¬other <+: path

instance decidableApart (path other : List String) : Decidable (Apart path other) :=
  inferInstanceAs (Decidable (_ ∧ _))

theorem Apart.symm {path other : List String} (h : Apart path other) : Apart other path :=
  ⟨h.2, h.1⟩

theorem apart_cons {key : String} {path other : List String} :
    Apart (key :: path) (key :: other) ↔ Apart path other := by
  simp [Apart, cons_prefix_cons]

@[simp] theorem getDataPath_nil (path : List String) : getDataPath [] path = none := by
  match path with
  | [] => rfl
  | [_] => rfl
  | _ :: _ :: _ => rfl

theorem getDataPath_congr {record other : Fields} {head : String}
    (h : Assoc.get head record = Assoc.get head other) (tail : List String) :
    getDataPath record (head :: tail) = getDataPath other (head :: tail) := by
  cases tail with
  | nil => exact h
  | cons next tail => rw [getDataPath, getDataPath, h]

theorem getDataPath_insert_record (record child : Fields) (head next : String)
    (tail : List String) : getDataPath (Assoc.insert head (.record child) record)
      (head :: next :: tail) = getDataPath child (next :: tail) := by
  rw [getDataPath, Assoc.get_insert, if_pos rfl]

variable (record : Fields)

theorem getDataPath_setPath_self {path : List String} (value : DataValue) (hpath : path ≠ []) :
    getDataPath (setPath record path value) path = some value := by
  induction record, path, value using setPath.induct with
  | case1 => exact absurd rfl hpath
  | case2 record head value => rw [setPath, getDataPath, Assoc.get_insert, if_pos rfl]
  | case3 record head next tail value child ih =>
    rw [setPath, getDataPath_insert_record]
    exact ih (cons_ne_nil next tail)

theorem getDataPath_setPath_of_apart {path other : List String} (value : DataValue)
    (h : Apart path other) :
    getDataPath (setPath record path value) other = getDataPath record other := by
  induction path generalizing record other with
  | nil => exact absurd nil_prefix h.1
  | cons head tail ih =>
    cases other with
    | nil => exact absurd nil_prefix h.2
    | cons first rest =>
      by_cases hne : head = first
      · subst hne
        have hrest := apart_cons.mp h
        cases tail with
        | nil => exact absurd nil_prefix hrest.1
        | cons next tail =>
          cases rest with
          | nil => exact absurd nil_prefix hrest.2
          | cons second rest =>
            rw [setPath, getDataPath_insert_record, ih _ hrest, getDataPath]
            -- what is not a record on the way holds nothing, before and after
            split <;> simp
      · refine getDataPath_congr ?_ rest
        exact get_setPath (by simpa using hne)

theorem setPath_setPath_self (path : List String) (value old : DataValue) :
    setPath (setPath record path old) path value = setPath record path value := by
  induction path generalizing record with
  | nil => rfl
  | cons head tail ih =>
    cases tail with
    | nil => exact Assoc.insert_insert ..
    | cons next tail =>
      rw [setPath, setPath, setPath, Assoc.get_insert, if_pos rfl, Assoc.insert_insert]
      simp only [ih]

theorem setPath_comm {path other : List String} (h : Apart path other) (record : Fields)
    (value held : DataValue) : setPath (setPath record other held) path value =
      setPath (setPath record path value) other held := by
  induction path generalizing record other with
  | nil => exact absurd nil_prefix h.1
  | cons head tail ih =>
    cases other with
    | nil => exact absurd nil_prefix h.2
    | cons first rest =>
      by_cases hne : head = first
      · subst hne
        have hrest := apart_cons.mp h
        cases tail with
        | nil => exact absurd nil_prefix hrest.1
        | cons next tail =>
          cases rest with
          | nil => exact absurd nil_prefix hrest.2
          | cons second rest =>
            simp only [setPath, Assoc.get_insert, if_true, Assoc.insert_insert, ih hrest]
      · cases tail <;> cases rest <;>
          simp only [setPath, Assoc.get_insert, if_neg hne, if_neg (Ne.symm hne),
            Assoc.insert_comm hne]

def SettingDefinition.path (setting : SettingDefinition) : List String := segmentsOf setting.key

theorem segmentsOf_ne_nil (key : String) : segmentsOf key ≠ [] := by
  simp [segmentsOf, splitOn_ne_nil]

theorem SettingDefinition.path_ne_nil (setting : SettingDefinition) : setting.path ≠ [] :=
  segmentsOf_ne_nil setting.key

theorem segmentsOf_intercalate {segments : List String} (hne : segments ≠ [])
    (hplain : ∀ segment ∈ segments, '.' ∉ segment.toList) :
    segmentsOf (".".intercalate segments) = segments := by
  have hsplit : (['.'].intercalate (segments.map String.toList)).splitOn '.' =
      segments.map String.toList := by
    refine splitOn_intercalate '.' (fun chars hmem => ?_) (by simpa using hne)
    obtain ⟨segment, hsegment, rfl⟩ := mem_map.mp hmem
    exact hplain segment hsegment
  unfold segmentsOf
  rw [String.toList_intercalate, show ".".toList = ['.'] from rfl, hsplit, map_map]
  simp [Function.comp_def]

/-- The fields of a record; what is not a record has none. -/
def fieldsOf : Option DataValue → Fields
  | some (.record fields) => fields
  | _ => []

/-- The field `settings` of a state, as a record. -/
def settingsOf (state : Fields) : Fields := fieldsOf (Assoc.get "settings" state)

variable (state : Fields)

theorem getDataPath_settingsOf {path : List String} (hpath : path ≠ []) :
    getDataPath state ("settings" :: path) = getDataPath (settingsOf state) path := by
  obtain ⟨next, tail, rfl⟩ := exists_cons_of_ne_nil hpath
  unfold settingsOf fieldsOf
  rw [getDataPath]
  cases Assoc.get "settings" state with
  | none => simp
  | some value => cases value <;> simp

theorem get_setPath_settings {path : List String} (hpath : path ≠ []) (value : DataValue) :
    Assoc.get "settings" (setPath state ("settings" :: path) value) =
      some (.record (setPath (settingsOf state) path value)) := by
  obtain ⟨next, tail, rfl⟩ := exists_cons_of_ne_nil hpath
  rw [setPath, Assoc.get_insert, if_pos rfl]
  rfl

/-- Values written at the paths of settings, one after the other. -/
def fill (record : Fields) (settings : List SettingDefinition)
    (values : SettingDefinition → Option DataValue) : Fields :=
  settings.foldl (fun record setting => (values setting).elim record (setPath record setting.path))
    record

/-- The paths of the settings do not continue one another. -/
abbrev Separate (settings : List SettingDefinition) : Prop :=
  settings.Pairwise fun setting other => Apart setting.path other.path

section fill

variable {settings : List SettingDefinition} {setting : SettingDefinition}
  {values : SettingDefinition → Option DataValue}

theorem fill_cons : fill record (setting :: settings) values =
    fill ((values setting).elim record (setPath record setting.path)) settings values := rfl

theorem getDataPath_fill_of_apart {path : List String}
    (h : ∀ setting ∈ settings, Apart setting.path path) :
    getDataPath (fill record settings values) path = getDataPath record path := by
  refine foldlRecOn (motive := fun next => getDataPath next path = getDataPath record path)
    settings _ rfl fun next hnext setting hmem => ?_
  cases values setting with
  | none => exact hnext
  | some value => exact (getDataPath_setPath_of_apart _ _ (h setting hmem)).trans hnext

theorem fill_setPath {path : List String} (value : DataValue)
    (h : ∀ setting ∈ settings, Apart setting.path path) :
    fill (setPath record path value) settings values =
      setPath (fill record settings values) path value := by
  induction settings generalizing record with
  | nil => rfl
  | cons setting settings ih =>
    have hrest := fun record => ih record (forall_mem_cons.mp h).2
    rw [fill_cons, fill_cons]
    cases values setting with
    | none => exact hrest record
    | some written =>
      rw [Option.elim_some, Option.elim_some, setPath_comm (h setting mem_cons_self), hrest]

theorem getDataPath_fill (hseparate : Separate settings) (hmem : setting ∈ settings)
    (record : Fields) {value : DataValue} (hvalue : values setting = some value) :
    getDataPath (fill record settings values) setting.path = some value := by
  induction settings generalizing record with
  | nil => exact absurd hmem not_mem_nil
  | cons first settings ih =>
    obtain ⟨hfirst, hrest⟩ := pairwise_cons.mp hseparate
    rw [fill_cons]
    rcases mem_cons.mp hmem with rfl | hmem
    · rw [getDataPath_fill_of_apart _ fun other hother => (hfirst other hother).symm, hvalue]
      exact getDataPath_setPath_self _ _ (segmentsOf_ne_nil _)
    · exact ih hrest hmem _

theorem fill_fill (hseparate : Separate settings) (record : Fields)
    (old : SettingDefinition → Option DataValue) : fill (fill record settings old) settings values =
      fill record settings fun setting => (values setting).or (old setting) := by
  induction settings generalizing record with
  | nil => rfl
  | cons first settings ih =>
    obtain ⟨hfirst, hrest⟩ := pairwise_cons.mp hseparate
    rw [fill_cons, fill_cons, fill_cons, ← ih hrest]
    congr 1
    cases hvalue : values first with
    | none => rfl
    | some value =>
      rw [Option.elim_some, Option.some_or, Option.elim_some,
        ← fill_setPath _ _ fun other hother => (hfirst other hother).symm]
      cases old first with
      | none => rfl
      | some previous => rw [Option.elim_some, setPath_setPath_self]

theorem fill_congr {other : SettingDefinition → Option DataValue}
    (h : ∀ setting ∈ settings, values setting = other setting) :
    fill record settings values = fill record settings other :=
  foldl_ext _ _ _ fun _ setting hmem => by rw [h setting hmem]

end fill

theorem settingsOf_setPath {path : List String} (hpath : path ≠ []) (value : DataValue) :
    settingsOf (setPath state ("settings" :: path) value) =
      setPath (settingsOf state) path value := by
  rw [settingsOf, get_setPath_settings state hpath]
  rfl

/-- Values written at the paths of settings below the field `settings` of a state. -/
def fillState (state : Fields) (settings : List SettingDefinition)
    (values : SettingDefinition → Option DataValue) : Fields :=
  settings.foldl (fun state setting => (values setting).elim state
    (setPath state ("settings" :: setting.path))) state

theorem fillState_cons (setting : SettingDefinition) (settings : List SettingDefinition)
    (values : SettingDefinition → Option DataValue) :
    fillState state (setting :: settings) values = fillState ((values setting).elim state
      (setPath state ("settings" :: setting.path))) settings values := rfl

theorem settingsOf_fillState (settings : List SettingDefinition)
    (values : SettingDefinition → Option DataValue) :
    settingsOf (fillState state settings values) = fill (settingsOf state) settings values := by
  induction settings generalizing state with
  | nil => rfl
  | cons setting settings ih =>
    rw [fillState_cons, fill_cons, ih]
    cases values setting with
    | none => rfl
    | some value =>
      rw [Option.elim_some, Option.elim_some, settingsOf_setPath _ setting.path_ne_nil]

/-- The field `settings` is missing or a record. -/
def Tidy (state : Fields) : Prop :=
  (Assoc.get "settings" state).getD (.record []) = .record (settingsOf state)

theorem tidy_fillState {state : Fields} (h : Tidy state) (settings : List SettingDefinition)
    (values : SettingDefinition → Option DataValue) : Tidy (fillState state settings values) := by
  refine foldlRecOn (motive := Tidy) settings _ h fun state hstate setting _ => ?_
  cases values setting with
  | none => exact hstate
  | some value =>
    have hpath := setting.path_ne_nil
    rw [Tidy, Option.elim_some, get_setPath_settings state hpath, settingsOf_setPath state hpath]
    rfl

variable {setting : SettingDefinition}

theorem normalizeSetting_eq_ok {incoming : Fields} {copies next : Fields × Fields} :
    normalizeSetting incoming copies setting = .ok next ↔
      (∀ value, getDataPath incoming setting.path = some value → setting.valueType.accepts value) ∧
      next = (fillState copies.1 [setting] fun setting => getDataPath incoming setting.path,
        fillState copies.2 [setting] fun setting => getDataPath incoming setting.path) := by
  rw [fillState_cons, fillState_cons]
  unfold normalizeSetting SettingDefinition.path
  cases getDataPath incoming (segmentsOf setting.key) with
  | none => exact ⟨fun h => ⟨nofun, (Except.ok.inj h).symm⟩, fun h => h.2 ▸ rfl⟩
  | some value =>
    by_cases haccepts : setting.valueType.accepts value
    · simp only [if_pos haccepts]
      exact ⟨fun h => ⟨fun _ hvalue => Option.some.inj hvalue ▸ haccepts, (Except.ok.inj h).symm⟩,
        fun h => h.2 ▸ rfl⟩
    · simp only [if_neg haccepts]
      exact ⟨nofun, fun h => absurd (h.1 value rfl) haccepts⟩

theorem normalizeSettings_eq_ok {incoming : Fields} {settings : List SettingDefinition}
    {copies next : Fields × Fields} :
    settings.foldlM (normalizeSetting incoming) copies = .ok next ↔
      (∀ setting ∈ settings, ∀ value, getDataPath incoming setting.path = some value →
        setting.valueType.accepts value) ∧
      next = (fillState copies.1 settings fun setting => getDataPath incoming setting.path,
        fillState copies.2 settings fun setting => getDataPath incoming setting.path) := by
  induction settings generalizing copies with
  | nil => exact ⟨fun h => ⟨forall_mem_nil _, (Except.ok.inj h).symm⟩, fun h => h.2 ▸ rfl⟩
  | cons setting settings ih =>
    rw [foldlM_cons, bind_eq_ok, forall_mem_cons]
    constructor
    · rintro ⟨middle, hfirst, hrest⟩
      obtain ⟨haccepts, rfl⟩ := normalizeSetting_eq_ok.mp hfirst
      obtain ⟨hothers, rfl⟩ := ih.mp hrest
      exact ⟨⟨haccepts, hothers⟩, rfl⟩
    · rintro ⟨⟨hfirst, hrest⟩, rfl⟩
      exact ⟨_, normalizeSetting_eq_ok.mpr ⟨hfirst, rfl⟩, ih.mpr ⟨hrest, rfl⟩⟩

namespace ExtensionManifest

def openSettings (manifest : ExtensionManifest) : List SettingDefinition :=
  manifest.settings.filter (!·.sensitive)

/-- No key of a setting is empty, equal to another key, or another key continued. -/
structure SeparateSettings (manifest : ExtensionManifest) : Prop where
  named : ∀ setting ∈ manifest.settings, setting.key ≠ ""
  apart : manifest.settings.Pairwise fun setting other => Apart setting.path other.path

/-- A path that no write of an open setting changes. -/
def Outside (manifest : ExtensionManifest) (path : List String) : Prop :=
  ∀ setting ∈ manifest.openSettings, Apart setting.path path

def Sealed (manifest : ExtensionManifest) (state : Fields) : Prop :=
  ∀ setting ∈ manifest.settings, setting.sensitive →
    getDataPath state ("settings" :: setting.path) = none

variable {manifest : ExtensionManifest}

theorem mem_openSettings :
    setting ∈ manifest.openSettings ↔ setting ∈ manifest.settings ∧ ¬setting.sensitive := by
  simp [openSettings]

def Written (manifests : ExtensionManifest → Prop) : Option DataValue → Option DataValue → Prop :=
  Relation.ReflTransGen fun before after => ∃ manifest, manifests manifest ∧
    ∃ setting ∈ manifest.openSettings, ∃ value, setting.valueType.accepts value ∧
      after = some (.record (setPath (fieldsOf before) setting.path value))

section

variable (h : manifest.SeparateSettings)

include h

theorem SeparateSettings.apart_of_ne {other : SettingDefinition}
    (hsetting : setting ∈ manifest.settings) (hother : other ∈ manifest.settings)
    (hne : setting ≠ other) : Apart setting.path other.path := by
  have hsymm : Std.Symm fun setting other : SettingDefinition => Apart setting.path other.path :=
    ⟨fun _ _ => Apart.symm⟩
  exact h.apart.forall hsetting hother hne

theorem SeparateSettings.outside (hmem : setting ∈ manifest.settings)
    (hsensitive : setting.sensitive) :
    manifest.Outside setting.path := by
  intro other hother
  obtain ⟨hother, hopen⟩ := mem_openSettings.mp hother
  refine h.apart_of_ne hother hmem ?_
  rintro rfl
  exact hopen hsensitive

theorem SeparateSettings.eq_of_path {other : SettingDefinition}
    (hsetting : setting ∈ manifest.settings) (hother : other ∈ manifest.settings)
    (hpath : ¬Apart setting.path other.path) : setting = other := by
  by_contra hne
  exact hpath (h.apart_of_ne hsetting hother hne)

end

/-- The record of the defaults. -/
def defaults (manifest : ExtensionManifest) : Fields :=
  fill [] manifest.openSettings fun setting => some setting.default

theorem initialExtensionState_eq (manifest : ExtensionManifest) : initialExtensionState manifest =
    fillState [] manifest.openSettings fun setting => some setting.default := rfl

variable {limits : ValidationLimits}

/-- A record is restored when its values fit and it has no other fields; what it does not set has its
default. -/
theorem normalizePersistedSettings_eq_ok {settings normalized : DataValue} :
    normalizePersistedSettings manifest settings limits = .ok normalized ↔
      ∃ incoming, settings = .record incoming ∧ valueIsBounded settings limits ∧
        (∀ setting ∈ manifest.openSettings, ∀ value, getDataPath incoming setting.path = some value →
          setting.valueType.accepts value) ∧
        DataValue.eqFields (fill [] manifest.openSettings fun setting =>
          getDataPath incoming setting.path) incoming ∧
        normalized = .record (fill manifest.defaults manifest.openSettings fun setting =>
          getDataPath incoming setting.path) := by
  cases settings with
  | record incoming =>
    have hobserved : settingsOf (fillState [] manifest.openSettings fun setting =>
        getDataPath incoming setting.path) = fill [] manifest.openSettings fun setting =>
          getDataPath incoming setting.path := settingsOf_fillState ..
    have hnormalized : (Assoc.get "settings" (fillState (initialExtensionState manifest)
        manifest.openSettings fun setting => getDataPath incoming setting.path)).getD (.record []) =
        .record (fill manifest.defaults manifest.openSettings fun setting =>
          getDataPath incoming setting.path) := by
      rw [initialExtensionState_eq, tidy_fillState (tidy_fillState (rfl : Tidy []) _ _),
        settingsOf_fillState, settingsOf_fillState]
      rfl
    unfold normalizePersistedSettings
    dsimp only
    by_cases hbounded : valueIsBounded (.record incoming) limits
    · rw [if_neg (not_not_intro hbounded), bind_eq_ok]
      constructor
      · rintro ⟨copies, hcopies, h⟩
        obtain ⟨haccepts, rfl⟩ := normalizeSettings_eq_ok.mp hcopies
        have hresult : (if DataValue.eqFields (settingsOf (fillState [] manifest.openSettings
            fun setting => getDataPath incoming setting.path)) incoming then Except.ok _
          else .error _) = .ok normalized := h
        rw [hobserved] at hresult
        split at hresult
        · rename_i hsame
          exact ⟨incoming, rfl, hbounded, haccepts, hsame,
            (Except.ok.inj hresult).symm.trans hnormalized⟩
        · cases hresult
      · rintro ⟨_, heq, -, haccepts, hsame, rfl⟩
        cases heq
        refine ⟨_, normalizeSettings_eq_ok.mpr ⟨haccepts, rfl⟩, ?_⟩
        rw [← hobserved] at hsame
        exact (if_pos hsame).trans (congrArg Except.ok hnormalized)
    · rw [if_pos hbounded]
      constructor
      · intro h
        cases h
      · rintro ⟨_, _, h, _⟩
        exact absurd h hbounded
  | _ =>
    constructor
    · intro h
      cases h
    · rintro ⟨_, h, _⟩
      cases h

theorem getDataPath_initialExtensionState {path : List String} (h : manifest.Outside path)
    (hpath : path ≠ []) :
    getDataPath (initialExtensionState manifest) ("settings" :: path) = none := by
  rw [getDataPath_settingsOf _ hpath, initialExtensionState_eq, settingsOf_fillState,
    getDataPath_fill_of_apart _ h]
  exact getDataPath_nil path

theorem getDataPath_normalizePersistedSettings {settings normalized : DataValue}
    {path : List String} (h : manifest.Outside path)
    (hnormalized : normalizePersistedSettings manifest settings limits = .ok normalized) :
    getDataPath (fieldsOf (some normalized)) path = none := by
  obtain ⟨incoming, -, -, -, -, rfl⟩ := normalizePersistedSettings_eq_ok.mp hnormalized
  show getDataPath (fill manifest.defaults _ _) path = none
  rw [getDataPath_fill_of_apart _ h, defaults, getDataPath_fill_of_apart _ h, getDataPath_nil]

def Aimed (manifest : ExtensionManifest) : Prop :=
  ∀ behavior ∈ manifest.contributions.commandBehaviors, ∀ binding,
    behavior.action = .setState binding → binding.segments.head? = some "settings" →
      binding.segments = "settings" :: segmentsOf (settingKey binding)

theorem segments_of_validateSetState {path : String} {binding : StateBinding}
    (hnamed : ∀ setting ∈ manifest.settings, setting.key ≠ "")
    (h : manifest.validateSetState limits path binding = [])
    (hhead : binding.segments.head? = some "settings") :
    binding.segments = "settings" :: segmentsOf (settingKey binding) := by
  obtain ⟨hbinding, hsetting⟩ := append_eq_nil_iff.mp h
  have hvalid : binding.segments.all (segmentIsValid limits) := by
    by_contra hinvalid
    unfold validateBinding at hbinding
    rw [if_pos (.inr (.inr hinvalid))] at hbinding
    exact cons_ne_nil _ _ hbinding
  obtain ⟨rest, hsegments⟩ := head?_eq_some_iff.mp hhead
  have hkey : settingKey binding = ".".intercalate rest := by
    rw [settingKey, hsegments, drop_one, tail_cons]
  have hrest : rest ≠ [] := by
    rintro rfl
    rw [if_pos hhead, hkey, String.intercalate_nil] at hsetting
    split at hsetting
    · exact cons_ne_nil _ _ hsetting
    · rename_i setting hfind
      exact hnamed setting (mem_of_find?_eq_some hfind) (by simpa using find?_some hfind)
  rw [hkey, segmentsOf_intercalate hrest, hsegments]
  intro segment hmem hdot
  have hsegment := all_eq_true.mp hvalid segment (by rw [hsegments]; exact mem_cons_of_mem _ hmem)
  rw [segmentIsValid, Bool.and_eq_true, all_eq_true] at hsegment
  cases hsegment.2 '.' hdot

end ExtensionManifest

end KeyReader.Extension
