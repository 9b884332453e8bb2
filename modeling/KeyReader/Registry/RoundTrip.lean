import KeyReader.Registry.Checks

/-! What the registry writes reads back, unless the settings have a number that JSON does not. -/

namespace KeyReader.Registry

open Checked Extension OrderedMap Std

/-- A value that is not nested too deep for the parser reads back. -/
def SerdeJson.Faithful (serde : SerdeJson) : Prop :=
  ∀ json : JsonValue, json.depth ≤ 127 → serde.fromSlice (serde.toVecPretty json ++ [10]) = some json

section
variable {serde : SerdeJson}

/-- An entry that every check lets through as it is. -/
structure Accepted (serde : SerdeJson) (entry : ExtensionRegistryEntry) : Prop where
  extension : parseExtensionId entry.extension = some entry.extension
  hash : validateContentHash entry.expectedContentSha256 = .ok ()
  path : validateStoredSourcePath entry.sourcePath = .ok ()
  permissions : validatePermissionDecisions serde entry.requiredPermissions =
    .ok entry.requiredPermissions
  typedPermissions : ∀ stored ∈ entry.requiredPermissions, stored.permission.isTyped = true
  settings : validateSettings serde entry.settings = .ok entry.settings
  typedSettings : ∀ value, entry.settings = some value → value.isTyped = true

def ExtensionRegistryEntry.isFinite (entry : ExtensionRegistryEntry) : Bool :=
  entry.settings.all DataValue.isFinite

/-- Accepted entries under their own identifiers. -/
def AcceptedEntries (serde : SerdeJson) (entries : RegistryEntries) : Prop :=
  ∀ (key : ExtensionId) (entry : ExtensionRegistryEntry), entries[key]? = some entry →
    Accepted serde entry ∧ entry.extension = key

def FiniteEntries (entries : RegistryEntries) : Prop :=
  ∀ (key : ExtensionId) (entry : ExtensionRegistryEntry), entries[key]? = some entry →
    entry.isFinite = true

theorem readNamed_decision (decision : RequiredPermissionDecision) :
    readNamed RequiredPermissionDecision.name [.granted, .denied] (.string decision.name) =
      some decision := by
  cases decision <;> rfl

theorem StoredPermissionDecision.ofJson_toJson (stored : StoredPermissionDecision)
    (h : stored.permission.isTyped = true) :
    StoredPermissionDecision.ofJson stored.toJson = some stored := by
  have hfields : Json.structFields ["permission", "decision"] true stored.toJson =
      some [some stored.permission.toJson, some (.string stored.decision.name)] := rfl
  rw [ofJson, hfields]
  dsimp only
  rw [Permission.ofJson_toJson _ h, readNamed_decision]
  rfl

theorem readSettings_toJson (value : DataValue) (h : value.isTyped = true) :
    readSettings (some value.toJson) = if value.isFinite then some (some value) else none := by
  unfold readSettings
  split
  · rename_i heq
    cases heq
  · rename_i heq
    exact absurd (Option.some.inj heq) toJson_ne_null
  · rename_i heq
    rw [← Option.some.inj heq, ofJson_toJson value h]
    split <;> rfl

theorem structFields_entry (wire : RegistryEntryWire) :
    Json.structFields ["extension", "source_path", "expected_content_sha256", "enabled",
      "required_permissions", "settings"] true wire.toJson =
      some [some (.string wire.extension), some (.string wire.sourcePath),
        some (.string wire.expectedContentSha256), some (.bool wire.enabled),
        some (.array (wire.requiredPermissions.map StoredPermissionDecision.toJson)),
        wire.settings.map DataValue.toJson] := by
  unfold RegistryEntryWire.toJson
  cases wire.settings <;> rfl

variable {entry : ExtensionRegistryEntry}

theorem Accepted.ofJson_toJson (h : Accepted serde entry) :
    RegistryEntryWire.ofJson (entryWire serde entry).toJson =
      if entry.isFinite then some (entryWire serde entry) else none := by
  have hextension : (Json.readString (.string entry.extension : JsonValue)).bind
      parseExtensionId = some entry.extension := h.extension
  have hpermissions : Json.readArray StoredPermissionDecision.ofJson
      (.array (entry.requiredPermissions.map StoredPermissionDecision.toJson)) =
        some entry.requiredPermissions :=
    Json.readArray_map fun stored hstored =>
      StoredPermissionDecision.ofJson_toJson stored (h.typedPermissions stored hstored)
  have hsettings : readSettings (entry.settings.map DataValue.toJson) =
      if entry.isFinite then some entry.settings else none := by
    have htyped := h.typedSettings
    unfold ExtensionRegistryEntry.isFinite
    cases hvalue : entry.settings with
    | none => rfl
    | some value => exact readSettings_toJson value (htyped value hvalue)
  rw [RegistryEntryWire.ofJson, structFields_entry]
  unfold entryWire
  dsimp only
  rw [hextension, hpermissions, hsettings]
  cases entry.isFinite <;> rfl

theorem Accepted.validateWire (h : Accepted serde entry) :
    validateWire serde (entryWire serde entry) = .ok entry := by
  unfold Registry.validateWire entryWire
  dsimp only
  rw [h.hash, pathBytes_toStringLossy serde h.path, h.path, h.permissions, h.settings]
  rfl

theorem depth_stored (stored : StoredPermissionDecision) : stored.toJson.depth ≤ 4 := by
  have hpermission := stored.permission.depth_toJson
  simp only [StoredPermissionDecision.toJson, Json.depth, Json.depthFields]
  omega

theorem Accepted.depth_toJson (h : Accepted serde entry) :
    (entryWire serde entry).toJson.depth ≤ 35 := by
  have hpermissions : Json.depthValues
      (entry.requiredPermissions.map StoredPermissionDecision.toJson) ≤ 4 := by
    apply Json.depthValues_le
    intro value hvalue
    obtain ⟨stored, -, rfl⟩ := List.mem_map.mp hvalue
    exact depth_stored stored
  have hsettings : Json.depthFields (settingsMember entry.settings) ≤ 34 := by
    have hchecked := h.settings
    cases hvalue : entry.settings with
    | none => exact Nat.zero_le _
    | some value =>
      rw [hvalue] at hchecked
      have := depth_settings hchecked
      simp only [settingsMember, Json.depthFields]
      omega
  simp only [RegistryEntryWire.toJson, entryWire, List.cons_append, List.nil_append, Json.depth,
    Json.depthFields]
  omega

variable {entries : RegistryEntries}

theorem AcceptedEntries.depth_document (h : AcceptedEntries serde entries) :
    (entriesDocument serde entries).toJson.depth ≤ 127 := by
  have hentries : Json.depthValues
      ((entriesDocument serde entries).entries.map RegistryEntryWire.toJson) ≤ 35 := by
    apply Json.depthValues_le
    intro value hvalue
    obtain ⟨wire, hwire, rfl⟩ := List.mem_map.mp hvalue
    obtain ⟨entry, hentry, rfl⟩ := List.mem_map.mp hwire
    exact (h _ _ ((mem_toList_iff ..).mp hentry)).1.depth_toJson
  simp only [RegistryDocument.toJson, Json.depth, Json.depthFields]
  omega

theorem structFields_document (document : RegistryDocument) :
    Json.structFields ["schema_version", "entries"] true document.toJson =
      some [some (.number (.posInt (.ofNat document.schemaVersion))),
        some (.array (document.entries.map RegistryEntryWire.toJson))] := rfl

theorem readU16_schemaVersion :
    readU16 (.number (.posInt (.ofNat registrySchemaVersion))) = some registrySchemaVersion :=
  readNat_ofNat (by decide) (by decide)

theorem AcceptedEntries.readBack (h : AcceptedEntries serde entries)
    (hfinite : FiniteEntries entries) :
    RegistryDocument.ofJson (entriesDocument serde entries).toJson =
      some (entriesDocument serde entries) := by
  have hentries : Json.readArray RegistryEntryWire.ofJson
      (.array ((entriesDocument serde entries).entries.map RegistryEntryWire.toJson)) =
        some (entriesDocument serde entries).entries := by
    apply Json.readArray_map
    intro wire hwire
    obtain ⟨entry, hentry, rfl⟩ := List.mem_map.mp hwire
    have hlookup := (mem_toList_iff ..).mp hentry
    rw [(h _ _ hlookup).1.ofJson_toJson, hfinite _ _ hlookup]
    rfl
  rw [RegistryDocument.ofJson, structFields_document]
  dsimp only
  rw [hentries]
  dsimp only [entriesDocument]
  rw [readU16_schemaVersion]
  rfl

theorem AcceptedEntries.not_readBack (h : AcceptedEntries serde entries)
    (hinfinite : ¬ FiniteEntries entries) :
    RegistryDocument.ofJson (entriesDocument serde entries).toJson = none := by
  unfold FiniteEntries at hinfinite
  push Not at hinfinite
  obtain ⟨key, entry, hlookup, hentry⟩ := hinfinite
  have hentries : Json.readArray RegistryEntryWire.ofJson
      (.array ((entriesDocument serde entries).entries.map RegistryEntryWire.toJson)) = none := by
    refine Json.readArray_map_eq_none
      (List.mem_map.mpr ⟨(key, entry), (mem_toList_iff ..).mpr hlookup, rfl⟩) ?_
    rw [(h _ _ hlookup).1.ofJson_toJson, if_neg hentry]
  rw [RegistryDocument.ofJson, structFields_document]
  dsimp only
  rw [hentries]
  dsimp only [entriesDocument]
  rw [readU16_schemaVersion]
  rfl

theorem foldlM_loadEntry {items : List (ExtensionId × ExtensionRegistryEntry)}
    {start : RegistryEntries} (haccepted : ∀ item ∈ items, Accepted serde item.2)
    (hkey : ∀ item ∈ items, item.2.extension = item.1) (hnodup : (items.map (·.1)).Nodup)
    (hfresh : ∀ item ∈ items, start[item.1]? = none) :
    ∃ final, (items.map fun item => entryWire serde item.2).foldlM (loadEntry serde) start =
        .ok final ∧
      ∀ (key : ExtensionId) (entry : ExtensionRegistryEntry), final[key]? = some entry ↔
        start[key]? = some entry ∨ (key, entry) ∈ items := by
  induction items generalizing start with
  | nil => exact ⟨start, rfl, by simp⟩
  | cons item items ih =>
    obtain ⟨own, value⟩ := item
    rw [List.map_cons, List.nodup_cons] at hnodup
    have hown : value.extension = own := hkey _ List.mem_cons_self
    have hnone : start[own]? = none := hfresh _ List.mem_cons_self
    have hload : loadEntry serde start (entryWire serde value) = .ok (start.insert own value) := by
      unfold loadEntry
      rw [(haccepted _ List.mem_cons_self).validateWire, ok_bind, hown, hnone]
      rfl
    have hnext : ∀ other ∈ items, (start.insert own value)[other.1]? = none := by
      intro other hother
      rw [getElem?_insert, if_neg, hfresh other (List.mem_cons_of_mem _ hother)]
      rintro rfl
      exact hnodup.1 (List.mem_map.mpr ⟨other, hother, rfl⟩)
    obtain ⟨final, hfinal, hmem⟩ := ih (List.forall_mem_cons.mp haccepted).2
      (List.forall_mem_cons.mp hkey).2 hnodup.2 hnext
    refine ⟨final, ?_, fun key entry => ?_⟩
    · rw [List.map_cons, List.foldlM_cons, hload]
      exact hfinal
    · rw [hmem, getElem?_insert, List.mem_cons, Prod.mk.injEq]
      by_cases hsame : own = key
      · subst hsame
        rw [if_pos rfl, hnone, Option.some.injEq]
        simp [eq_comm]
      · rw [if_neg hsame]
        simp [Ne.symm hsame]

theorem AcceptedEntries.foldlM (h : AcceptedEntries serde entries) :
    (entriesDocument serde entries).entries.foldlM (loadEntry serde) ∅ = .ok entries := by
  have hlookup : ∀ item ∈ entries.toList, entries[item.1]? = some item.2 :=
    fun item hitem => (mem_toList_iff ..).mp hitem
  have hkeys : (entries.toList.map (·.1)).Nodup := by
    rw [ExtTreeMap.map_fst_toList_eq_keys]
    exact ExtTreeMap.nodup_keys
  obtain ⟨final, hfinal, hmem⟩ := @foldlM_loadEntry serde entries.toList ∅
    (fun item hitem => (h _ _ (hlookup item hitem)).1)
    (fun item hitem => (h _ _ (hlookup item hitem)).2) hkeys (fun _ _ => by simp)
  rw [show final = entries from ?_] at hfinal
  · exact hfinal
  · apply ExtTreeMap.ext_getElem?
    intro key
    apply Option.ext
    intro entry
    rw [hmem, mem_toList_iff]
    simp

end

end KeyReader.Registry
