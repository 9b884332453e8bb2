import KeyReader.JsonCode
import KeyReader.Registry.RoundTrip

/-! A serializer given by a table of texts: whatever the table, what it writes it reads back. -/

namespace KeyReader.Registry

open Extension Package List

/-- The number with these bytes, the highest first. -/
def ofBytes (bytes : Bytes) : Nat := bytes.foldl (fun number byte => number * 256 + byte.toNat) 0

theorem ofBytes_bigEndian (width : Nat) {n : Nat} (h : n < 256 ^ width) :
    ofBytes (Framing.bigEndian width n) = n := by
  induction width generalizing n with
  | zero =>
    rw [Nat.pow_zero] at h
    obtain rfl : n = 0 := by omega
    rfl
  | succ width ih =>
    rw [Nat.pow_succ] at h
    have hhigh := @ih (n / 256) (Nat.div_lt_of_lt_mul (by omega))
    unfold ofBytes at hhigh ⊢
    rw [Framing.bigEndian, foldl_append, hhigh, foldl_cons, foldl_nil, UInt8.toNat_ofNat']
    omega

section

variable (word : UInt64)

def wordBytes : Bytes := Framing.bigEndian 8 word.toNat

def wordOf (bytes : Bytes) : UInt64 := .ofNat (ofBytes (bytes.take 8))

theorem length_wordBytes : (wordBytes word).length = 8 :=
  Framing.length_bigEndian 8 _

theorem wordOf_append (rest : Bytes) : wordOf (wordBytes word ++ rest) = word := by
  have hpow : (256 : Nat) ^ 8 = 18446744073709551616 := by decide
  unfold wordOf
  rw [← length_wordBytes word, take_left, wordBytes,
    ofBytes_bigEndian 8 (hpow ▸ word.toNat_lt), UInt64.ofNat_toNat]

theorem drop_append (rest : Bytes) : (wordBytes word ++ rest).drop 8 = rest := by
  rw [← length_wordBytes word, drop_left]

/-- The word of a number after its kind. -/
def encodeNumber : Number → Bytes
  | .posInt value => 0 :: wordBytes value
  | .negInt value => 1 :: wordBytes value.toUInt64
  | .float value => 2 :: wordBytes ⟨value.value.bits⟩

def floatOf : Option Number :=
  if h : (⟨word.toBitVec⟩ : F64).isFinite = true then some (.float ⟨⟨word.toBitVec⟩, h⟩) else none

end

def decodeNumber : Bytes → Option (Number × Bytes)
  | 0 :: rest => some (.posInt (wordOf rest), rest.drop 8)
  | 1 :: rest => some (.negInt (wordOf rest).toInt64, rest.drop 8)
  | 2 :: rest => (floatOf (wordOf rest)).map fun number => (number, rest.drop 8)
  | _ => none

theorem decodeNumber_append (number : Number) (rest : Bytes) :
    decodeNumber (encodeNumber number ++ rest) = some (number, rest) := by
  cases number with
  | posInt value =>
    rw [encodeNumber, cons_append, decodeNumber, wordOf_append, drop_append]
  | negInt value =>
    rw [encodeNumber, cons_append, decodeNumber, wordOf_append, drop_append]
    rfl
  | float value =>
    have hfloat : floatOf ⟨value.value.bits⟩ = some (.float value) := dif_pos value.finite
    rw [encodeNumber, cons_append, decodeNumber, wordOf_append, drop_append, hfloat]
    rfl

def numberCode : JsonCode.NumberCode Number := ⟨encodeNumber, decodeNumber, decodeNumber_append⟩

/-- A serializer that has these texts for some documents and for some settings. -/
def tableSerde (documents settings : List (JsonValue × Bytes)) : SerdeJson where
  toVec := JsonCode.print numberCode settings
  toVecPretty := JsonCode.print numberCode documents
  toText _ := ""
  fromSlice bytes := JsonCode.parse numberCode documents bytes.dropLast
  fromUtf8Lossy _ := ""

theorem faithful_tableSerde {documents settings : List (JsonValue × Bytes)}
    (hnodup : (documents.map (·.2)).Nodup) (hhead : ∀ entry ∈ documents, entry.2.head? ≠ some 0) :
    (tableSerde documents settings).Faithful := by
  intro json _
  dsimp only [tableSerde]
  rw [dropLast_concat]
  exact JsonCode.parse_print numberCode hnodup hhead json

end KeyReader.Registry

/-! Runs of the operations on a registry: the file loads back to the entries in memory for as long as
the settings that are taken have finite numbers only. -/

namespace KeyReader.Registry

open Checked Extension OrderedMap Package Std Option

/-- What the types of an input hold. -/
def ExtensionRegistryEntryInput.isTyped (input : ExtensionRegistryEntryInput) : Bool :=
  decide (parseExtensionId input.extension = some input.extension) &&
    input.requiredPermissions.all (fun stored => stored.permission.isTyped) &&
    input.settings.all DataValue.isTyped

/-- An operation that changes a registry, with what comes of the write of the file. -/
inductive Operation
  | upsert (write : Checks Unit) (canonicalize : Bytes → Checks Bytes)
      (input : ExtensionRegistryEntryInput) (typed : input.isTyped = true)
  | remove (write : Checks Unit) (extension : ExtensionId)
  | setEnabled (write : Checks Unit) (extension : ExtensionId) (enabled : Bool)
  | setPermissionDecision (write : Checks Unit) (extension : ExtensionId) (permission : Permission)
      (decision : RequiredPermissionDecision) (typed : permission.isTyped = true)
  | replacePermissionDecisions (write : Checks Unit) (extension : ExtensionId)
      (decisions : List StoredPermissionDecision)
      (typed : ∀ stored ∈ decisions, stored.permission.isTyped = true)
  | replaceSettings (write : Checks Unit) (extension : ExtensionId) (settings : Option DataValue)
      (typed : settings.all DataValue.isTyped = true)
  | clearPermissionDecision (write : Checks Unit) (extension : ExtensionId)
      (permission : Permission)

namespace Operation

def settings : Operation → Option DataValue
  | upsert _ _ input _ => input.settings
  | replaceSettings _ _ settings _ => settings
  | _ => none

/-- JSON has every number in the settings that an operation brings. -/
def isFinite (operation : Operation) : Bool := operation.settings.all DataValue.isFinite

end Operation

section
variable (serde : SerdeJson)

def Stored.apply (stored : Stored) : Operation → Checks Stored
  | .upsert write canonicalize input _ => stored.upsert serde write canonicalize input
  | .remove write extension => stored.remove serde write extension
  | .setEnabled write extension enabled => stored.setEnabled serde write extension enabled
  | .setPermissionDecision write extension permission decision _ =>
    stored.setPermissionDecision serde write extension permission decision
  | .replacePermissionDecisions write extension decisions _ =>
    stored.replacePermissionDecisions serde write extension decisions
  | .replaceSettings write extension settings _ =>
    stored.replaceSettings serde write extension settings
  | .clearPermissionDecision write extension permission =>
    stored.clearPermissionDecision serde write extension permission

/-- Operations one after the other, all of which succeed. -/
def Stored.run (stored : Stored) (operations : List Operation) : Checks Stored :=
  operations.foldlM (Stored.apply serde) stored

def Stored.open (path : Bytes) (file : Option Bytes) : Checks Stored := do
  let registry ← ExtensionRegistry.load serde path file
  .ok ⟨registry, file⟩

def Stored.LoadsBack (stored : Stored) : Prop :=
  ExtensionRegistry.load serde stored.registry.path stored.file = .ok stored.registry

end

variable {serde : SerdeJson}

structure Written (serde : SerdeJson) (stored : Stored) : Prop where
  file : stored.file = some (entriesBytes serde stored.registry.entries)
  size_le : stored.registry.entries.size ≤ maxRegistryEntries
  length_le : (entriesBytes serde stored.registry.entries).length ≤ maxRegistryBytes

/-- A registry whose entries were checked, and whose file was read or written. -/
structure Kept (serde : SerdeJson) (stored : Stored) : Prop where
  path : validateRegistryPath stored.registry.path = .ok ()
  accepted : AcceptedEntries serde stored.registry.entries
  backed : Written serde stored ∨ stored.LoadsBack serde ∧ FiniteEntries stored.registry.entries

theorem length_document (entries : RegistryEntries) :
    (entriesDocument serde entries).entries.length = entries.size := by
  rw [entriesDocument, List.length_map, ExtTreeMap.length_toList]

variable {stored : Stored}

theorem loadsBack_of_written (hfaithful : serde.Faithful)
    (hpath : validateRegistryPath stored.registry.path = .ok ())
    (haccepted : AcceptedEntries serde stored.registry.entries) (h : Written serde stored) :
    stored.LoadsBack serde ↔ FiniteEntries stored.registry.entries := by
  have hjson := hfaithful _ haccepted.depth_document
  constructor
  · intro hload
    by_contra hinfinite
    obtain ⟨-, hload⟩ := unit_bind_eq_ok.mp hload
    obtain ⟨entries, hload, -⟩ := bind_eq_ok.mp hload
    rw [h.file] at hload
    obtain ⟨-, hload⟩ := ensure_bind_eq_ok.mp hload
    obtain ⟨json, hparsed, hload⟩ := bind_eq_ok.mp hload
    obtain ⟨document, hdocument, -⟩ := bind_eq_ok.mp hload
    cases hjson.symm.trans (okOr_eq_ok.mp hparsed)
    have hread := okOr_eq_ok.mp hdocument
    rw [haccepted.not_readBack hinfinite] at hread
    cases hread
  · intro hfinite
    have hload : loadEntries serde stored.file = .ok stored.registry.entries := by
      rw [h.file]
      refine ensure_bind_eq_ok.mpr ⟨h.length_le, bind_eq_ok.mpr ⟨_, okOr_eq_ok.mpr hjson, ?_⟩⟩
      refine bind_eq_ok.mpr ⟨_, okOr_eq_ok.mpr (haccepted.readBack hfinite), ?_⟩
      refine ensure_bind_eq_ok.mpr ⟨rfl, ensure_bind_eq_ok.mpr ⟨?_, haccepted.foldlM⟩⟩
      rw [length_document]
      exact h.size_le
    exact unit_bind_eq_ok.mpr ⟨hpath, bind_eq_ok.mpr ⟨_, hload, rfl⟩⟩

theorem Kept.reloads_iff (hfaithful : serde.Faithful) (h : Kept serde stored) :
    stored.LoadsBack serde ↔ FiniteEntries stored.registry.entries := by
  rcases h.backed with hwritten | ⟨hloads, hfinite⟩
  · exact loadsBack_of_written hfaithful h.path h.accepted hwritten
  · exact ⟨fun _ => hfinite, fun _ => hloads⟩

theorem parseExtensionId_eq_some {text extension : String}
    (h : parseExtensionId text = some extension) : extension = text := by
  unfold parseExtensionId at h
  dsimp only at h
  split at h
  · exact (some.inj h).symm
  · cases h

/-- What is known of an entry of the file before it is checked. -/
structure ReadWire (wire : RegistryEntryWire) : Prop where
  extension : parseExtensionId wire.extension = some wire.extension
  permissions : ∀ stored ∈ wire.requiredPermissions, stored.permission.isTyped = true
  settings : ∀ value, wire.settings = some value → value.isTyped = true ∧ value.isFinite = true

variable {json : JsonValue}

theorem StoredPermissionDecision.isTyped_of_ofJson {stored : StoredPermissionDecision}
    (h : StoredPermissionDecision.ofJson json = some stored) :
    stored.permission.isTyped = true := by
  unfold ofJson at h
  split at h
  · obtain ⟨permission, hpermission, h⟩ := bind_eq_some_iff.mp h
    obtain ⟨decision, -, h⟩ := bind_eq_some_iff.mp h
    cases h
    exact Permission.isTyped_of_ofJson hpermission
  · cases h

theorem mem_mapM {α β : Type} {read : α → Option β} {items : List α} {values : List β}
    (h : items.mapM read = some values) {value : β} (hmem : value ∈ values) :
    ∃ item ∈ items, read item = some value := by
  induction items generalizing values with
  | nil =>
    cases h
    cases hmem
  | cons item items ih =>
    rw [List.mapM_cons] at h
    obtain ⟨first, hfirst, h⟩ := bind_eq_some_iff.mp h
    obtain ⟨others, hothers, h⟩ := bind_eq_some_iff.mp h
    cases h
    rcases List.mem_cons.mp hmem with rfl | hmem
    · exact ⟨item, List.mem_cons_self, hfirst⟩
    · obtain ⟨other, hother, hread⟩ := ih hothers hmem
      exact ⟨other, List.mem_cons_of_mem _ hother, hread⟩

theorem mem_readArray {α : Type} {read : JsonValue → Option α} {values : List α}
    (h : Json.readArray read json = some values) {value : α} (hmem : value ∈ values) :
    ∃ item, read item = some value := by
  unfold Json.readArray at h
  split at h
  · obtain ⟨item, -, hread⟩ := mem_mapM h hmem
    exact ⟨item, hread⟩
  · cases h

theorem read_settings {json : Option JsonValue} {settings : Option DataValue}
    (h : readSettings json = some settings) {value : DataValue} (hvalue : settings = some value) :
    value.isTyped = true ∧ value.isFinite = true := by
  subst hvalue
  unfold readSettings at h
  split at h
  · cases h
  · cases h
  · obtain ⟨read, hread, hsome⟩ := map_eq_some_iff.mp h
    cases hsome
    exact read_ofJson hread

theorem read_wire {wire : RegistryEntryWire} (h : RegistryEntryWire.ofJson json = some wire) :
    ReadWire wire := by
  unfold RegistryEntryWire.ofJson at h
  split at h
  · obtain ⟨extension, hextension, h⟩ := bind_eq_some_iff.mp h
    obtain ⟨sourcePath, -, h⟩ := bind_eq_some_iff.mp h
    obtain ⟨hash, -, h⟩ := bind_eq_some_iff.mp h
    obtain ⟨enabled, -, h⟩ := bind_eq_some_iff.mp h
    obtain ⟨permissions, hpermissions, h⟩ := bind_eq_some_iff.mp h
    obtain ⟨settings, hsettings, h⟩ := bind_eq_some_iff.mp h
    cases h
    refine ⟨?_, fun stored hstored => ?_, fun value hvalue => read_settings hsettings hvalue⟩
    · obtain ⟨text, -, hparse⟩ := bind_eq_some_iff.mp hextension
      obtain rfl := parseExtensionId_eq_some hparse
      exact hparse
    · obtain ⟨item, hread⟩ := mem_readArray hpermissions hstored
      exact StoredPermissionDecision.isTyped_of_ofJson hread
  · cases h

variable {entry : ExtensionRegistryEntry}

theorem accepted_of_validateWire {wire : RegistryEntryWire} (hwire : ReadWire wire)
    (h : validateWire serde wire = .ok entry) : Accepted serde entry ∧ entry.isFinite = true := by
  obtain ⟨hhash, h⟩ := unit_bind_eq_ok.mp h
  obtain ⟨hpath, h⟩ := unit_bind_eq_ok.mp h
  obtain ⟨permissions, hpermissions, h⟩ := bind_eq_ok.mp h
  obtain ⟨settings, hsettings, h⟩ := bind_eq_ok.mp h
  cases h
  obtain rfl := validateSettings_eq_ok hsettings
  refine ⟨⟨hwire.extension, hhash, hpath, validate_stable hpermissions, ?_, hsettings,
    fun value hvalue => (hwire.settings value hvalue).1⟩, ?_⟩
  · intro stored hstored
    obtain ⟨-, rfl⟩ := validatePermissionDecisions_eq_ok.mp hpermissions
    exact hwire.permissions stored ((sort_perm _).mem_iff.mp hstored)
  · have hsettings := hwire.settings
    unfold ExtensionRegistryEntry.isFinite
    cases hvalue : wire.settings with
    | none => rfl
    | some value => exact (hsettings value hvalue).2

def LoadedEntries (serde : SerdeJson) (entries : RegistryEntries) : Prop :=
  AcceptedEntries serde entries ∧ FiniteEntries entries

variable {entries : RegistryEntries}

theorem loadedEntries_insert (h : LoadedEntries serde entries) (hentry : Accepted serde entry)
    (hfinite : entry.isFinite = true) :
    LoadedEntries serde (entries.insert entry.extension entry) := by
  refine ⟨fun key other hlookup => ?_, fun key other hlookup => ?_⟩
  · rw [getElem?_insert] at hlookup
    split at hlookup
    · rename_i hsame
      cases hlookup
      exact ⟨hentry, hsame⟩
    · exact h.1 key other hlookup
  · rw [getElem?_insert] at hlookup
    split at hlookup
    · cases hlookup
      exact hfinite
    · exact h.2 key other hlookup

theorem loadedEntries_foldlM {wires : List RegistryEntryWire} {start final : RegistryEntries}
    (hstart : LoadedEntries serde start) (hwires : ∀ wire ∈ wires, ReadWire wire)
    (h : wires.foldlM (loadEntry serde) start = .ok final) : LoadedEntries serde final := by
  induction wires generalizing start with
  | nil =>
    cases h
    exact hstart
  | cons wire wires ih =>
    obtain ⟨next, hfirst, h⟩ := bind_eq_ok.mp h
    obtain ⟨entry, hentry, hfirst⟩ := bind_eq_ok.mp hfirst
    obtain ⟨-, hfirst⟩ := ensure_bind_eq_ok.mp hfirst
    cases hfirst
    obtain ⟨haccepted, hfinite⟩ := accepted_of_validateWire (hwires wire List.mem_cons_self) hentry
    exact ih (loadedEntries_insert hstart haccepted hfinite) (List.forall_mem_cons.mp hwires).2 h

theorem loadedEntries_empty : LoadedEntries serde ∅ := by
  refine ⟨fun key entry hlookup => ?_, fun key entry hlookup => ?_⟩
  · simp at hlookup
  · simp at hlookup

variable {file : Option Bytes}

theorem loadedEntries_of_load (h : loadEntries serde file = .ok entries) :
    LoadedEntries serde entries := by
  cases file with
  | none =>
    cases h
    exact loadedEntries_empty
  | some bytes =>
    obtain ⟨-, h⟩ := ensure_bind_eq_ok.mp h
    obtain ⟨json, -, h⟩ := bind_eq_ok.mp h
    obtain ⟨document, hdocument, h⟩ := bind_eq_ok.mp h
    obtain ⟨-, h⟩ := ensure_bind_eq_ok.mp h
    obtain ⟨-, h⟩ := ensure_bind_eq_ok.mp h
    refine loadedEntries_foldlM loadedEntries_empty (fun wire hwire => ?_) h
    have hread := okOr_eq_ok.mp hdocument
    unfold RegistryDocument.ofJson at hread
    split at hread
    · obtain ⟨version, -, hread⟩ := bind_eq_some_iff.mp hread
      obtain ⟨wires, hwires, hread⟩ := bind_eq_some_iff.mp hread
      cases hread
      obtain ⟨item, hitem⟩ := mem_readArray hwires hwire
      exact read_wire hitem
    · cases hread

theorem finite_of_open {path : Bytes} (h : Stored.open serde path file = .ok stored) :
    FiniteEntries stored.registry.entries := by
  obtain ⟨registry, hload, h⟩ := bind_eq_ok.mp h
  cases h
  obtain ⟨-, hload⟩ := unit_bind_eq_ok.mp hload
  obtain ⟨entries, hentries, hload⟩ := bind_eq_ok.mp hload
  cases hload
  exact (loadedEntries_of_load hentries).2

theorem kept_of_open {path : Bytes} (h : Stored.open serde path file = .ok stored) :
    Kept serde stored := by
  obtain ⟨registry, hload, h⟩ := bind_eq_ok.mp h
  cases h
  have hloads := hload
  obtain ⟨hpath, hload⟩ := unit_bind_eq_ok.mp hload
  obtain ⟨entries, hentries, hload⟩ := bind_eq_ok.mp hload
  cases hload
  obtain ⟨haccepted, hfinite⟩ := loadedEntries_of_load hentries
  exact ⟨hpath, haccepted, .inr ⟨hloads, hfinite⟩⟩

/-- What the entries are that an operation writes. -/
structure Brings (serde : SerdeJson) (stored : Stored) (operation : Operation)
    (entries : RegistryEntries) : Prop where
  accepted : AcceptedEntries serde entries
  brought : ∀ value, operation.settings = some value →
    ∃ (key : ExtensionId) (entry : ExtensionRegistryEntry), entries[key]? = some entry ∧
      entry.settings = some value
  origin : ∀ (key : ExtensionId) (entry : ExtensionRegistryEntry), entries[key]? = some entry →
    operation.settings = entry.settings ∨ ∃ (own : ExtensionId) (old : ExtensionRegistryEntry),
        stored.registry.entries[own]? = some old ∧ old.settings = entry.settings

section
variable {stored next : Stored} {operation : Operation}

section

variable (hstored : AcceptedEntries serde stored.registry.entries)

include hstored

theorem brings_insert {key : ExtensionId} (hentry : Accepted serde entry)
    (hkey : entry.extension = key)
    (hsettings : operation.settings = entry.settings ∨ operation.settings = none ∧
      ∃ (own : ExtensionId) (old : ExtensionRegistryEntry), stored.registry.entries[own]? =
      some old ∧ old.settings = entry.settings) :
    Brings serde stored operation (stored.registry.entries.insert key entry) where
  accepted other found hlookup := by
    rw [getElem?_insert] at hlookup
    split at hlookup
    · rename_i hsame
      cases hlookup
      exact ⟨hentry, hkey.trans hsame⟩
    · exact hstored other found hlookup
  brought value hvalue := by
    rcases hsettings with hsettings | ⟨hnone, -⟩
    · exact ⟨key, entry, by rw [getElem?_insert, if_pos rfl], hsettings ▸ hvalue⟩
    · rw [hnone] at hvalue
      cases hvalue
  origin other found hlookup := by
    rw [getElem?_insert] at hlookup
    split at hlookup
    · cases hlookup
      exact hsettings.imp_right (·.2)
    · exact .inr ⟨other, found, hlookup, rfl⟩

theorem brings_erase (key : ExtensionId) (hsettings : operation.settings = none) :
    Brings serde stored operation (stored.registry.entries.erase key) where
  accepted other found hlookup := by
    rw [getElem?_erase] at hlookup
    split at hlookup
    · cases hlookup
    · exact hstored other found hlookup
  brought value hvalue := by
    rw [hsettings] at hvalue
    cases hvalue
  origin other found hlookup := by
    rw [getElem?_erase] at hlookup
    split at hlookup
    · cases hlookup
    · exact .inr ⟨other, found, hlookup, rfl⟩

end

theorem accepted_of_validateInput {canonicalize : Bytes → Checks Bytes}
    {input : ExtensionRegistryEntryInput} (htyped : input.isTyped = true)
    (h : validateInput serde canonicalize input = .ok entry) :
    Accepted serde entry ∧ entry.settings = input.settings := by
  unfold ExtensionRegistryEntryInput.isTyped at htyped
  rw [Bool.and_eq_true, Bool.and_eq_true] at htyped
  obtain ⟨⟨hextension, hpermissionTypes⟩, hsettingTypes⟩ := htyped
  obtain ⟨hhash, h⟩ := unit_bind_eq_ok.mp h
  obtain ⟨sourcePath, -, h⟩ := bind_eq_ok.mp h
  obtain ⟨hpath, h⟩ := unit_bind_eq_ok.mp h
  obtain ⟨permissions, hpermissions, h⟩ := bind_eq_ok.mp h
  obtain ⟨settings, hsettings, h⟩ := bind_eq_ok.mp h
  cases h
  obtain rfl := validateSettings_eq_ok hsettings
  refine ⟨⟨of_decide_eq_true hextension, hhash, hpath, validate_stable hpermissions, ?_, hsettings,
    fun value hvalue => ?_⟩, rfl⟩
  · intro stored hstored
    obtain ⟨-, rfl⟩ := validatePermissionDecisions_eq_ok.mp hpermissions
    exact List.all_eq_true.mp hpermissionTypes stored ((sort_perm _).mem_iff.mp hstored)
  · dsimp only at hvalue
    rw [hvalue] at hsettingTypes
    exact hsettingTypes

/-- An operation that succeeds leaves everything as it is, or it writes what it brings. -/
def Effect (serde : SerdeJson) (stored : Stored) (operation : Operation) (next : Stored) : Prop :=
  (next = stored ∧ operation.settings = none) ∨
    ∃ write entries, Brings serde stored operation entries ∧
      stored.commit serde write entries = .ok next

theorem effect_modify {write : Checks Unit} {extension : ExtensionId}
    {change : ExtensionRegistryEntry → Checks ExtensionRegistryEntry}
    (hstored : AcceptedEntries serde stored.registry.entries)
    (hchange : ∀ entry changed, Accepted serde entry → change entry = .ok changed →
      Accepted serde changed ∧ changed.extension = entry.extension ∧
        (operation.settings = changed.settings ∨
          operation.settings = none ∧ entry.settings = changed.settings))
    (h : stored.modify serde write extension change = .ok next) :
    Effect serde stored operation next := by
  obtain ⟨entry, hentry, h⟩ := bind_eq_ok.mp h
  obtain ⟨changed, hchanged, h⟩ := bind_eq_ok.mp h
  have hlookup := okOr_eq_ok.mp hentry
  obtain ⟨haccepted, hkey⟩ := hstored _ _ hlookup
  obtain ⟨hnew, hsame, hsettings⟩ := hchange entry changed haccepted hchanged
  refine .inr ⟨write, _, brings_insert hstored hnew (hsame.trans hkey) ?_, h⟩
  exact hsettings.imp_right fun hold => ⟨hold.1, extension, entry, hlookup, hold.2⟩

theorem effect_apply (hstored : AcceptedEntries serde stored.registry.entries)
    (h : stored.apply serde operation = .ok next) : Effect serde stored operation next := by
  cases operation with
  | upsert write canonicalize input typed =>
    obtain ⟨entry, hentry, h⟩ := bind_eq_ok.mp h
    obtain ⟨haccepted, hsettings⟩ := accepted_of_validateInput typed hentry
    exact .inr ⟨write, _, brings_insert hstored haccepted rfl (.inl hsettings.symm), h⟩
  | remove write extension =>
    unfold Stored.apply Stored.remove at h
    dsimp only at h
    split at h
    · exact .inl ⟨(Except.ok.inj h).symm, rfl⟩
    · exact .inr ⟨write, _, brings_erase hstored extension rfl, h⟩
  | setEnabled write extension enabled =>
    obtain ⟨entry, hentry, h⟩ := bind_eq_ok.mp h
    have hlookup := okOr_eq_ok.mp hentry
    obtain ⟨haccepted, hkey⟩ := hstored _ _ hlookup
    split at h
    · exact .inl ⟨(Except.ok.inj h).symm, rfl⟩
    · have hnew : Accepted serde { entry with enabled } :=
        { extension := haccepted.extension, hash := haccepted.hash, path := haccepted.path
          permissions := haccepted.permissions, typedPermissions := haccepted.typedPermissions
          settings := haccepted.settings, typedSettings := haccepted.typedSettings }
      exact .inr ⟨write, _, brings_insert hstored hnew hkey
        (.inr ⟨rfl, extension, entry, hlookup, rfl⟩), h⟩
  | setPermissionDecision write extension permission decision typed =>
    refine effect_modify hstored (fun entry changed haccepted hchange => ?_) h
    obtain ⟨hvalid, hchange⟩ := unit_bind_eq_ok.mp hchange
    obtain ⟨decisions, hdecisions, hchange⟩ := bind_eq_ok.mp hchange
    cases hchange
    have hall := (validate_eq_self.mp haccepted.permissions).1
    have hput := decisions_putDecision hall hvalid hdecisions
    refine ⟨{ haccepted with permissions := validate_sorted hput, typedPermissions := ?_ }, rfl,
      .inr ⟨rfl, rfl⟩⟩
    intro stored hmem
    exact typed_putDecision haccepted.typedPermissions typed hdecisions stored
      ((sort_perm decisions).mem_iff.mp hmem)
  | replacePermissionDecisions write extension decisions typed =>
    obtain ⟨sorted, hsorted, h⟩ := bind_eq_ok.mp h
    refine effect_modify hstored (fun entry changed haccepted hchange => ?_) h
    cases hchange
    refine ⟨{ haccepted with permissions := validate_stable hsorted, typedPermissions := ?_ }, rfl,
      .inr ⟨rfl, rfl⟩⟩
    intro stored hmem
    obtain ⟨-, rfl⟩ := validatePermissionDecisions_eq_ok.mp hsorted
    exact typed stored ((sort_perm decisions).mem_iff.mp hmem)
  | replaceSettings write extension settings typed =>
    obtain ⟨kept, hkept, hmodify⟩ := bind_eq_ok.mp h
    obtain rfl := validateSettings_eq_ok hkept
    refine effect_modify hstored (fun entry changed haccepted hchange => ?_) hmodify
    cases hchange
    refine ⟨{ haccepted with settings := hkept, typedSettings := fun value hvalue => ?_ }, rfl,
      .inl rfl⟩
    dsimp only at hvalue
    rw [hvalue] at typed
    exact typed
  | clearPermissionDecision write extension permission =>
    obtain ⟨entry, hentry, h⟩ := bind_eq_ok.mp h
    have hlookup := okOr_eq_ok.mp hentry
    obtain ⟨haccepted, hkey⟩ := hstored _ _ hlookup
    dsimp only at h
    split at h
    · exact .inl ⟨(Except.ok.inj h).symm, rfl⟩
    · have hnew : Accepted serde { entry with
          requiredPermissions := entry.requiredPermissions.filter (·.permission ≠ permission) } :=
        { haccepted with
          permissions := validate_filter haccepted.permissions _
          typedPermissions := fun stored hmem =>
            haccepted.typedPermissions stored (List.mem_of_mem_filter hmem) }
      exact .inr ⟨write, _, brings_insert hstored hnew hkey
        (.inr ⟨rfl, extension, entry, hlookup, rfl⟩), h⟩

end

variable {next : Stored}

theorem written_commit {write : Checks Unit} (h : stored.commit serde write entries = .ok next) :
    next.registry = ⟨stored.registry.path, entries⟩ ∧ Written serde next := by
  obtain ⟨bytes, hbytes, h⟩ := bind_eq_ok.mp h
  cases h
  obtain ⟨hsize, hbytes⟩ := ensure_bind_eq_ok.mp hbytes
  obtain ⟨hlength, hbytes⟩ := ensure_bind_eq_ok.mp hbytes
  obtain ⟨-, hbytes⟩ := unit_bind_eq_ok.mp hbytes
  cases hbytes
  exact ⟨rfl, rfl, hsize, hlength⟩

variable {operation : Operation}

theorem Kept.apply (h : Kept serde stored) (happly : stored.apply serde operation = .ok next) :
    Kept serde next := by
  rcases effect_apply h.accepted happly with ⟨rfl, -⟩ | ⟨write, entries, hbrings, hcommit⟩
  · exact h
  · obtain ⟨hregistry, hwritten⟩ := written_commit hcommit
    refine ⟨?_, ?_, .inl hwritten⟩
    · rw [hregistry]
      exact h.path
    · rw [hregistry]
      exact hbrings.accepted

theorem finite_apply (h : Kept serde stored) (hfinite : FiniteEntries stored.registry.entries)
    (hoperation : operation.isFinite = true) (happly : stored.apply serde operation = .ok next) :
    FiniteEntries next.registry.entries := by
  rcases effect_apply h.accepted happly with ⟨rfl, -⟩ | ⟨write, entries, hbrings, hcommit⟩
  · exact hfinite
  · rw [(written_commit hcommit).1]
    intro key entry hlookup
    unfold ExtensionRegistryEntry.isFinite
    rcases hbrings.origin key entry hlookup with hsame | ⟨own, old, hold, hsame⟩
    · rw [← hsame]
      exact hoperation
    · rw [← hsame]
      exact hfinite own old hold

theorem finite_of_loadsBack (hfaithful : serde.Faithful) (h : Kept serde stored)
    (happly : stored.apply serde operation = .ok next) (hloads : next.LoadsBack serde) :
    operation.isFinite = true := by
  have hfinite := ((h.apply happly).reloads_iff hfaithful).mp hloads
  cases hvalue : operation.settings with
  | none =>
    unfold Operation.isFinite
    rw [hvalue]
    rfl
  | some value =>
    rcases effect_apply h.accepted happly with ⟨-, hnone⟩ | ⟨write, entries, hbrings, hcommit⟩
    · rw [hnone] at hvalue
      cases hvalue
    · obtain ⟨key, entry, hlookup, hsettings⟩ := hbrings.brought value hvalue
      rw [(written_commit hcommit).1] at hfinite
      have hentry := hfinite key entry hlookup
      unfold ExtensionRegistryEntry.isFinite at hentry
      unfold Operation.isFinite
      rwa [hvalue, ← hsettings]

theorem Kept.run {start final : Stored} {operations : List Operation} (h : Kept serde start)
    (hrun : start.run serde operations = .ok final) : Kept serde final := by
  induction operations generalizing start with
  | nil =>
    cases hrun
    exact h
  | cons operation operations ih =>
    obtain ⟨next, happly, hrun⟩ := bind_eq_ok.mp hrun
    exact ih (h.apply happly) hrun

theorem finite_run {start final : Stored} {operations : List Operation} (h : Kept serde start)
    (hfinite : FiniteEntries start.registry.entries)
    (hoperations : ∀ operation ∈ operations, operation.isFinite = true)
    (hrun : start.run serde operations = .ok final) : FiniteEntries final.registry.entries := by
  induction operations generalizing start with
  | nil =>
    cases hrun
    exact hfinite
  | cons operation operations ih =>
    obtain ⟨next, happly, hrun⟩ := bind_eq_ok.mp hrun
    have hnext := finite_apply h hfinite (hoperations operation List.mem_cons_self) happly
    exact ih (h.apply happly) hnext (List.forall_mem_cons.mp hoperations).2 hrun

theorem run_append {start final : Stored} {done rest : List Operation} :
    start.run serde (done ++ rest) = .ok final ↔
      ∃ stored, start.run serde done = .ok stored ∧ stored.run serde rest = .ok final := by
  unfold Stored.run
  rw [List.foldlM_append, bind_eq_ok]

/-- Every state of a run loads back to the entries in memory exactly when every settings value that
the run takes has finite numbers only. -/
theorem loadsBack_iff_finite (serde : SerdeJson) (hfaithful : serde.Faithful) (path : Bytes)
    (file : Option Bytes) (start final : Stored) (operations : List Operation)
    (hstart : Stored.open serde path file = .ok start)
    (hrun : start.run serde operations = .ok final) :
    (∀ done stored, done <+: operations → start.run serde done = .ok stored →
      stored.LoadsBack serde) ↔ ∀ operation ∈ operations, operation.isFinite = true := by
  have hkept := kept_of_open hstart
  have hfirst := finite_of_open hstart
  constructor
  · intro hloads operation hoperation
    obtain ⟨done, rest, rfl⟩ := List.append_of_mem hoperation
    obtain ⟨stored, hdone, hrun⟩ := run_append.mp hrun
    obtain ⟨next, happly, -⟩ := bind_eq_ok.mp hrun
    have hnext : start.run serde (done ++ [operation]) = .ok next :=
      run_append.mpr ⟨stored, hdone, bind_eq_ok.mpr ⟨next, happly, rfl⟩⟩
    exact finite_of_loadsBack hfaithful (hkept.run hdone) happly
      (hloads _ next ⟨rest, by simp⟩ hnext)
  · intro hfinite done stored hdone hrun
    apply ((hkept.run hrun).reloads_iff hfaithful).mpr
    exact finite_run hkept hfirst (fun operation hmem => hfinite operation (hdone.subset hmem)) hrun

namespace Example

def zoomSettings (zoom : F64) : DataValue := .record [("zoom", .number zoom)]

/-- The float `1.5`. -/
def oneAndHalf : F64 := ⟨0x3FF8000000000000⟩

def infinity : F64 := ⟨0x7FF0000000000000⟩

def hash : String := "0000000000000000000000000000000000000000000000000000000000000000"

def document (zoom : F64) : RegistryDocument :=
  ⟨1, [{ extension := "org.example.stats", sourcePath := "/packages/stats.keyext"
         expectedContentSha256 := hash, enabled := true, requiredPermissions := []
         settings := some (zoomSettings zoom) }]⟩

def documentText (zoom : String) : String :=
  "\x7b\n  \"schema_version\": 1,\n  \"entries\": [\n    \x7b\n" ++
    "      \"extension\": \"org.example.stats\",\n" ++
    "      \"source_path\": \"/packages/stats.keyext\",\n" ++
    "      \"expected_content_sha256\": \"" ++ hash ++ "\",\n" ++
    "      \"enabled\": true,\n" ++
    "      \"required_permissions\": [],\n" ++
    "      \"settings\": \x7b\n        \"type\": \"record\",\n        \"value\": \x7b\n" ++
    "          \"zoom\": \x7b\n            \"type\": \"number\",\n" ++
    "            \"value\": " ++ zoom ++ "\n          \x7d\n        \x7d\n      \x7d\n" ++
    "    \x7d\n  ]\n\x7d"

def settingsText (zoom : String) : String :=
  "\x7b\"type\":\"record\",\"value\":\x7b\"zoom\":\x7b\"type\":\"number\",\"value\":" ++ zoom ++
    "\x7d\x7d\x7d"

def textSerde : SerdeJson :=
  tableSerde [((document oneAndHalf).toJson, pathBytes (documentText "1.5")),
      ((document infinity).toJson, pathBytes (documentText "null"))]
    [((zoomSettings oneAndHalf).toJson, pathBytes (settingsText "1.5")),
      ((zoomSettings infinity).toJson, pathBytes (settingsText "null"))]

theorem faithful : textSerde.Faithful := faithful_tableSerde (by decide +kernel) (by decide +kernel)

def path : Bytes := pathBytes "/data/extensions.json"

def input (zoom : F64) : ExtensionRegistryEntryInput where
  extension := "org.example.stats"
  sourcePath := pathBytes "/packages/stats.keyext"
  expectedContentSha256 := hash
  enabled := true
  requiredPermissions := []
  settings := some (zoomSettings zoom)

def upsert (zoom : F64) (h : (input zoom).isTyped = true) : Operation :=
  .upsert (.ok ()) .ok (input zoom) h

/-- The registry that the operations start from, whose file is missing. -/
def start : Stored := ⟨⟨path, ∅⟩, none⟩

def finite : List Operation :=
  [upsert oneAndHalf (by decide +kernel), .setEnabled (.ok ()) "org.example.stats" true]

def infinite : List Operation := [upsert infinity (by decide +kernel)]

theorem open_start : Stored.open textSerde path none = .ok start := by
  have hpath : validateRegistryPath path = .ok () := by decide +kernel
  exact bind_eq_ok.mpr ⟨_, unit_bind_eq_ok.mpr ⟨hpath, rfl⟩, rfl⟩

theorem loadsBack_finite : ∃ final, start.run textSerde finite = .ok final ∧
    ((∀ done stored, done <+: finite → start.run textSerde done = .ok stored →
      stored.LoadsBack textSerde) ↔ ∀ operation ∈ finite, operation.isFinite = true) := by
  have hok : (start.run textSerde finite).isOk = true := by decide +kernel
  obtain ⟨final, hrun⟩ := exists_of_isOk hok
  exact ⟨final, hrun, loadsBack_iff_finite textSerde faithful path none start final finite
    open_start hrun⟩

/-- An infinite number in the settings of one extension loses the whole registry. -/
theorem infinite_loses_registry : textSerde.Faithful ∧ Stored.open textSerde path none = .ok start ∧
    ∃ final, start.run textSerde infinite = .ok final ∧
      (ExtensionRegistry.load textSerde final.registry.path final.file).isOk = false := by
  refine ⟨faithful, open_start, ?_⟩
  have hlost : (start.run textSerde infinite).toOption.any (fun final =>
      !(ExtensionRegistry.load textSerde final.registry.path final.file).isOk) = true := by
    decide +kernel
  cases hrun : start.run textSerde infinite with
  | error failure =>
    rw [hrun] at hlost
    cases hlost
  | ok final =>
    rw [hrun] at hlost
    exact ⟨final, rfl, (Bool.not_eq_true' _).mp hlost⟩

end Example

end KeyReader.Registry
