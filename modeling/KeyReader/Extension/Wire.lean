import KeyReader.Extension.Manifest
import KeyReader.Json
import Mathlib.Algebra.Order.Ring.Nat

/-! The JSON of values and permissions: how they are written and how they are read. -/

namespace KeyReader.Extension

open Machine List Option Bool

/-- A float that JSON has a number for. -/
structure FiniteFloat where
  value : F64
  finite : value.isFinite = true

/-- The bits of the float that is next to a natural number, the even one of two. -/
def roundNat (n : Nat) : Nat :=
  let exponent := n.log2
  if n = 0 then 0
  else if exponent ≤ 52 then
    (exponent + 1022) * 4503599627370496 + n * 2 ^ (52 - exponent)
  else
    let unit := 2 ^ (exponent - 52)
    let low := n / unit
    let up := unit < 2 * (n % unit) ∨ (unit = 2 * (n % unit) ∧ low % 2 = 1)
    (exponent + 1022) * 4503599627370496 + if up then low + 1 else low

theorem roundNat_lt {n : Nat} (h : n < 2 ^ 64) : roundNat n < 1088 * 4503599627370496 := by
  unfold roundNat
  dsimp only
  split
  · decide
  rename_i hne
  have hexponent : n.log2 < 64 := (Nat.log2_lt hne).mpr h
  have hn : n < 2 ^ (n.log2 + 1) := Nat.lt_log2_self
  split
  · rename_i hsmall
    have hscaled : n * 2 ^ (52 - n.log2) < 2 ^ (n.log2 + 1) * 2 ^ (52 - n.log2) :=
      Nat.mul_lt_mul_of_pos_right hn (Nat.two_pow_pos _)
    have hpow : 2 ^ (n.log2 + 1) * 2 ^ (52 - n.log2) = 9007199254740992 := by
      rw [← Nat.pow_add, show n.log2 + 1 + (52 - n.log2) = 53 by omega]
    omega
  · rename_i hlarge
    have hlow : n / 2 ^ (n.log2 - 52) < 9007199254740992 := by
      apply Nat.div_lt_of_lt_mul
      have hpow : 2 ^ (n.log2 - 52) * 9007199254740992 = 2 ^ (n.log2 + 1) := by
        rw [show 9007199254740992 = 2 ^ 53 by decide, ← Nat.pow_add,
          show n.log2 - 52 + 53 = n.log2 + 1 by omega]
      omega
    split <;> omega

theorem isFinite_of_lt {bits : Nat} (h : bits % 9223372036854775808 < 1088 * 4503599627370496) :
    (⟨BitVec.ofNat 64 bits⟩ : F64).isFinite = true := by
  apply bne_iff_ne.mpr
  intro heq
  have hbit : ∀ i < 64, BitVec.getLsbD (0x7FF0000000000000 : BitVec 64) i = true →
      Nat.testBit bits i = true := by
    intro i hi hmask
    have hand := congrArg (fun x : BitVec 64 => x.getLsbD i) heq
    rw [BitVec.getLsbD_and, hmask, Bool.and_true, BitVec.getLsbD_ofNat] at hand
    simpa [hi] using hand
  have hhigh := hbit 62 (by decide) (by decide)
  have hnext := hbit 61 (by decide) (by decide)
  rw [Nat.testBit_eq_decide_div_mod_eq, decide_eq_true_eq] at hhigh hnext
  omega

/-- An integer as a float. -/
def FiniteFloat.ofNat (n : Nat) (h : n < 2 ^ 64) : FiniteFloat :=
  ⟨⟨BitVec.ofNat 64 (roundNat n)⟩, isFinite_of_lt (by have := roundNat_lt h; omega)⟩

def FiniteFloat.negate (n : Nat) (h : n < 2 ^ 64) : FiniteFloat :=
  ⟨⟨BitVec.ofNat 64 (9223372036854775808 + roundNat n)⟩,
    isFinite_of_lt (by have := roundNat_lt h; omega)⟩

/-- `serde_json::Number`. -/
inductive Number
  | posInt (value : UInt64)
  | negInt (value : Int64)
  | float (value : FiniteFloat)

def Number.ofInt (value : Int) : Number :=
  if 0 ≤ value then .posInt (.ofNat value.toNat) else .negInt (.ofInt value)

abbrev JsonValue := Json Number

def readNat (maximum : Nat) : JsonValue → Option Nat
  | .number (.posInt value) => if value.toNat ≤ maximum then some value.toNat else none
  | _ => none

/-- `u16`. -/
def readU16 : JsonValue → Option Nat := readNat 65535

def readU64 : JsonValue → Option Nat := readNat u64Max

/-- `i64::MAX`. -/
def i64Max : Int := 9223372036854775807

/-- `i64::MIN`. -/
def i64Min : Int := -9223372036854775808

def Number.toInt? : Number → Option Int
  | .posInt value => if (value.toNat : Int) ≤ i64Max then some value.toNat else none
  | .negInt value => some value.toInt
  | .float _ => none

def Number.toFloat : Number → FiniteFloat
  | .posInt value => .ofNat value.toNat value.toNat_lt
  | .negInt value => .negate value.toInt.natAbs (by
      have hlow := value.le_toInt
      have hhigh := value.toInt_lt
      omega)
  | .float value => value

theorem toInt?_ofInt {value : Int} (hlow : i64Min ≤ value) (hhigh : value ≤ i64Max) :
    (Number.ofInt value).toInt? = some value := by
  unfold i64Min at hlow
  unfold i64Max at hhigh
  unfold Number.ofInt
  split
  · rename_i hpos
    have hnat : (UInt64.ofNat value.toNat).toNat = value.toNat :=
      UInt64.toNat_ofNat_of_lt' (by have : UInt64.size = 18446744073709551616 := rfl; omega)
    rw [Number.toInt?, hnat, if_pos (by unfold i64Max; omega), Int.toNat_of_nonneg hpos]
  · rw [Number.toInt?, Int64.toInt_ofInt_of_le (by omega) (by omega)]

theorem readNat_ofNat {n maximum : Nat} (h : n ≤ maximum) (hmaximum : maximum ≤ u64Max) :
    readNat maximum (.number (.posInt (.ofNat n))) = some n := by
  unfold u64Max at hmaximum
  have hnat : (UInt64.ofNat n).toNat = n :=
    UInt64.toNat_ofNat_of_lt' (by have : UInt64.size = 18446744073709551616 := rfl; omega)
  rw [readNat, hnat, if_pos h]

/-- A float is written as `null` when JSON has no number for it. -/
def floatJson (value : F64) : JsonValue :=
  if h : value.isFinite = true then .number (.float ⟨value, h⟩) else .null

/-- An adjacently tagged variant. -/
def tagged (tag content name : String) (value : JsonValue) : JsonValue :=
  .object [(tag, .string name), (content, value)]

mutual

def DataValue.toJson : DataValue → JsonValue
  | .null => .object [("type", .string "null")]
  | .boolean value => tagged "type" "value" "boolean" (.bool value)
  | .integer value => tagged "type" "value" "integer" (.number (.ofInt value))
  | .number value => tagged "type" "value" "number" (floatJson value)
  | .string value => tagged "type" "value" "string" (.string value)
  | .list values => tagged "type" "value" "list" (.array (toJsonList values))
  | .record fields => tagged "type" "value" "record" (.object (toJsonFields fields))

def DataValue.toJsonList : List DataValue → List JsonValue
  | [] => []
  | value :: values => DataValue.toJson value :: toJsonList values

def DataValue.toJsonFields : List (String × DataValue) → List (String × JsonValue)
  | [] => []
  | (key, value) :: fields => (key, DataValue.toJson value) :: toJsonFields fields

end

/-- The tag of a value. -/
def dataKind (fields : Json.Members Number) : Option String :=
  match Json.variant "type" "value" (.object fields) with
  | some (kind, _) => some kind
  | none => none

mutual

def DataValue.ofJson : JsonValue → Option DataValue
  | .object fields => (dataKind fields).bind fun kind => ofMembers kind fields
  | .array [.string kind, content] => ofContent kind content
  | _ => none

def DataValue.ofMembers (kind : String) : List (String × JsonValue) → Option DataValue
  | [] => if kind = "null" then some .null else none
  | (name, content) :: fields =>
    if name = "value" then ofContent kind content else ofMembers kind fields

def DataValue.ofContent (kind : String) : JsonValue → Option DataValue
  | .null => if kind = "null" then some .null else none
  | .bool value => if kind = "boolean" then some (.boolean value) else none
  | .number value =>
    if kind = "integer" then value.toInt?.map .integer
    else if kind = "number" then some (.number value.toFloat.value)
    else none
  | .string value => if kind = "string" then some (.string value) else none
  | .array values => if kind = "list" then (ofJsonList values).map .list else none
  | .object fields => if kind = "record" then (ofJsonFields fields []).map .record else none

def DataValue.ofJsonList : List JsonValue → Option (List DataValue)
  | [] => some []
  | value :: values => do
    let value ← DataValue.ofJson value
    let values ← ofJsonList values
    some (value :: values)

/-- The fields of a map after the ones read before. -/
def DataValue.ofJsonFields : List (String × JsonValue) → Fields → Option Fields
  | [], read => some read
  | (key, value) :: fields, read => do
    let value ← DataValue.ofJson value
    ofJsonFields fields (Assoc.insert key value read)

end

def keysAscend (fields : Fields) : Bool :=
  decide ((fields.map (·.1)).Pairwise (· < ·))

mutual

/-- What the type of a value holds: integers of 64 bits, and the keys of a map in their order. -/
def DataValue.isTyped : DataValue → Bool
  | .integer value => i64Min ≤ value ∧ value ≤ i64Max
  | .list values => isTypedList values
  | .record fields => keysAscend fields && isTypedFields fields
  | .null => true
  | .boolean _ => true
  | .number _ => true
  | .string _ => true

def DataValue.isTypedList : List DataValue → Bool
  | [] => true
  | value :: values => DataValue.isTyped value && isTypedList values

def DataValue.isTypedFields : List (String × DataValue) → Bool
  | [] => true
  | (_, value) :: fields => DataValue.isTyped value && isTypedFields fields

end

mutual

def DataValue.isFinite : DataValue → Bool
  | .number value => value.isFinite
  | .list values => isFiniteList values
  | .record fields => isFiniteFields fields
  | .null => true
  | .boolean _ => true
  | .integer _ => true
  | .string _ => true

def DataValue.isFiniteList : List DataValue → Bool
  | [] => true
  | value :: values => DataValue.isFinite value && isFiniteList values

def DataValue.isFiniteFields : List (String × DataValue) → Bool
  | [] => true
  | (_, value) :: fields => DataValue.isFinite value && isFiniteFields fields

end

theorem ofJson_tagged (kind : String) (content : JsonValue) :
    DataValue.ofJson (tagged "type" "value" kind content) = DataValue.ofContent kind content := by
  have hkind : dataKind [("type", .string kind), ("value", content)] = some kind := rfl
  rw [tagged, DataValue.ofJson, hkind, bind_some, DataValue.ofMembers,
    if_neg (by decide), DataValue.ofMembers, if_pos rfl]

theorem insert_append {key : String} {value : DataValue} {fields : Fields}
    (h : ∀ field ∈ fields, field.1 < key) :
    Assoc.insert key value fields = fields ++ [(key, value)] := by
  induction fields with
  | nil => rfl
  | cons field fields ih =>
    have hlt := h field mem_cons_self
    rw [Assoc.insert, if_neg (String.ne_of_lt hlt), if_neg (String.lt_asymm hlt),
      ih (forall_mem_cons.mp h).2]
    rfl

mutual

theorem ofJson_toJson (value : DataValue) (h : value.isTyped = true) :
    DataValue.ofJson value.toJson = if value.isFinite then some value else none := by
  cases value with
  | null => rfl
  | boolean value => rw [DataValue.toJson, ofJson_tagged]; rfl
  | integer value =>
    have hbounds := of_decide_eq_true h
    rw [DataValue.toJson, ofJson_tagged, DataValue.ofContent, if_pos rfl,
      toInt?_ofInt hbounds.1 hbounds.2]
    rfl
  | number value =>
    rw [DataValue.toJson, ofJson_tagged, floatJson, DataValue.isFinite]
    split <;> rfl
  | string value => rw [DataValue.toJson, ofJson_tagged]; rfl
  | list values =>
    rw [DataValue.isTyped] at h
    rw [DataValue.toJson, ofJson_tagged, DataValue.ofContent, if_pos rfl,
      ofJsonList_toJsonList values h, DataValue.isFinite]
    split <;> rfl
  | record fields =>
    rw [DataValue.isTyped, and_eq_true] at h
    rw [DataValue.toJson, ofJson_tagged, DataValue.ofContent, if_pos rfl,
      ofJsonFields_toJsonFields fields [] h.2 (of_decide_eq_true h.1) nofun, DataValue.isFinite]
    split <;> rfl

theorem ofJsonList_toJsonList (values : List DataValue) (h : DataValue.isTypedList values = true) :
    DataValue.ofJsonList (DataValue.toJsonList values) =
      if DataValue.isFiniteList values then some values else none := by
  cases values with
  | nil => rfl
  | cons value values =>
    rw [DataValue.isTypedList, and_eq_true] at h
    rw [DataValue.toJsonList, DataValue.ofJsonList, ofJson_toJson value h.1,
      ofJsonList_toJsonList values h.2, DataValue.isFiniteList]
    cases value.isFinite <;> cases DataValue.isFiniteList values <;> rfl

theorem ofJsonFields_toJsonFields (fields read : Fields) (h : DataValue.isTypedFields fields = true)
    (hascend : (fields.map (·.1)).Pairwise (· < ·))
    (hread : ∀ old ∈ read, ∀ field ∈ fields, old.1 < field.1) :
    DataValue.ofJsonFields (DataValue.toJsonFields fields) read =
      if DataValue.isFiniteFields fields then some (read ++ fields) else none := by
  match fields with
  | [] => simp [DataValue.toJsonFields, DataValue.ofJsonFields, DataValue.isFiniteFields]
  | (key, value) :: fields =>
    rw [DataValue.isTypedFields, and_eq_true] at h
    rw [map_cons, pairwise_cons] at hascend
    have hinsert := @insert_append key value read fun old hold =>
      hread old hold (key, value) mem_cons_self
    have hnext : ∀ old ∈ Assoc.insert key value read, ∀ field ∈ fields, old.1 < field.1 := by
      rw [hinsert]
      intro old hold field hfield
      rcases mem_append.mp hold with hold | hold
      · exact hread old hold field (mem_cons_of_mem _ hfield)
      · rw [mem_singleton.mp hold]
        exact hascend.1 _ (mem_map_of_mem hfield)
    rw [DataValue.toJsonFields, DataValue.ofJsonFields, ofJson_toJson value h.1,
      DataValue.isFiniteFields]
    cases value.isFinite with
    | false => rfl
    | true =>
      rw [if_pos rfl, bind_eq_bind, bind_some,
        ofJsonFields_toJsonFields fields _ h.2 hascend.2 hnext, hinsert, append_assoc]
      rfl

end

def StorageArea.name : StorageArea → String
  | .settings => "settings"
  | .document => "document"
  | .ephemeralCache => "ephemeral_cache"

def DocumentAccess.name : DocumentAccess → String
  | .activeDocument => "active_document"
  | .userApprovedDocuments => "user_approved_documents"

def DocumentMutation.name : DocumentMutation → String
  | .redact => "redact"
  | .editAnnotations => "edit_annotations"
  | .rewriteDocument => "rewrite_document"

def readNamed {α : Type} (name : α → String) (values : List α) (json : JsonValue) : Option α :=
  (Json.unitVariant json).bind fun text => values.find? fun value => name value = text

def readStorageArea : JsonValue → Option StorageArea :=
  readNamed StorageArea.name [.settings, .document, .ephemeralCache]

def readDocumentAccess : JsonValue → Option DocumentAccess :=
  readNamed DocumentAccess.name [.activeDocument, .userApprovedDocuments]

def readDocumentMutation : JsonValue → Option DocumentMutation :=
  readNamed DocumentMutation.name [.redact, .editAnnotations, .rewriteDocument]

def NetworkScope.toJson : NetworkScope → JsonValue
  | .none => .object [("kind", .string "none")]
  | .declaredDomains domains =>
    tagged "kind" "domains" "declared_domains" (.array (domains.map .string))
  | .declaredAndUserApproved domains =>
    tagged "kind" "domains" "declared_and_user_approved" (.array (domains.map .string))
  | .publicInternet => .object [("kind", .string "public_internet")]

/-- A variant without content. -/
def readUnit {α : Type} (value : α) : Option JsonValue → Option α
  | .none => some value
  | some .null => some value
  | _ => .none

def NetworkScope.ofJson (json : JsonValue) : Option NetworkScope :=
  match Json.variant "kind" "domains" json with
  | some ("none", content) => readUnit .none content
  | some ("declared_domains", some content) =>
    (Json.readArray Json.readString content).map .declaredDomains
  | some ("declared_and_user_approved", some content) =>
    (Json.readArray Json.readString content).map .declaredAndUserApproved
  | some ("public_internet", content) => readUnit .publicInternet content
  | _ => Option.none

def Permission.toJson : Permission → JsonValue
  | .readDocumentMetadata => .object [("kind", .string "read_document_metadata")]
  | .readDocumentText access =>
    tagged "kind" "scope" "read_document_text" (.string access.name)
  | .readSelection => .object [("kind", .string "read_selection")]
  | .navigateDocument => .object [("kind", .string "navigate_document")]
  | .addDocumentOverlays => .object [("kind", .string "add_document_overlays")]
  | .addSidePanel => .object [("kind", .string "add_side_panel")]
  | .readAnnotations => .object [("kind", .string "read_annotations")]
  | .writeAnnotations => .object [("kind", .string "write_annotations")]
  | .mutateDocument mutation => tagged "kind" "scope" "mutate_document" (.string mutation.name)
  | .clipboardWrite => .object [("kind", .string "clipboard_write")]
  | .openExternalUrl => .object [("kind", .string "open_external_url")]
  | .storage area quotaBytes =>
    tagged "kind" "scope" "storage"
      (.object [("area", .string area.name), ("quota_bytes", .number (.posInt (.ofNat quotaBytes)))])
  | .network scope => tagged "kind" "scope" "network" scope.toJson

def readStoragePermission (json : JsonValue) : Option Permission :=
  match Json.structFields ["area", "quota_bytes"] false json with
  | some [some area, some quotaBytes] => do
    let area ← readStorageArea area
    let quotaBytes ← readU64 quotaBytes
    some (.storage area quotaBytes)
  | _ => none

def Permission.ofJson (json : JsonValue) : Option Permission :=
  match Json.variant "kind" "scope" json with
  | some ("read_document_metadata", content) => readUnit .readDocumentMetadata content
  | some ("read_document_text", some content) =>
    (readDocumentAccess content).map .readDocumentText
  | some ("read_selection", content) => readUnit .readSelection content
  | some ("navigate_document", content) => readUnit .navigateDocument content
  | some ("add_document_overlays", content) => readUnit .addDocumentOverlays content
  | some ("add_side_panel", content) => readUnit .addSidePanel content
  | some ("read_annotations", content) => readUnit .readAnnotations content
  | some ("write_annotations", content) => readUnit .writeAnnotations content
  | some ("mutate_document", some content) =>
    (readDocumentMutation content).map .mutateDocument
  | some ("clipboard_write", content) => readUnit .clipboardWrite content
  | some ("open_external_url", content) => readUnit .openExternalUrl content
  | some ("storage", some content) => readStoragePermission content
  | some ("network", some content) => (NetworkScope.ofJson content).map .network
  | _ => none

/-- What the type of a permission holds: a quota of 64 bits. -/
def Permission.isTyped : Permission → Bool
  | .storage _ quotaBytes => quotaBytes ≤ u64Max
  | _ => true

theorem variant_tagged (tag content name : String) (value : JsonValue) (h : tag ≠ content) :
    Json.variant tag content (tagged tag content name value) = some (name, some value) := by
  simp [Json.variant, tagged, Json.once, Json.member, h, h.symm]

theorem readStrings_map (texts : List String) :
    Json.readArray Json.readString (.array (texts.map .string) : JsonValue) = some texts :=
  Json.readArray_map fun _ _ => rfl

theorem NetworkScope.ofJson_toJson (scope : NetworkScope) :
    NetworkScope.ofJson scope.toJson = some scope := by
  cases scope with
  | none => rfl
  | declaredDomains domains =>
    rw [toJson, ofJson, variant_tagged _ _ _ _ (by decide)]
    exact congrArg (Option.map declaredDomains) (readStrings_map domains)
  | declaredAndUserApproved domains =>
    rw [toJson, ofJson, variant_tagged _ _ _ _ (by decide)]
    exact congrArg (Option.map declaredAndUserApproved) (readStrings_map domains)
  | publicInternet => rfl

theorem Permission.ofJson_toJson (permission : Permission) (h : permission.isTyped = true) :
    Permission.ofJson permission.toJson = some permission := by
  cases permission with
  | readDocumentText access => cases access <;> rfl
  | mutateDocument mutation => cases mutation <;> rfl
  | storage area quotaBytes =>
    have hquota := readNat_ofNat (of_decide_eq_true h) (Nat.le_refl u64Max)
    rw [toJson, ofJson, variant_tagged _ _ _ _ (by decide)]
    cases area <;>
      simp [readStoragePermission, Json.structFields, Json.once, Json.member, readStorageArea,
        readNamed, Json.unitVariant, StorageArea.name, readU64, hquota]
  | network scope =>
    rw [toJson, ofJson, variant_tagged _ _ _ _ (by decide)]
    exact congrArg (Option.map network) (NetworkScope.ofJson_toJson scope)
  | _ => rfl

theorem mem_insert {key : String} {value : DataValue} {fields : Fields} {field : String × DataValue}
    (h : field ∈ Assoc.insert key value fields) : field = (key, value) ∨ field ∈ fields := by
  induction fields with
  | nil => exact .inl (mem_singleton.mp h)
  | cons first fields ih =>
    unfold Assoc.insert at h
    split at h
    · rcases mem_cons.mp h with h | h
      · exact .inl h
      · exact .inr (mem_cons_of_mem _ h)
    split at h
    · exact mem_cons.mp h
    · rcases mem_cons.mp h with rfl | h
      · exact .inr mem_cons_self
      · exact (ih h).imp_right (mem_cons_of_mem _)

theorem ascend_insert {fields : Fields} (key : String) (value : DataValue)
    (h : fields.Pairwise (·.1 < ·.1)) :
    (Assoc.insert key value fields).Pairwise (·.1 < ·.1) := by
  induction fields with
  | nil => exact pairwise_singleton _ _
  | cons first fields ih =>
    rw [pairwise_cons] at h
    unfold Assoc.insert
    split
    · rename_i hsame
      rw [pairwise_cons]
      exact ⟨fun field hfield => hsame ▸ h.1 field hfield, h.2⟩
    split
    · rename_i hless
      rw [pairwise_cons, pairwise_cons]
      refine ⟨fun field hfield => ?_, h⟩
      rcases mem_cons.mp hfield with rfl | hfield
      · exact hless
      · exact String.lt_trans hless (h.1 field hfield)
    · rename_i hne hless
      rw [pairwise_cons]
      refine ⟨fun field hfield => ?_, ih h.2⟩
      rcases mem_insert hfield with rfl | hfield
      · apply String.not_le.mp
        intro hle
        exact hne (String.le_antisymm (String.not_lt.mp hless) hle)
      · exact h.1 field hfield

/-- Fields that were read: typed and finite values under keys in their order. -/
structure ReadFields (fields : Fields) : Prop where
  ascend : fields.Pairwise (·.1 < ·.1)
  typed : DataValue.isTypedFields fields = true
  finite : DataValue.isFiniteFields fields = true

theorem isTypedFields_eq_true {fields : Fields} :
    DataValue.isTypedFields fields = true ↔ ∀ field ∈ fields, field.2.isTyped = true := by
  induction fields with
  | nil => simp [DataValue.isTypedFields]
  | cons field fields ih => rw [DataValue.isTypedFields, and_eq_true, ih, forall_mem_cons]

theorem isFiniteFields_eq_true {fields : Fields} :
    DataValue.isFiniteFields fields = true ↔ ∀ field ∈ fields, field.2.isFinite = true := by
  induction fields with
  | nil => simp [DataValue.isFiniteFields]
  | cons field fields ih =>
    rw [DataValue.isFiniteFields, and_eq_true, ih, forall_mem_cons]

theorem ReadFields.insert {fields : Fields} {key : String} {value : DataValue}
    (h : ReadFields fields) (htyped : value.isTyped = true) (hfinite : value.isFinite = true) :
    ReadFields (Assoc.insert key value fields) where
  ascend := ascend_insert key value h.ascend
  typed := by
    apply isTypedFields_eq_true.mpr
    intro field hfield
    rcases mem_insert hfield with rfl | hfield
    · exact htyped
    · exact isTypedFields_eq_true.mp h.typed field hfield
  finite := by
    apply isFiniteFields_eq_true.mpr
    intro field hfield
    rcases mem_insert hfield with rfl | hfield
    · exact hfinite
    · exact isFiniteFields_eq_true.mp h.finite field hfield

theorem toInt?_bounds {number : Number} {value : Int} (h : number.toInt? = some value) :
    i64Min ≤ value ∧ value ≤ i64Max := by
  unfold i64Min i64Max
  cases number with
  | posInt unsigned =>
    rw [Number.toInt?] at h
    split at h
    · rename_i hle
      cases h
      unfold i64Max at hle
      omega
    · cases h
  | negInt signed =>
    cases h
    have hlow := signed.le_toInt
    have hhigh := signed.toInt_lt
    omega
  | float value => cases h

mutual

theorem read_ofJson {json : JsonValue} {value : DataValue} (h : DataValue.ofJson json = some value) :
    value.isTyped = true ∧ value.isFinite = true := by
  match json with
  | .object fields =>
    rw [DataValue.ofJson] at h
    obtain ⟨kind, -, h⟩ := bind_eq_some_iff.mp h
    exact read_ofMembers h
  | .array [.string kind, content] =>
    rw [DataValue.ofJson] at h
    exact read_ofContent h
  | .array [] => cases h
  | .array [first] => cases first <;> cases h
  | .array (first :: _ :: _ :: _) => cases first <;> cases h
  | .array [.null, _] => cases h
  | .array [.bool _, _] => cases h
  | .array [.number _, _] => cases h
  | .array [.array _, _] => cases h
  | .array [.object _, _] => cases h
  | .null => cases h
  | .bool _ => cases h
  | .number _ => cases h
  | .string _ => cases h

theorem read_ofMembers {kind : String} {fields : List (String × JsonValue)} {value : DataValue}
    (h : DataValue.ofMembers kind fields = some value) :
    value.isTyped = true ∧ value.isFinite = true := by
  match fields with
  | [] =>
    rw [DataValue.ofMembers] at h
    split at h
    · cases h
      exact ⟨rfl, rfl⟩
    · cases h
  | (name, content) :: fields =>
    rw [DataValue.ofMembers] at h
    split at h
    · exact read_ofContent h
    · exact read_ofMembers h

theorem read_ofContent {kind : String} {content : JsonValue} {value : DataValue}
    (h : DataValue.ofContent kind content = some value) :
    value.isTyped = true ∧ value.isFinite = true := by
  cases content with
  | null | bool _ =>
    rw [DataValue.ofContent] at h
    split at h
    · cases h
      exact ⟨rfl, rfl⟩
    · cases h
  | number number =>
    rw [DataValue.ofContent] at h
    split at h
    · obtain ⟨integer, hinteger, rfl⟩ := map_eq_some_iff.mp h
      exact ⟨decide_eq_true (toInt?_bounds hinteger), rfl⟩
    split at h
    · cases h
      exact ⟨rfl, number.toFloat.finite⟩
    · cases h
  | string _ =>
    rw [DataValue.ofContent] at h
    split at h
    · cases h
      exact ⟨rfl, rfl⟩
    · cases h
  | array values =>
    rw [DataValue.ofContent] at h
    split at h
    · obtain ⟨read, hread, rfl⟩ := map_eq_some_iff.mp h
      rw [DataValue.isTyped, DataValue.isFinite]
      exact read_ofJsonList hread
    · cases h
  | object fields =>
    rw [DataValue.ofContent] at h
    split at h
    · obtain ⟨read, hread, rfl⟩ := map_eq_some_iff.mp h
      have hfields := read_ofJsonFields ⟨List.Pairwise.nil, rfl, rfl⟩ hread
      have hkeys : keysAscend read = true := decide_eq_true (pairwise_map.mpr hfields.ascend)
      rw [DataValue.isTyped, DataValue.isFinite, hkeys, hfields.typed]
      exact ⟨rfl, hfields.finite⟩
    · cases h

theorem read_ofJsonList {json : List JsonValue} {values : List DataValue}
    (h : DataValue.ofJsonList json = some values) :
    DataValue.isTypedList values = true ∧ DataValue.isFiniteList values = true := by
  match json with
  | [] =>
    cases h
    exact ⟨rfl, rfl⟩
  | first :: rest =>
    rw [DataValue.ofJsonList] at h
    obtain ⟨value, hvalue, h⟩ := bind_eq_some_iff.mp h
    obtain ⟨others, hothers, h⟩ := bind_eq_some_iff.mp h
    cases h
    have hhead := read_ofJson hvalue
    have htail := read_ofJsonList hothers
    rw [DataValue.isTypedList, DataValue.isFiniteList, hhead.1, hhead.2, htail.1, htail.2]
    exact ⟨rfl, rfl⟩

theorem read_ofJsonFields {json : List (String × JsonValue)} {start read : Fields}
    (hstart : ReadFields start) (h : DataValue.ofJsonFields json start = some read) :
    ReadFields read := by
  match json with
  | [] =>
    cases h
    exact hstart
  | (key, first) :: rest =>
    rw [DataValue.ofJsonFields] at h
    obtain ⟨value, hvalue, h⟩ := bind_eq_some_iff.mp h
    have hhead := read_ofJson hvalue
    exact read_ofJsonFields (hstart.insert hhead.1 hhead.2) h

end

theorem isTyped_of_readUnit {permission value : Permission} {content : Option JsonValue}
    (hpermission : permission.isTyped = true) (h : readUnit permission content = some value) :
    value.isTyped = true := by
  unfold readUnit at h
  split at h
  · exact some.inj h ▸ hpermission
  · exact some.inj h ▸ hpermission
  · cases h

theorem readNat_le {maximum n : Nat} {json : JsonValue} (h : readNat maximum json = some n) :
    n ≤ maximum := by
  unfold readNat at h
  split at h
  · split at h
    · rename_i hle
      exact some.inj h ▸ hle
    · cases h
  · cases h

theorem isTyped_of_readStoragePermission {json : JsonValue} {permission : Permission}
    (h : readStoragePermission json = some permission) : permission.isTyped = true := by
  unfold readStoragePermission at h
  split at h
  · obtain ⟨area, -, h⟩ := bind_eq_some_iff.mp h
    obtain ⟨quotaBytes, hquota, h⟩ := bind_eq_some_iff.mp h
    cases h
    exact decide_eq_true (readNat_le hquota)
  · cases h

theorem Permission.isTyped_of_ofJson {json : JsonValue} {permission : Permission}
    (h : Permission.ofJson json = some permission) : permission.isTyped = true := by
  unfold ofJson at h
  split at h
  all_goals first
    | exact isTyped_of_readUnit rfl h
    | exact isTyped_of_readStoragePermission h
    | (obtain ⟨_, -, rfl⟩ := map_eq_some_iff.mp h; rfl)
    | cases h

theorem depth_tagged (tag content name : String) (value : JsonValue) :
    (tagged tag content name value).depth = 1 + value.depth := by
  simp [tagged, Json.depth, Json.depthFields]

theorem Permission.depth_toJson (permission : Permission) : permission.toJson.depth ≤ 3 := by
  have hdomains : ∀ domains : List String,
      Json.depthValues (domains.map .string : List JsonValue) = 0 := by
    intro domains
    induction domains with
    | nil => rfl
    | cons domain domains ih => rw [map_cons, Json.depthValues, ih]; rfl
  cases permission with
  | network scope =>
    rw [toJson, depth_tagged]
    cases scope with
    | none | publicInternet => decide
    | declaredDomains domains | declaredAndUserApproved domains =>
      rw [NetworkScope.toJson, depth_tagged, Json.depth, hdomains]
  | storage area quotaBytes =>
    simp [toJson, depth_tagged, Json.depth, Json.depthFields]
  | readDocumentText access | mutateDocument mutation => simp [toJson, depth_tagged, Json.depth]
  | _ => decide

end KeyReader.Extension
