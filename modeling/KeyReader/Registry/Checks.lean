import KeyReader.Registry.Store

/-! The checks of the registry are stable: what they let through, they let through again. -/

namespace KeyReader.Registry

open Checked Extension Package List

theorem pathBytes_of_fromUtf8 {path : Bytes} {text : String} (h : fromUtf8 path = some text) :
    pathBytes text = path := by
  unfold fromUtf8 String.fromUTF8? at h
  split at h
  · cases h
    rfl
  · cases h

theorem pathBytes_toStringLossy (serde : SerdeJson) {path : Bytes}
    (h : validateStoredSourcePath path = .ok ()) : pathBytes (toStringLossy serde path) = path := by
  obtain ⟨-, h⟩ := ensure_bind_eq_ok.mp h
  obtain ⟨text, htext, -⟩ := bind_eq_ok.mp h
  have hdecoded := okOr_eq_ok.mp htext
  unfold toStringLossy
  rw [hdecoded]
  exact pathBytes_of_fromUtf8 hdecoded

section
variable {serde : SerdeJson} {decisions : List StoredPermissionDecision}

theorem checkDecisions_eq_ok {previous : List StoredPermissionDecision}
    (hprevious : (previous.map (·.permission)).Nodup) : checkDecisions previous decisions = .ok () ↔
      (∀ stored ∈ decisions, validatePermission stored.permission = .ok ()) ∧
        ((previous ++ decisions).map (·.permission)).Nodup := by
  induction decisions generalizing previous with
  | nil => simp [checkDecisions, hprevious]
  | cons stored decisions ih =>
    rw [checkDecisions, unit_bind_eq_ok, ensure_bind_eq_ok, forall_mem_cons, and_assoc]
    refine and_congr_right fun _ => ?_
    by_cases hfresh : stored.permission ∈ previous.map (·.permission)
    · have hany : previous.any (fun other => other.permission = stored.permission) = true := by
        obtain ⟨other, hother, heq⟩ := mem_map.mp hfresh
        exact any_eq_true.mpr ⟨other, hother, decide_eq_true heq⟩
      rw [hany]
      constructor
      · rintro ⟨h, -⟩
        cases h
      · rintro ⟨-, hnodup⟩
        rw [map_append, nodup_append] at hnodup
        exact absurd rfl (hnodup.2.2 _ hfresh _ (by simp))
    · have hany : previous.any (fun other => other.permission = stored.permission) = false := by
        apply Bool.eq_false_iff.mpr
        intro h
        obtain ⟨other, hother, heq⟩ := any_eq_true.mp h
        exact hfresh (mem_map.mpr ⟨other, hother, of_decide_eq_true heq⟩)
      have hnext : ((previous ++ [stored]).map (·.permission)).Nodup := by
        rw [map_append, nodup_append]
        refine ⟨hprevious, by simp, ?_⟩
        rintro permission hmem _ hlast rfl
        rw [map_singleton, mem_singleton] at hlast
        exact hfresh (hlast ▸ hmem)
      rw [hany, ih hnext, append_assoc, singleton_append]
      simp

theorem checkDecisions_nil : checkDecisions [] decisions = .ok () ↔
      (∀ stored ∈ decisions, validatePermission stored.permission = .ok ()) ∧
        (decisions.map (·.permission)).Nodup :=
  checkDecisions_eq_ok nodup_nil

/-- The decisions of one extension, in any order. -/
structure Decisions (decisions : List StoredPermissionDecision) : Prop where
  length_le : decisions.length ≤ maxPermissionDecisions
  valid : ∀ stored ∈ decisions, validatePermission stored.permission = .ok ()
  nodup : (decisions.map (·.permission)).Nodup

theorem validatePermissionDecisions_eq_ok {sorted : List StoredPermissionDecision} :
    validatePermissionDecisions serde decisions = .ok sorted ↔
      Decisions decisions ∧ sortPermissionDecisions serde decisions = sorted := by
  unfold validatePermissionDecisions
  rw [ensure_bind_eq_ok, unit_bind_eq_ok, checkDecisions_nil, Except.ok.injEq]
  constructor
  · rintro ⟨hlength, ⟨hvalid, hnodup⟩, hsorted⟩
    exact ⟨⟨hlength, hvalid, hnodup⟩, hsorted⟩
  · rintro ⟨h, hsorted⟩
    exact ⟨h.length_le, ⟨h.valid, h.nodup⟩, hsorted⟩

theorem sort_perm (decisions : List StoredPermissionDecision) :
    (sortPermissionDecisions serde decisions).Perm decisions := perm_insertionSort _ _

theorem Decisions.perm {other : List StoredPermissionDecision} (h : Decisions decisions)
    (hperm : other.Perm decisions) : Decisions other where
  length_le := hperm.length_eq ▸ h.length_le
  valid stored hstored := h.valid stored (hperm.mem_iff.mp hstored)
  nodup := (hperm.map _).nodup_iff.mpr h.nodup

def Ordered (serde : SerdeJson) (decisions : List StoredPermissionDecision) : Prop :=
  decisions.Pairwise fun left right =>
    serde.toText left.permission.toJson ≤ serde.toText right.permission.toJson

theorem ordered_sort (decisions : List StoredPermissionDecision) :
    Ordered serde (sortPermissionDecisions serde decisions) := by
  have htotal : Std.Total fun left right : StoredPermissionDecision =>
      serde.toText left.permission.toJson ≤ serde.toText right.permission.toJson :=
    ⟨fun _ _ => String.le_total _ _⟩
  have htrans : IsTrans StoredPermissionDecision fun left right =>
      serde.toText left.permission.toJson ≤ serde.toText right.permission.toJson :=
    ⟨fun _ _ _ => String.le_trans⟩
  exact pairwise_insertionSort _ _

theorem sort_of_ordered (h : Ordered serde decisions) :
    sortPermissionDecisions serde decisions = decisions := List.Pairwise.insertionSort_eq h

theorem validate_eq_self : validatePermissionDecisions serde decisions = .ok decisions ↔
      Decisions decisions ∧ Ordered serde decisions := by
  rw [validatePermissionDecisions_eq_ok]
  refine and_congr_right fun _ => ⟨fun h => ?_, sort_of_ordered⟩
  rw [← h]
  exact ordered_sort decisions

theorem validate_sorted (h : Decisions decisions) :
    validatePermissionDecisions serde (sortPermissionDecisions serde decisions) =
      .ok (sortPermissionDecisions serde decisions) :=
  validate_eq_self.mpr ⟨h.perm (sort_perm decisions), ordered_sort decisions⟩

theorem validate_stable {sorted : List StoredPermissionDecision}
    (h : validatePermissionDecisions serde decisions = .ok sorted) :
    validatePermissionDecisions serde sorted = .ok sorted := by
  obtain ⟨hdecisions, rfl⟩ := validatePermissionDecisions_eq_ok.mp h
  exact validate_sorted hdecisions

theorem permissions_modify (decision : RequiredPermissionDecision) (index : Nat)
    (decisions : List StoredPermissionDecision) :
    (decisions.modify index fun stored => { stored with decision }).map (·.permission) =
      decisions.map (·.permission) := by
  apply ext_getElem?
  intro place
  rw [List.getElem?_map, List.getElem?_map, List.getElem?_modify]
  cases decisions[place]? with
  | none => rfl
  | some stored => by_cases hplace : index = place <;> simp [hplace]

theorem decisions_putDecision {permission : Permission} {decision : RequiredPermissionDecision}
    {next : List StoredPermissionDecision} (h : Decisions decisions)
    (hpermission : validatePermission permission = .ok ())
    (hput : Stored.putDecision permission decision decisions = .ok next) : Decisions next := by
  unfold Stored.putDecision at hput
  split at hput
  · rename_i index hindex
    cases hput
    have hmap := permissions_modify decision index decisions
    refine ⟨by rw [length_modify]; exact h.length_le, ?_, hmap ▸ h.nodup⟩
    intro stored hstored
    have hmem : stored.permission ∈ decisions.map (·.permission) := hmap ▸ mem_map_of_mem hstored
    obtain ⟨other, hother, heq⟩ := mem_map.mp hmem
    exact heq ▸ h.valid other hother
  · rename_i hnone
    obtain ⟨hlength, hput⟩ := ensure_bind_eq_ok.mp hput
    cases hput
    have hfresh := List.findIdx?_eq_none_iff.mp hnone
    refine ⟨?_, ?_, ?_⟩
    · have hless := h.length_le
      rw [length_append, length_singleton]
      omega
    · intro stored hstored
      rcases mem_append.mp hstored with hstored | hstored
      · exact h.valid stored hstored
      · rw [mem_singleton.mp hstored]
        exact hpermission
    · rw [map_append, nodup_append]
      refine ⟨h.nodup, by simp, ?_⟩
      rintro other hother _ hlast rfl
      rw [map_singleton, mem_singleton] at hlast
      obtain ⟨stored, hstored, heq⟩ := mem_map.mp hother
      exact absurd (heq.trans hlast) (of_decide_eq_false (hfresh stored hstored))

theorem typed_putDecision {permission : Permission} {decision : RequiredPermissionDecision}
    {next : List StoredPermissionDecision}
    (h : ∀ stored ∈ decisions, stored.permission.isTyped = true)
    (hpermission : permission.isTyped = true)
    (hput : Stored.putDecision permission decision decisions = .ok next) :
    ∀ stored ∈ next, stored.permission.isTyped = true := by
  unfold Stored.putDecision at hput
  split at hput
  · rename_i index hindex
    cases hput
    intro stored hstored
    have hmem : stored.permission ∈ decisions.map (·.permission) :=
      permissions_modify decision index decisions ▸ mem_map_of_mem hstored
    obtain ⟨other, hother, heq⟩ := mem_map.mp hmem
    exact heq ▸ h other hother
  · obtain ⟨-, hput⟩ := ensure_bind_eq_ok.mp hput
    cases hput
    intro stored hstored
    rcases mem_append.mp hstored with hstored | hstored
    · exact h stored hstored
    · rw [mem_singleton.mp hstored]
      exact hpermission

theorem validate_filter (h : validatePermissionDecisions serde decisions = .ok decisions)
    (keeps : StoredPermissionDecision → Bool) :
    validatePermissionDecisions serde (decisions.filter keeps) = .ok (decisions.filter keeps) := by
  obtain ⟨hdecisions, hordered⟩ := validate_eq_self.mp h
  have hsublist : (decisions.filter keeps).Sublist decisions := filter_sublist
  refine validate_eq_self.mpr ⟨⟨?_, ?_, ?_⟩, List.Pairwise.sublist hsublist hordered⟩
  · exact Nat.le_trans hsublist.length_le hdecisions.length_le
  · intro stored hstored
    exact hdecisions.valid stored (hsublist.mem hstored)
  · exact (hsublist.map _).nodup hdecisions.nodup

theorem validateSettings_eq_ok {settings kept : Option DataValue}
    (h : validateSettings serde settings = .ok kept) : kept = settings := by
  cases settings with
  | none => exact (Except.ok.inj h).symm
  | some value =>
    obtain ⟨-, h⟩ := ensure_bind_eq_ok.mp h
    obtain ⟨-, -, h⟩ := bind_eq_ok.mp h
    obtain ⟨-, h⟩ := ensure_bind_eq_ok.mp h
    exact (Except.ok.inj h).symm

theorem enterNode_eq_ok {depth nodes next : Nat} (h : enterNode depth nodes = .ok next) :
    depth ≤ maxSettingsDepth := (ensure_bind_eq_ok.mp h).1

mutual

/-- Settings that pass their check are not nested too deep to be read. -/
theorem depth_toJson {value : DataValue} {depth nodes next : Nat}
    (h : visitSettings value depth nodes = .ok next) : value.toJson.depth + 2 * depth ≤ 34 := by
  have hleaf : ∀ start finish, enterNode depth start = .ok finish → depth ≤ 16 :=
    fun _ _ => enterNode_eq_ok
  cases value with
  | null =>
    have := hleaf _ _ h
    simp only [DataValue.toJson, Json.depth, Json.depthFields]
    omega
  | boolean value | integer value =>
    have := hleaf _ _ h
    rw [DataValue.toJson, depth_tagged, Json.depth]
    omega
  | number value =>
    have := hleaf _ _ h
    rw [DataValue.toJson, depth_tagged, floatJson]
    split <;> (rw [Json.depth]; omega)
  | string value =>
    obtain ⟨_, hentered, -⟩ := bind_eq_ok.mp h
    have := hleaf _ _ hentered
    rw [DataValue.toJson, depth_tagged, Json.depth]
    omega
  | list values =>
    obtain ⟨_, hentered, h⟩ := bind_eq_ok.mp h
    have hbound := hleaf _ _ hentered
    have hvalues := depth_toJsonList (by omega) h
    rw [DataValue.toJson, depth_tagged, Json.depth]
    omega
  | record fields =>
    obtain ⟨_, hentered, h⟩ := bind_eq_ok.mp h
    have hbound := hleaf _ _ hentered
    have hfields := depth_toJsonFields (by omega) h
    rw [DataValue.toJson, depth_tagged, Json.depth]
    omega

theorem depth_toJsonList {values : List DataValue} {depth nodes next : Nat} (hdepth : depth ≤ 17)
    (h : visitSettingsList values depth nodes = .ok next) :
    Json.depthValues (DataValue.toJsonList values) + 2 * depth ≤ 34 := by
  match values with
  | [] =>
    rw [DataValue.toJsonList, Json.depthValues]
    omega
  | value :: values =>
    rw [visitSettingsList] at h
    obtain ⟨_, hvalue, h⟩ := bind_eq_ok.mp h
    have hhead := depth_toJson hvalue
    have htail := depth_toJsonList hdepth h
    rw [DataValue.toJsonList, Json.depthValues]
    omega

theorem depth_toJsonFields {fields : Fields} {depth nodes next : Nat} (hdepth : depth ≤ 17)
    (h : visitSettingsFields fields depth nodes = .ok next) :
    Json.depthFields (DataValue.toJsonFields fields) + 2 * depth ≤ 34 := by
  match fields with
  | [] =>
    rw [DataValue.toJsonFields, Json.depthFields]
    omega
  | (key, value) :: fields =>
    rw [visitSettingsFields] at h
    obtain ⟨-, h⟩ := ensure_bind_eq_ok.mp h
    obtain ⟨_, hvalue, h⟩ := bind_eq_ok.mp h
    have hhead := depth_toJson hvalue
    have htail := depth_toJsonFields hdepth h
    rw [DataValue.toJsonFields, Json.depthFields]
    omega

end

theorem depth_settings {settings : DataValue} {kept : Option DataValue}
    (h : validateSettings serde (some settings) = .ok kept) : settings.toJson.depth ≤ 34 := by
  obtain ⟨-, h⟩ := ensure_bind_eq_ok.mp h
  obtain ⟨_, hvisit, -⟩ := bind_eq_ok.mp h
  have := depth_toJson hvisit
  omega

theorem toJson_ne_null {settings : DataValue} : settings.toJson ≠ .null := by
  intro h
  cases settings <;> rw [DataValue.toJson] at h <;> cases h

end

end KeyReader.Registry
