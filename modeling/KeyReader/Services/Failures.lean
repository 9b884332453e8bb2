import KeyReader.OrderedMap
import KeyReader.Services.JsonStorage

/-! Which failed calls of the storages and of the task handlers leave everything as it was. -/

namespace KeyReader.Services

open Extension Std OrderedMap

/-- The storages of extensions, and the handlers of their tasks. -/
structure Stores (H : Type) where
  json : JsonExtensionStorage
  memory : MemoryExtensionStorage
  handlers : ExtTreeMap String H

inductive Call (H : Type)
  | jsonPut (answers : Answers) (extension : ExtensionId) (area : StorageArea) (key : String)
      (value : DataValue) (quotaBytes : Nat)
  | jsonDelete (answers : Answers) (extension : ExtensionId) (area : StorageArea) (key : String)
  | scopePut (answers : Answers) (document : Option String) (extension : ExtensionId)
      (area : StorageArea) (key : String) (value : DataValue) (quotaBytes : Nat)
  | scopeDelete (answers : Answers) (document : Option String) (extension : ExtensionId)
      (area : StorageArea) (key : String)
  | memoryPut (extension : ExtensionId) (area : StorageArea) (key : String) (value : DataValue)
      (quotaBytes : Nat)
  | memoryDelete (extension : ExtensionId) (area : StorageArea) (key : String)
  | registerTaskHandler (operation : String) (handler : H)

/-- The error of a call, if it fails. -/
def failure {α : Type} : Except ExtensionError α → Option ExtensionError
  | .ok _ => none
  | .error error => some error

@[simp] theorem failure_ok {α : Type} (value : α) : failure (.ok value) = none := rfl

namespace Stores

variable {H : Type} [StorageJson]

def run (stores : Stores H) : Call H → Option ExtensionError × Stores H
  | .jsonPut answers extension area key value quotaBytes =>
    let (result, json) := stores.json.put answers extension area key value quotaBytes
    (failure result, { stores with json })
  | .jsonDelete answers extension area key =>
    let (result, json) := stores.json.delete answers extension area key
    (failure result, { stores with json })
  | .scopePut answers document extension area key value quotaBytes =>
    let (result, shared) := stores.json.shared.put answers document extension area key value
      quotaBytes
    (failure result, { stores with json := { stores.json with shared } })
  | .scopeDelete answers document extension area key =>
    let (result, shared) := stores.json.shared.delete answers document extension area key
    (failure result, { stores with json := { stores.json with shared } })
  | .memoryPut extension area key value quotaBytes =>
    let (result, memory) := stores.memory.put extension area key value quotaBytes
    (failure result, { stores with memory })
  | .memoryDelete extension area key =>
    let (result, memory) := stores.memory.delete extension area key
    (failure result, { stores with memory })
  | .registerTaskHandler operation handler =>
    let (result, handlers) := Services.registerTaskHandler stores.handlers operation handler
    (failure result, { stores with handlers })

/-- If the call fails, everything is as it was before. -/
def Restores (stores : Stores H) (call : Call H) : Prop :=
  ∀ error, (stores.run call).1 = some error → (stores.run call).2 = stores

end Stores

/-- A failed call of a store leaves it as it is. -/
def Unchanged {S : Type} (before : S) (outcome : EffectResult × S) : Prop :=
  ∀ error, outcome.1 = .error error → outcome.2 = before

theorem unchanged_iff_part {S T : Type} (state : T) (part : T → S) (put : S → T)
    (hpart : ∀ store, part (put store) = store) (hput : put (part state) = state)
    (outcome : EffectResult × S) :
    (∀ error, failure outcome.1 = some error → put outcome.2 = state) ↔
      Unchanged (part state) outcome := by
  constructor
  · intro h error heq
    rw [← hpart outcome.2, h error (by rw [heq]; rfl)]
  · intro h error heq
    cases hresult : outcome.1 with
    | ok value =>
      rw [hresult] at heq
      cases heq
    | error error => rw [h error hresult, hput]

theorem MemoryExtensionStorage.unchanged_put (storage : MemoryExtensionStorage)
    (extension : ExtensionId) (area : StorageArea) (key : String) (value : DataValue)
    (quotaBytes : Nat) : Unchanged storage (storage.put extension area key value quotaBytes) := by
  intro error h
  unfold put at h ⊢
  split at h
  · rfl
  · split at h
    · rename_i hquota
      rw [if_pos hquota]
    · cases h

theorem MemoryExtensionStorage.unchanged_delete (storage : MemoryExtensionStorage)
    (extension : ExtensionId) (area : StorageArea) (key : String) :
    Unchanged storage (storage.delete extension area key) := by
  intro error h
  unfold delete at h ⊢
  split at h
  · rfl
  · cases h

namespace SharedExtensionStorage

variable [StorageJson] (storage : SharedExtensionStorage)

theorem unchanged_update (answers : Answers) (document : Option String) (extension : ExtensionId)
    (area : StorageArea) (quotaBytes : Nat)
    (change : ExtTreeMap String DataValue → ExtTreeMap String DataValue) :
    Unchanged storage (storage.update answers document extension area quotaBytes change) := by
  intro error h
  unfold update at h ⊢
  split at h
  · rfl
  · cases h

theorem unchanged_delete (answers : Answers) (document : Option String) (extension : ExtensionId)
    (area : StorageArea) (key : String) :
    Unchanged storage (storage.delete answers document extension area key) := by
  unfold delete
  split
  · exact fun _ _ => rfl
  split
  · split
    · exact fun _ _ => rfl
    · intro error h
      cases h
  · apply unchanged_update

/-- The call puts a value in memory that is too much, under a key that has a value. -/
structure Displaces (storage : SharedExtensionStorage) (answers : Answers) (extension : ExtensionId)
    (area : StorageArea) (key : String) (value : DataValue) (quotaBytes : Nat) : Prop where
  valid : validateStorageKey key = .ok ()
  inMemory : area = .ephemeralCache
  unpoisoned : ¬answers.statePoisoned
  held : storage.ephemeral.contains (extension, key)
  excess : quotaBytes < ephemeralBytes (storage.ephemeral.insert (extension, key) value) extension

omit [StorageJson] in
/-- What is put and removed again has displaced what was there. -/
theorem erase_insert_eq_iff (ephemeral : ExtTreeMap (ExtensionId × String) DataValue)
    (key : ExtensionId × String) (value : DataValue) :
    (ephemeral.insert key value).erase key = ephemeral ↔ ¬ephemeral.contains key := by
  constructor
  · intro h hheld
    rw [← h] at hheld
    simp at hheld
  · intro hnone
    refine ExtTreeMap.ext_getElem? fun other => ?_
    rw [OrderedMap.getElem?_erase, OrderedMap.getElem?_insert]
    split
    · rename_i heq
      subst heq
      rw [contains_eq_isSome] at hnone
      exact (Option.not_isSome_iff_eq_none.mp hnone).symm
    · rfl

theorem unchanged_put_iff (answers : Answers) (document : Option String) (extension : ExtensionId)
    (area : StorageArea) (key : String) (value : DataValue) (quotaBytes : Nat) :
    Unchanged storage (storage.put answers document extension area key value quotaBytes) ↔
      ¬storage.Displaces answers extension area key value quotaBytes := by
  unfold put
  split
  · rename_i error hkey
    refine ⟨fun _ h => ?_, fun _ _ _ => rfl⟩
    rw [h.valid] at hkey
    cases hkey
  rename_i hkey
  by_cases harea : area = .ephemeralCache
  · rw [if_pos harea]
    unfold putEphemeral
    by_cases hpoisoned : answers.statePoisoned
    · rw [if_pos hpoisoned]
      exact ⟨fun _ h => h.unpoisoned hpoisoned, fun _ _ _ => rfl⟩
    · rw [if_neg hpoisoned]
      by_cases hexcess : quotaBytes <
          ephemeralBytes (storage.ephemeral.insert (extension, key) value) extension
      · have hiff : Unchanged storage (.error (quotaError
            "ephemeral extension storage quota exceeded"), { storage with
              ephemeral := (storage.ephemeral.insert (extension, key) value).erase
                (extension, key) }) ↔ ¬storage.ephemeral.contains (extension, key) := by
          rw [← erase_insert_eq_iff storage.ephemeral (extension, key) value]
          constructor
          · exact fun h => congrArg SharedExtensionStorage.ephemeral (h _ rfl)
          · exact fun h _ _ => congrArg (fun ephemeral => { storage with ephemeral }) h
        rw [if_pos hexcess, hiff]
        exact ⟨fun h hdisplaces => h hdisplaces.held,
          fun h hheld => h ⟨hkey, harea, hpoisoned, hheld, hexcess⟩⟩
      · dsimp only
        rw [if_neg hexcess]
        refine ⟨fun _ h => hexcess h.excess, fun _ error h => ?_⟩
        cases h
  · rw [if_neg harea]
    refine ⟨fun _ h => harea h.inMemory, fun _ => ?_⟩
    apply unchanged_update

end SharedExtensionStorage

theorem JsonExtensionStorage.unchanged_call_iff (storage : JsonExtensionStorage) (answers : Answers)
    (run : Option String → EffectResult × SharedExtensionStorage) :
    Unchanged storage (storage.call answers run) ↔
      (¬answers.selectionPoisoned → Unchanged storage.shared (run storage.document)) := by
  unfold call selectedDocument
  by_cases hpoisoned : answers.selectionPoisoned
  · rw [if_pos hpoisoned]
    exact ⟨fun _ h => absurd hpoisoned h, fun _ _ _ => rfl⟩
  · rw [if_neg hpoisoned]
    constructor
    · exact fun h _ error heq => congrArg JsonExtensionStorage.shared (h error heq)
    · exact fun h error heq => congrArg (fun shared => { storage with shared }) (h hpoisoned error heq)

/-- An operation that has another handler is registered again. -/
structure Reregisters {H : Type} (handlers : ExtTreeMap String H) (operation : String)
    (handler : H) : Prop where
  valid : ¬(operation.isEmpty ∨ 128 < operation.utf8ByteSize ∨
    ¬operation.toList.all (·.toNat < 128))
  other : ∃ old, handlers[operation]? = some old ∧ old ≠ handler

theorem insert_eq_iff {H : Type} (handlers : ExtTreeMap String H) (operation : String)
    (handler : H) : handlers.insert operation handler = handlers ↔
      handlers[operation]? = some handler := by
  constructor
  · intro h
    rw [← h, OrderedMap.getElem?_insert, if_pos rfl]
  · intro hsame
    refine ExtTreeMap.ext_getElem? fun other => ?_
    rw [OrderedMap.getElem?_insert]
    split
    · rename_i heq
      rw [← heq, hsame]
    · rfl

theorem unchanged_registerTaskHandler_iff {H : Type} (handlers : ExtTreeMap String H)
    (operation : String) (handler : H) :
    (∀ error, (registerTaskHandler handlers operation handler).1 = .error error →
        (registerTaskHandler handlers operation handler).2 = handlers) ↔
      ¬Reregisters handlers operation handler := by
  unfold registerTaskHandler
  by_cases hinvalid : operation.isEmpty ∨ 128 < operation.utf8ByteSize ∨
      ¬operation.toList.all (·.toNat < 128)
  · rw [if_pos hinvalid]
    exact ⟨fun _ h => h.valid hinvalid, fun _ _ _ => rfl⟩
  rw [if_neg hinvalid]
  cases hheld : handlers[operation]? with
  | none =>
    have hnone : ¬handlers.contains operation := by
      rw [contains_eq_isSome, hheld]
      exact Bool.false_ne_true
    rw [if_neg hnone]
    refine ⟨fun _ h => ?_, fun _ error h => by cases h⟩
    obtain ⟨old, hold, -⟩ := h.other
    cases hheld.symm.trans hold
  | some old =>
    have hcontains : handlers.contains operation := by
      rw [contains_eq_isSome, hheld]
      rfl
    rw [if_pos hcontains]
    constructor
    · intro h hregisters
      obtain ⟨held, hheld', hne⟩ := hregisters.other
      have hsame := (insert_eq_iff handlers operation handler).mp (h _ rfl)
      exact hne (Option.some.inj (hheld'.symm.trans hsame))
    · intro h error _
      refine (insert_eq_iff handlers operation handler).mpr ?_
      by_contra hne
      exact h ⟨hinvalid, old, hheld, fun heq => hne (heq ▸ hheld)⟩

namespace Stores

variable {H : Type} [StorageJson]

/-- The calls whose failure displaces something: a put in memory that is too much under a key that
has a value, and a registration under a valid name that has another handler. -/
def Displaces (stores : Stores H) : Call H → Prop
  | .jsonPut answers extension area key value quotaBytes => ¬answers.selectionPoisoned ∧
      stores.json.shared.Displaces answers extension area key value quotaBytes
  | .scopePut answers _ extension area key value quotaBytes =>
    stores.json.shared.Displaces answers extension area key value quotaBytes
  | .registerTaskHandler operation handler => Reregisters stores.handlers operation handler
  | _ => False

/-- A failed call leaves everything as it was exactly when it displaces nothing. -/
theorem restores_iff (stores : Stores H) (call : Call H) :
    stores.Restores call ↔ ¬stores.Displaces call := by
  have hjson := unchanged_iff_part stores Stores.json (fun json => { stores with json })
    (fun _ => rfl) rfl
  have hshared := unchanged_iff_part stores (fun stores : Stores H => stores.json.shared)
    (fun shared => { stores with json := { stores.json with shared } }) (fun _ => rfl) rfl
  have hmemory := unchanged_iff_part stores Stores.memory (fun memory => { stores with memory })
    (fun _ => rfl) rfl
  cases call with
  | jsonPut answers extension area key value quotaBytes =>
    have hput := stores.json.shared.unchanged_put_iff answers stores.json.document extension area key
      value quotaBytes
    exact (hjson _).trans (((JsonExtensionStorage.unchanged_call_iff ..).trans
      (imp_congr_right fun _ => hput)).trans not_and.symm)
  | jsonDelete answers extension area key =>
    refine (hjson _).trans ((JsonExtensionStorage.unchanged_call_iff ..).trans ?_)
    exact ⟨fun _ h => h, fun _ _ => by apply SharedExtensionStorage.unchanged_delete⟩
  | scopePut answers document extension area key value quotaBytes =>
    exact (hshared _).trans (SharedExtensionStorage.unchanged_put_iff ..)
  | scopeDelete answers document extension area key =>
    refine (hshared _).trans ⟨fun _ h => h, fun _ => ?_⟩
    apply SharedExtensionStorage.unchanged_delete
  | memoryPut extension area key value quotaBytes =>
    refine (hmemory _).trans ⟨fun _ h => h, fun _ => ?_⟩
    apply MemoryExtensionStorage.unchanged_put
  | memoryDelete extension area key =>
    refine (hmemory _).trans ⟨fun _ h => h, fun _ => ?_⟩
    apply MemoryExtensionStorage.unchanged_delete
  | registerTaskHandler operation handler =>
    refine Iff.trans ?_ (unchanged_registerTaskHandler_iff stores.handlers operation handler)
    constructor
    · exact fun h error heq => congrArg Stores.handlers (h error (by
        show failure (registerTaskHandler stores.handlers operation handler).1 = some error
        rw [heq]
        rfl))
    · intro h error heq
      change failure (registerTaskHandler stores.handlers operation handler).1 = some error at heq
      cases hresult : (registerTaskHandler stores.handlers operation handler).1 with
      | ok value =>
        rw [hresult] at heq
        cases heq
      | error error =>
        exact congrArg (fun handlers => { stores with handlers }) (h error hresult)

end Stores

/-- A storage whose files are never asked for. -/
@[reducible] def withoutFiles : StorageJson where
  encode _ := .error "no file is written"
  decode _ := .error "no file is read"

/-- A call in which every request succeeds. -/
def untroubled : Answers where
  selectionPoisoned := false
  statePoisoned := false
  ioPoisoned := false
  readMetadata := none
  openFile := none
  read := none
  createDirectory := none
  creation _ := .created
  sequence attempt := attempt
  write := none
  sync := none
  rename := none

def nothingStored : Stores Nat := ⟨⟨⟨"data", fun _ => none, ∅⟩, none⟩, .empty, ∅⟩

/-- A put of a value in memory, for one extension and under one key. -/
def putOne (value : DataValue) : Call Nat :=
  .jsonPut untroubled "com.example.notes" .ephemeralCache "draft" value 10

/-- The value under that key. -/
def readOne (stores : Stores Nat) : Option DataValue :=
  stores.json.shared.ephemeral[(("com.example.notes", "draft") : ExtensionId × String)]?

section

attribute [local instance] withoutFiles

/-- A put that exceeds the quota fails, and the value that was there is gone; a second registration
fails, and its handler is the registered one. -/
theorem failed_calls_displace : ∃ stored : Stores Nat,
    (nothingStored.run (putOne (.boolean true))).1.isNone ∧
    ((nothingStored.run (putOne (.boolean true))).2.run (.registerTaskHandler "summarize" 0)) =
      (none, stored) ∧
    (stored.run (putOne (.string "0123456789"))).1.isSome ∧
    (readOne stored).isSome ∧ (readOne (stored.run (putOne (.string "0123456789"))).2).isNone ∧
    (stored.run (.registerTaskHandler "summarize" 1)).1.isSome ∧
    stored.handlers["summarize"]? = some 0 ∧
    (stored.run (.registerTaskHandler "summarize" 1)).2.handlers["summarize"]? = some 1 := by
  refine ⟨_, by decide +kernel, Prod.ext (by decide +kernel) rfl, ?_⟩
  decide +kernel

end

end KeyReader.Services
