import KeyReader.Reference.Ledger
import Mathlib.Logic.Function.Basic

/-! What the document cache retains over any calls, against the values that were written to it: its
accounting, its quotas and what it returns. -/

namespace KeyReader.Reference

open Checked Table List Function

/-- What the reader gives until it ends. -/
def Stream.bytes (stream : Stream) : List UInt8 :=
  ((stream.rounds.map fun round => round.read.toOption.getD []).takeWhile (· ≠ [])).flatten

inductive CacheCall
  | insertMemory (key : String) (bytes : List UInt8)
  | insertFile (key : String) (stream : Stream)
  | remove (key : String)
  | purge

/-- The values after a call that succeeds. -/
def CacheCall.written (values : String → Option StoredEntry) : CacheCall → String → Option StoredEntry
  | .insertMemory key bytes => update values key (some (.memory bytes))
  | .insertFile key stream =>
    update values key (some (.file stream.bytes stream.bytes.length))
  | .remove key => update values key none
  | .purge => fun _ => none

namespace DocumentCache

/-- The answer of an insert, and the cache after it. -/
def answer (cache : DocumentCache) :
    Except CacheError DocumentCache → Except CacheError Unit × DocumentCache
  | .ok after => (.ok (), after)
  | .error error => (.error error, cache)

def call (cache : DocumentCache) : CacheCall → Except CacheError Unit × DocumentCache
  | .insertMemory key bytes => cache.answer (cache.insertMemory key bytes)
  | .insertFile key stream => cache.answer (cache.insertFile key stream)
  | .remove key => (.ok (), cache.remove key)
  | .purge => (.ok (), cache.purge)

/-- The quotas of the cache. -/
structure Within (cache : DocumentCache) (limits : DocumentCacheLimits) : Prop where
  same : cache.limits = limits
  memory : cache.memoryBytes ≤ limits.memoryBytes
  file : cache.fileBytes ≤ limits.fileBytes
  entries : cache.entries.keys.length ≤ limits.entries
  entry : ∀ key entry, cache.get key = some entry → entry.len ≤ limits.entryBytes

variable {cache : DocumentCache} {limits : DocumentCacheLimits} {key : String} {entry : StoredEntry}

theorem validateEntryLen_eq_ok {length : Nat} :
    cache.validateEntryLen length = .ok () ↔ length ≤ cache.limits.entryBytes := by
  unfold validateEntryLen
  split <;> simp <;> omega

theorem readFile_eq_ok {rounds : List Round} {contents read : List UInt8} {length : Nat}
    (h : cache.readFile rounds contents contents.length = .ok (read, length))
    (hle : contents.length ≤ cache.limits.entryBytes) :
    read = contents ++ ((rounds.map fun round => round.read.toOption.getD []).takeWhile
      (· ≠ [])).flatten ∧ length = read.length ∧ length ≤ cache.limits.entryBytes := by
  induction rounds generalizing contents with
  | nil =>
    cases h
    exact ⟨(append_nil _).symm, rfl, hle⟩
  | cons round rounds ih =>
    obtain ⟨-, h⟩ := ensure_bind_eq_ok.mp h
    obtain ⟨piece, hpiece, h⟩ := bind_eq_ok.mp h
    rw [map_cons, mapError_eq_ok.mp hpiece]
    change read = contents ++ (takeWhile _ (piece :: _)).flatten ∧ _
    split at h
    · rename_i hempty
      cases h
      exact ⟨by simp [hempty], rfl, hle⟩
    · rename_i hne
      obtain ⟨sum, hsum, h⟩ := bind_eq_ok.mp h
      obtain ⟨hfits, h⟩ := unit_bind_eq_ok.mp h
      obtain ⟨-, h⟩ := unit_bind_eq_ok.mp h
      obtain rfl := (Machine.checkedAdd_eq_some.mp (okOr_eq_ok.mp hsum)).1
      rw [validateEntryLen_eq_ok, ← length_append] at hfits
      rw [← length_append] at h
      obtain ⟨hread, hrest⟩ := ih h hfits
      refine ⟨?_, hrest⟩
      rw [hread, takeWhile_cons_of_pos (by simpa using hne), flatten_cons, append_assoc]

/-- A tier that passes the check with the saturated sum has room for the replacement. -/
theorem saturated_le {bytes used limit : Nat} (hmax : limit < Machine.u64Max)
    (h : ¬limit < Machine.saturatingAdd bytes used) : bytes + used ≤ limit := by
  unfold Machine.saturatingAdd at h
  omega

/-- The check and the update agree. -/
theorem Within.replaceEntry (h : cache.Within limits) (hvalid : limits.validate = .ok limits)
    (hquota : cache.validateReplacementQuota key entry = .ok ())
    (hentry : entry.len ≤ limits.entryBytes) : (cache.replaceEntry key entry).Within limits := by
  obtain ⟨hmemoryMax, hfileMax⟩ : limits.memoryBytes < Machine.u64Max ∧
      limits.fileBytes < Machine.u64Max := by
    have hmemory : hardMaxMemoryBytes < Machine.u64Max := by decide
    have hfile : hardMaxFileBytes < Machine.u64Max := by decide
    unfold DocumentCacheLimits.validate at hvalid
    split at hvalid
    · cases hvalid
    split at hvalid
    · cases hvalid
    omega
  have hlength : (cache.entries.insert key entry).keys.length ≤
      cache.entries.keys.length + if (cache.entries.lookup key).isNone then 1 else 0 := by
    cases hexisting : cache.entries.lookup key with
    | none => exact length_keys_insert_le ..
    | some existing => exact (length_keys_insert entry (mem_of_lookup hexisting)).le
  unfold validateReplacementQuota at hquota
  rw [h.same] at hquota
  dsimp only at hquota
  generalize cache.entries.keys.length + _ = resulting at hquota hlength
  split at hquota
  · cases hquota
  rename_i hentries
  split at hquota
  · cases hquota
  rename_i hmemory
  split at hquota
  · cases hquota
  rename_i hfile
  refine ⟨h.same, saturated_le hmemoryMax hmemory, saturated_le hfileMax hfile,
    hlength.trans (Nat.not_lt.mp hentries), fun other found hfound => ?_⟩
  replace hfound := (lookup_insert ..).symm.trans hfound
  split at hfound
  · cases hfound
    exact hentry
  · exact h.entry other found hfound

theorem Within.remove (h : cache.Within limits) (key : String) : (cache.remove key).Within limits where
  same := h.same
  memory := (Nat.sub_le ..).trans h.memory
  file := (Nat.sub_le ..).trans h.file
  entries := (length_keys_erase_le ..).trans h.entries
  entry := fun other found hfound => by
    replace hfound := (lookup_erase ..).symm.trans hfound
    split at hfound
    · cases hfound
    · exact h.entry other found hfound

theorem get_replaceEntry (cache : DocumentCache) (key : String) (entry : StoredEntry) :
    (cache.replaceEntry key entry).get = update cache.get key (some entry) := by
  funext other
  simp only [get, replaceEntry, lookup_insert, update_apply]

theorem get_remove (cache : DocumentCache) (key : String) :
    (cache.remove key).get = update cache.get key none := by
  funext other
  simp only [get, remove, lookup_erase, update_apply]

theorem insertMemory_eq_ok {bytes : List UInt8} {after : DocumentCache}
    (h : cache.insertMemory key bytes = .ok after) :
    bytes.length ≤ cache.limits.entryBytes ∧
      cache.validateReplacementQuota key (.memory bytes) = .ok () ∧
      after = cache.replaceEntry key (.memory bytes) := by
  obtain ⟨_, hkey, hrest⟩ := bind_eq_ok.mp h
  obtain rfl := validatedKey_eq_ok hkey
  obtain ⟨hfits, h⟩ := unit_bind_eq_ok.mp hrest
  obtain ⟨hquota, h⟩ := unit_bind_eq_ok.mp h
  exact ⟨validateEntryLen_eq_ok.mp hfits, hquota, (Except.ok.inj h).symm⟩

end DocumentCache

/-- A cache with the values that were written to it and not removed. -/
structure Written where
  cache : DocumentCache
  values : String → Option StoredEntry

namespace Written

def next (state : Written) (call : CacheCall) : Written where
  cache := (state.cache.call call).2
  values := match (state.cache.call call).1 with
    | .ok _ => call.written state.values
    | .error _ => state.values

structure Kept (state : Written) (limits : DocumentCacheLimits) : Prop where
  within : state.cache.Within limits
  get : state.cache.get = state.values

variable {state : Written} {limits : DocumentCacheLimits}

theorem Kept.replaced (h : state.Kept limits) (hvalid : limits.validate = .ok limits) {key : String}
    {entry : StoredEntry} (hquota : state.cache.validateReplacementQuota key entry = .ok ())
    (hentry : entry.len ≤ limits.entryBytes) :
    Kept ⟨state.cache.replaceEntry key entry, update state.values key (some entry)⟩ limits :=
  ⟨h.within.replaceEntry hvalid hquota hentry, h.get ▸ DocumentCache.get_replaceEntry ..⟩

theorem Kept.next (h : state.Kept limits) (hvalid : limits.validate = .ok limits)
    (call : CacheCall) : (state.next call).Kept limits := by
  cases call with
  | insertMemory key bytes =>
    simp only [Written.next, DocumentCache.call]
    cases hinsert : state.cache.insertMemory key bytes with
    | error error => exact h
    | ok after =>
      obtain ⟨hfits, hquota, rfl⟩ := DocumentCache.insertMemory_eq_ok hinsert
      exact h.replaced hvalid hquota (h.within.same ▸ hfits)
  | insertFile key stream =>
    simp only [Written.next, DocumentCache.call]
    cases hinsert : state.cache.insertFile key stream with
    | error error => exact h
    | ok after =>
      obtain ⟨-, contents, length, hread, hquota, rfl⟩ := DocumentCache.insertFile_eq_ok hinsert
      obtain ⟨rfl, rfl, hfits⟩ := DocumentCache.readFile_eq_ok hread (Nat.zero_le _)
      exact h.replaced hvalid hquota (h.within.same ▸ hfits)
  | remove key =>
    refine ⟨h.within.remove key, ?_⟩
    exact (DocumentCache.get_remove ..).trans (congrArg (update · key none) h.get)
  | purge =>
    refine ⟨⟨h.within.same, Nat.zero_le _, Nat.zero_le _, Nat.zero_le _, ?_⟩, rfl⟩
    intro key entry hentry
    cases hentry

/-- The accounting of a cache: what is recorded is the sum over the entries, within the quotas, so that
no subtraction of an entry saturates.  The cache returns what was written, and an insert that fails
leaves it as it was. -/
structure Accounted (state : Written) (limits : DocumentCacheLimits) : Prop where
  memory : state.cache.memoryBytes = Table.total StoredEntry.memoryLen state.cache.entries
  file : state.cache.fileBytes = Table.total StoredEntry.fileLen state.cache.entries
  within : state.cache.Within limits
  unsaturated : ∀ key entry, state.cache.get key = some entry →
    entry.memoryLen ≤ state.cache.memoryBytes ∧ entry.fileLen ≤ state.cache.fileBytes
  get : state.cache.get = state.values
  unchanged : ∀ call error, (state.cache.call call).1 = .error error →
    (state.cache.call call).2 = state.cache

theorem Kept.accounted (h : state.Kept limits) : state.Accounted limits where
  memory := state.cache.memory_eq
  file := state.cache.file_eq
  within := h.within
  unsaturated := by
    intro key entry hentry
    have hmemory := total_erase StoredEntry.memoryLen state.cache.entries key
    have hfile := total_erase StoredEntry.fileLen state.cache.entries key
    rw [show state.cache.entries.lookup key = some entry from hentry, Option.elim] at hmemory hfile
    rw [state.cache.memory_eq, state.cache.file_eq]
    omega
  get := h.get
  unchanged := by
    intro call error herror
    have hanswer : ∀ result, (state.cache.answer result).1 = .error error →
        (state.cache.answer result).2 = state.cache := by
      rintro (_ | after) h
      · rfl
      · cases h
    cases call with
    | insertMemory key bytes | insertFile key stream => exact hanswer _ herror
    | remove key | purge => cases herror

/-- Over every sequence of calls on a new cache its accounting is exact. -/
theorem accounting {cache : DocumentCache} (h : DocumentCache.new limits = .ok cache)
    (calls : List CacheCall) :
    (calls.foldl Written.next ⟨cache, fun _ => none⟩).Accounted limits := by
  obtain ⟨hvalid, rfl⟩ : limits.validate = .ok limits ∧ DocumentCache.empty limits = cache := by
    unfold DocumentCache.new at h
    cases hlimits : limits.validate with
    | error error =>
      rw [hlimits] at h
      cases h
    | ok valid =>
      obtain rfl : limits = valid := by
        unfold DocumentCacheLimits.validate at hlimits
        repeat' split at hlimits
        all_goals cases hlimits
        rfl
      rw [hlimits] at h
      exact ⟨rfl, Except.ok.inj h⟩
  have hstart : Kept ⟨.empty limits, fun _ => none⟩ limits :=
    ⟨⟨rfl, Nat.zero_le _, Nat.zero_le _, Nat.zero_le _, nofun⟩, rfl⟩
  exact (foldlRecOn (motive := (Kept · limits)) calls next hstart fun _ h call _ =>
    h.next hvalid call).accounted

/-- A file takes the place of a value in memory. -/
theorem accounting_replaced : ∃ cache, DocumentCache.new ⟨8, 8, 8, 2⟩ = .ok cache ∧
    ([CacheCall.insertMemory "same" [1, 2], .insertFile "same"
      ⟨.ok (), [⟨false, .ok [1, 2, 3], .ok ()⟩], false, .ok ()⟩].foldl next
        ⟨cache, fun _ => none⟩).Accounted ⟨8, 8, 8, 2⟩ :=
  ⟨_, rfl, accounting rfl _⟩

end Written

end KeyReader.Reference
