import KeyReader.Checked
import KeyReader.Machine
import KeyReader.Reference.Queue
import KeyReader.Transition

/-! The document cache: what it holds in memory and in files, and its quotas.  A file stands for its
contents. -/

namespace KeyReader.Reference

open Checked Table

def hardMaxMemoryBytes : Nat := 64 * 1024 * 1024

def hardMaxFileBytes : Nat := 512 * 1024 * 1024

def hardMaxEntryBytes : Nat := 64 * 1024 * 1024

def hardMaxEntries : Nat := 1024

def hardMaxKeyBytes : Nat := 512

/-- The failures of the document cache. -/
inductive CacheError
  | quotaExceeded (quota : String) (limit : Nat)
  | cancelled
  | cache (message : String)

structure DocumentCacheLimits where
  memoryBytes : Nat
  fileBytes : Nat
  entryBytes : Nat
  entries : Nat

def DocumentCacheLimits.validate (limits : DocumentCacheLimits) :
    Except CacheError DocumentCacheLimits :=
  if hardMaxMemoryBytes < limits.memoryBytes then
    .error (.quotaExceeded "memory" hardMaxMemoryBytes)
  else if hardMaxFileBytes < limits.fileBytes then .error (.quotaExceeded "file" hardMaxFileBytes)
  else if limits.entryBytes = 0 ∨ hardMaxEntryBytes < limits.entryBytes then
    .error (.quotaExceeded "single-entry" hardMaxEntryBytes)
  else if limits.entries = 0 ∨ hardMaxEntries < limits.entries then
    .error (.quotaExceeded "entry-count" hardMaxEntries)
  else if limits.memoryBytes = 0 ∧ limits.fileBytes = 0 then
    .error (.cache "at least one cache tier must be enabled")
  else .ok limits

structure DocumentCacheUsage where
  entries : Nat
  memoryBytes : Nat
  fileBytes : Nat

inductive StoredEntry
  | memory (bytes : List UInt8)
  | file (contents : List UInt8) (len : Nat)

namespace StoredEntry

def len : StoredEntry → Nat
  | .memory bytes => bytes.length
  | .file _ len => len

def memoryLen : StoredEntry → Nat
  | .memory bytes => bytes.length
  | .file .. => 0

def fileLen : StoredEntry → Nat
  | .memory _ => 0
  | .file _ len => len

end StoredEntry

/-- A round of reading a value: whether the token is cancelled, what the reader gives, and what the
write to the new file returns. -/
structure Round where
  cancelled : Bool
  read : Except String (List UInt8)
  written : Except String Unit

/-- What `insert_file` meets: the new file, the rounds, and then the token and the flush. -/
structure Stream where
  created : Except String Unit
  rounds : List Round
  cancelled : Bool
  flushed : Except String Unit

structure DocumentCache where
  limits : DocumentCacheLimits
  entries : AList fun _ : String => StoredEntry
  memoryBytes : Nat
  fileBytes : Nat
  memory_eq : memoryBytes = total StoredEntry.memoryLen entries
  file_eq : fileBytes = total StoredEntry.fileLen entries

namespace DocumentCache

def empty (limits : DocumentCacheLimits) : DocumentCache := ⟨limits, ∅, 0, 0, rfl, rfl⟩

def new (limits : DocumentCacheLimits) : Except CacheError DocumentCache :=
  limits.validate.map empty

section

variable (cache : DocumentCache)

def usage : DocumentCacheUsage :=
  ⟨cache.entries.keys.length, cache.memoryBytes, cache.fileBytes⟩

def purge : DocumentCache := empty cache.limits

def validateEntryLen (length : Nat) : Except CacheError Unit :=
  if cache.limits.entryBytes < length then
    .error (.quotaExceeded "single-entry" cache.limits.entryBytes)
  else .ok ()

/-- `char::is_control` -/
def isControl (c : Char) : Bool := c.toNat < 32 || (127 ≤ c.toNat && c.toNat < 160)

section

variable (key : String)

def validatedKey : Except CacheError String :=
  if key.isEmpty ∨ hardMaxKeyBytes < key.utf8ByteSize ∨ key.toList.any isControl then
    .error (.cache "cache key must contain 1..=512 non-control bytes")
  else .ok key

def validateReplacementQuota (replacement : StoredEntry) : Except CacheError Unit :=
  let existing := cache.entries.lookup key
  let entries := cache.entries.keys.length + if existing.isNone then 1 else 0
  let memory := Machine.saturatingAdd (cache.memoryBytes - existing.elim 0 StoredEntry.memoryLen)
    replacement.memoryLen
  let file := Machine.saturatingAdd (cache.fileBytes - existing.elim 0 StoredEntry.fileLen)
    replacement.fileLen
  if cache.limits.entries < entries then .error (.quotaExceeded "entry-count" cache.limits.entries)
  else if cache.limits.memoryBytes < memory then
    .error (.quotaExceeded "memory" cache.limits.memoryBytes)
  else if cache.limits.fileBytes < file then .error (.quotaExceeded "file" cache.limits.fileBytes)
  else .ok ()

theorem replaced_eq {weight : StoredEntry → Nat} {entries : AList fun _ : String => StoredEntry}
    {bytes : Nat} (h : bytes = total weight entries) (key : String) (entry : StoredEntry) :
    bytes - (entries.lookup key).elim 0 weight + weight entry =
      total weight (entries.insert key entry) := by
  have hinsert := total_insert weight entries key entry
  have herase := total_erase weight entries key
  omega

theorem erased_eq {weight : StoredEntry → Nat} {entries : AList fun _ : String => StoredEntry}
    {bytes : Nat} (h : bytes = total weight entries) (key : String) :
    bytes - (entries.lookup key).elim 0 weight = total weight (entries.erase key) := by
  have herase := total_erase weight entries key
  omega

def replaceEntry (replacement : StoredEntry) : DocumentCache where
  limits := cache.limits
  entries := cache.entries.insert key replacement
  memoryBytes := cache.memoryBytes - (cache.entries.lookup key).elim 0 StoredEntry.memoryLen +
    replacement.memoryLen
  fileBytes := cache.fileBytes - (cache.entries.lookup key).elim 0 StoredEntry.fileLen +
    replacement.fileLen
  memory_eq := replaced_eq cache.memory_eq key replacement
  file_eq := replaced_eq cache.file_eq key replacement

def insertMemory (bytes : List UInt8) : Except CacheError DocumentCache := do
  let key ← validatedKey key
  cache.validateEntryLen bytes.length
  cache.validateReplacementQuota key (.memory bytes)
  .ok (cache.replaceEntry key (.memory bytes))

def get : Option StoredEntry := cache.entries.lookup key

/-- The loop of `insert_file`, which ends with an empty piece. -/
def readFile (cache : DocumentCache) : List Round → List UInt8 → Nat →
    Except CacheError (List UInt8 × Nat)
  | [], contents, length => .ok (contents, length)
  | round :: rounds, contents, length => do
    ensure (round.cancelled = false) CacheError.cancelled
    let piece ← round.read.mapError CacheError.cache
    if piece = [] then .ok (contents, length)
    else do
      let length ← okOr (Machine.checkedAdd length piece.length)
        (.quotaExceeded "single-entry" cache.limits.entryBytes)
      cache.validateEntryLen length
      round.written.mapError CacheError.cache
      cache.readFile rounds (contents ++ piece) length

def insertFile (stream : Stream) : Except CacheError DocumentCache := do
  let key ← validatedKey key
  stream.created.mapError CacheError.cache
  let (contents, length) ← cache.readFile stream.rounds [] 0
  ensure (stream.cancelled = false) CacheError.cancelled
  stream.flushed.mapError CacheError.cache
  cache.validateReplacementQuota key (.file contents length)
  .ok (cache.replaceEntry key (.file contents length))

def remove : DocumentCache where
  limits := cache.limits
  entries := cache.entries.erase key
  memoryBytes := cache.memoryBytes - (cache.entries.lookup key).elim 0 StoredEntry.memoryLen
  fileBytes := cache.fileBytes - (cache.entries.lookup key).elim 0 StoredEntry.fileLen
  memory_eq := erased_eq cache.memory_eq key
  file_eq := erased_eq cache.file_eq key

end

end

variable {cache after : DocumentCache} {key : String} {stream : Stream}

theorem validatedKey_eq_ok {validated : String} (h : validatedKey key = .ok validated) :
    validated = key := by
  unfold validatedKey at h
  split at h <;> cases h
  rfl

theorem insertFile_eq_ok (h : cache.insertFile key stream = .ok after) :
    stream.cancelled = false ∧ ∃ contents length,
      cache.readFile stream.rounds [] 0 = .ok (contents, length) ∧
      cache.validateReplacementQuota key (.file contents length) = .ok () ∧
      after = cache.replaceEntry key (.file contents length) := by
  obtain ⟨_, hkey, hrest⟩ := bind_eq_ok.mp h
  obtain rfl := validatedKey_eq_ok hkey
  obtain ⟨-, h⟩ := unit_bind_eq_ok.mp hrest
  obtain ⟨⟨contents, length⟩, hread, h⟩ := bind_eq_ok.mp h
  obtain ⟨hcancelled, h⟩ := ensure_bind_eq_ok.mp h
  obtain ⟨-, h⟩ := unit_bind_eq_ok.mp h
  obtain ⟨hquota, h⟩ := unit_bind_eq_ok.mp h
  exact ⟨hcancelled, contents, length, hread, hquota, (Except.ok.inj h).symm⟩

end DocumentCache

end KeyReader.Reference

/-! The ledger of the document caches of a process, with the caches that are alive.  A cache is shared
by its name; the ledger's record of it does not keep it alive. -/

namespace KeyReader.Reference

abbrev CacheId := Nat

structure CacheRecord where
  cache : CacheId
  touched : Nat

structure CacheLedger where
  memoryLimit : Nat
  fileLimit : Nat
  clock : Nat
  records : AList fun _ : ScopeId => CacheRecord

/-- A cache that someone holds, and whether it was ever registered. -/
structure LiveCache where
  cache : DocumentCache
  registered : Bool

abbrev LiveCaches := AList fun _ : CacheId => LiveCache

structure Caches where
  ledger : CacheLedger
  live : LiveCaches
  nextCache : CacheId

def addUsage (total usage : DocumentCacheUsage) : DocumentCacheUsage where
  entries := Machine.saturatingAdd total.entries usage.entries
  memoryBytes := Machine.saturatingAdd total.memoryBytes usage.memoryBytes
  fileBytes := Machine.saturatingAdd total.fileBytes usage.fileBytes

def totalUsage (usages : List DocumentCacheUsage) : DocumentCacheUsage :=
  usages.foldl addUsage ⟨0, 0, 0⟩

namespace LiveCaches

/-- `Weak::upgrade` and `usage`. -/
def usageOf (live : LiveCaches) (record : CacheRecord) : Option DocumentCacheUsage :=
  (live.lookup record.cache).map (·.cache.usage)

def change (live : LiveCaches) (cache : CacheId) (changed : DocumentCache → DocumentCache) :
    LiveCaches :=
  match live.lookup cache with
  | some held => live.insert cache { held with cache := changed held.cache }
  | none => live

def purge (live : LiveCaches) (cache : CacheId) : LiveCaches := live.change cache (·.purge)

def registeredUsage (live : LiveCaches) : DocumentCacheUsage :=
  totalUsage ((live.entries.filter (·.2.registered)).map (·.2.cache.usage))

end LiveCaches

namespace CacheLedger

def new (memoryLimit fileLimit : Nat) : CacheLedger := ⟨memoryLimit, fileLimit, 1, ∅⟩

section

variable (ledger : CacheLedger)

/-- `clock.fetch_add(1)` -/
def tick : Nat × CacheLedger :=
  (ledger.clock, { ledger with clock := (ledger.clock + 1) % (Machine.u64Max + 1) })

section

variable (live : LiveCaches)

def usage : DocumentCacheUsage :=
  totalUsage ((ledger.records.entries.map (·.2)).filterMap live.usageOf)

def within (usage : DocumentCacheUsage) : Bool :=
  usage.memoryBytes ≤ ledger.memoryLimit && usage.fileBytes ≤ ledger.fileLimit

def register (scope : ScopeId) (cache : CacheId) : CacheLedger × LiveCaches :=
  let (touched, ledger) := ledger.tick
  let previous := ledger.records.lookup scope
  let ledger := { ledger with records := ledger.records.insert scope ⟨cache, touched⟩ }
  match previous with
  | some previous =>
    if previous.cache = cache then (ledger, live) else (ledger, live.purge previous.cache)
  | none => (ledger, live)

def purgeScope (scope : ScopeId) : CacheLedger × LiveCaches :=
  match ledger.records.lookup scope with
  | some record =>
    ({ ledger with records := ledger.records.erase scope }, live.purge record.cache)
  | none => (ledger, live)

/-- The record that was touched first among those of the other scopes, if there are any. -/
def candidate (protectedScope : Option ScopeId) : Option ScopeId :=
  (Table.lowest (fun scope => decide (some scope ≠ protectedScope)) (·.touched) ledger.records).or
    (Table.lowest (fun _ => true) (·.touched) ledger.records)

/-- The loop of `reconcile`, which takes out a record in each round. -/
def evict (protectedScope : Option ScopeId) : Nat → CacheLedger → LiveCaches → CacheLedger × LiveCaches
  | 0, ledger, live => (ledger, live)
  | rounds + 1, ledger, live =>
    if ledger.within (ledger.usage live) then (ledger, live)
    else match ledger.candidate protectedScope with
    | none => (ledger, live)
    | some scope =>
      let (ledger, live) := ledger.purgeScope live scope
      evict protectedScope rounds ledger live

def touch (scope : ScopeId) : CacheLedger :=
  match ledger.records.lookup scope with
  | some record =>
    let (touched, ledger) := ledger.tick
    { ledger with records := ledger.records.insert scope { record with touched } }
  | none => ledger

def reconcile (protectedScope : Option ScopeId) : CacheLedger × LiveCaches :=
  let records := Table.retainValues (fun record => (live.lookup record.cache).isSome) ledger.records
  let ledger := { ledger with records }
  let ledger := protectedScope.elim ledger ledger.touch
  evict protectedScope (ledger.records.keys.length + 1) ledger live

end

end

end CacheLedger

/-- What is done to the caches of the process: a session makes one and drops it, a scope registers it
for a job and is cancelled, a job stores what it fetched, and the ledger is reconciled. -/
inductive CacheOperation
  | create (limits : DocumentCacheLimits)
  | drop (cache : CacheId)
  | register (scope : ScopeId) (cache : CacheId)
  | insertMemory (cache : CacheId) (key : String) (bytes : List UInt8)
  | insertFile (cache : CacheId) (key : String) (stream : Stream)
  | remove (cache : CacheId) (key : String)
  | purge (cache : CacheId)
  | purgeScope (scope : ScopeId)
  | reconcile (protectedScope : Option ScopeId)

namespace Caches

def new (memoryLimit fileLimit : Nat) : Caches := ⟨.new memoryLimit fileLimit, ∅, 0⟩

/-- An insert that fails leaves the cache as it is. -/
def insert (caches : Caches) (cache : CacheId)
    (inserted : DocumentCache → Except CacheError DocumentCache) : Caches :=
  { caches with live := caches.live.change cache fun held => (inserted held).toOption.getD held }

def step (caches : Caches) : CacheOperation → Caches
  | .create limits => match DocumentCache.new limits with
    | .ok cache => { caches with
        live := caches.live.insert caches.nextCache ⟨cache, false⟩
        nextCache := caches.nextCache + 1 }
    | .error _ => caches
  | .drop cache => { caches with live := caches.live.erase cache }
  | .register scope cache => match caches.live.lookup cache with
    | some held =>
      let live := caches.live.insert cache { held with registered := true }
      let (ledger, live) := caches.ledger.register live scope cache
      { caches with ledger, live }
    | none => caches
  | .insertMemory cache key bytes => caches.insert cache (·.insertMemory key bytes)
  | .insertFile cache key stream => caches.insert cache (·.insertFile key stream)
  | .remove cache key => { caches with live := caches.live.change cache (·.remove key) }
  | .purge cache => { caches with live := caches.live.purge cache }
  | .purgeScope scope =>
    let (ledger, live) := caches.ledger.purgeScope caches.live scope
    { caches with ledger, live }
  | .reconcile protectedScope =>
    let (ledger, live) := caches.ledger.reconcile caches.live protectedScope
    { caches with ledger, live }

end Caches

end KeyReader.Reference
